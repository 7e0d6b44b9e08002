import ContentGraph.Path.Basic
import ContentGraph.Text.Digit
import ContentGraph.Text.Utf8

/-!
# Request targets

A target is a path and what may follow it, a query or a fragment. The path is cut at its slashes;
a segment may hold bytes written as a percent sign and two hexadecimal digits.
-/

namespace ContentGraph.Http

/-- The path of a target, without query and fragment. -/
def targetPath (target : String) : List Char :=
  target.toList.takeWhile fun c => c != '?' && c != '#'

/-- The segments of a path that starts with a slash. -/
def segments? (path : List Char) : Option (List String) :=
  match path with
  | '/' :: rest => some ((Path.splitOn '/' rest).map String.ofList)
  | _ => none

/-- The bytes of a segment. A percent sign that no two hexadecimal digits follow stands for
itself. -/
def unescape : List Char → List UInt8
  | '%' :: a :: b :: rest =>
    match Text.hexDigit? a, Text.hexDigit? b with
    | some x, some y => UInt8.ofNat (16 * x + y) :: unescape rest
    | _, _ => Utf8.encode ['%'] ++ unescape (a :: b :: rest)
  | c :: rest => Utf8.encode [c] ++ unescape rest
  | [] => []

/-- The text of a segment, if its bytes are text. -/
def segmentText? (segment : String) : Option String :=
  match Utf8.decode (unescape segment.toList) with
  | .ok s => some (String.ofList s)
  | .error _ => none

end ContentGraph.Http
