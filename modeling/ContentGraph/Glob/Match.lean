import ContentGraph.Glob.Pattern
import ContentGraph.Text.Utf8

/-!
# Matching of glob patterns

A pattern is matched against the bytes of a path; stars match slashes too. Matching goes through
the tokens and keeps what each way of matching leaves of the path. A path that ends in a dot has
no file name: patterns that look only at the file name or at its extension do not match it.
-/

namespace ContentGraph.Glob

/-- A path, as bytes. -/
abbrev Bytes := List UInt8

/-- The slash. -/
def slash : UInt8 := 0x2F

/-- The dot. -/
def dot : UInt8 := 0x2E

/-! ## Classes -/

/-- A range of bytes, with both ends. -/
structure ByteRange where
  first : UInt8
  last : UInt8

/-- The range of a single byte. -/
def ByteRange.single (b : UInt8) : ByteRange := ⟨b, b⟩

/-- The byte ranges of a range of characters: the last byte of the first character spans to the
first byte of the last one, and their other bytes stand alone. -/
def byteRanges (range : Char × Char) : List ByteRange :=
  let front := Utf8.encode [range.1]
  let back := Utf8.encode [range.2]
  if range.1 = range.2 then front.map .single
  else
    front.dropLast.map .single
      ++ [⟨front.getLast?.getD 0, back.head?.getD 0⟩]
      ++ back.tail.map .single

/-- Holds when a class has a byte. -/
def classHas (negated : Bool) (ranges : List (Char × Char)) (b : UInt8) : Bool :=
  (ranges.flatMap byteRanges).any (fun r => r.first ≤ b && b ≤ r.last) != negated

/-! ## What is left -/

/-- What is left of a path behind some bytes in front of it. -/
def dropBytes? : Bytes → Bytes → Option Bytes
  | [], s => some s
  | b :: bs, c :: s => if b = c then dropBytes? bs s else none
  | _ :: _, [] => none

/-- What is left behind one byte that meets a condition. -/
def dropByte? (ok : UInt8 → Bool) : Bytes → Option Bytes
  | [] => none
  | b :: s => if ok b then some s else none

/-- The ends of a list, the list itself first. -/
def ends : Bytes → List Bytes
  | [] => [[]]
  | b :: s => (b :: s) :: ends s

/-- What any bytes may leave of some rests of one path: all ends of the longest. -/
def skipAny (rests : List Bytes) : List Bytes :=
  match rests with
  | [] => []
  | r :: rs => ends (rs.foldl (fun a b => if a.length < b.length then b else a) r)

/-- What a slash may leave. -/
def skipSlash (rests : List Bytes) : List Bytes := rests.filterMap (dropByte? (· == slash))

mutual

/-- Holds for tokens that stand for nothing: groups whose branches are all empty. -/
def Token.isVoid : Token → Bool
  | .choice branches => branchesVoid branches
  | _ => false

/-- Holds for patterns without a token that stands for something. -/
def tokensVoid : List Token → Bool
  | [] => true
  | t :: ts => t.isVoid && tokensVoid ts

/-- Holds when every branch is void. -/
def branchesVoid : List (List Token) → Bool
  | [] => true
  | b :: bs => tokensVoid b && branchesVoid bs

end

mutual

/-- What a token may leave of some rests of one path. -/
def Token.after (rests : List Bytes) : Token → List Bytes
  | .letter c => rests.filterMap (dropBytes? (Utf8.encode [c]))
  | .one => rests.filterMap (dropByte? fun _ => true)
  | .run => skipAny rests
  | .ancestors => rests ++ skipSlash (skipAny rests)
  | .descendants => skipAny (skipSlash rests)
  | .between => skipSlash rests ++ skipSlash (skipAny (skipSlash rests))
  | .oneOf negated ranges => rests.filterMap (dropByte? (classHas negated ranges))
  | .choice branches => if branchesVoid branches then rests else branchesAfter rests branches

/-- What tokens may leave, one behind the other. -/
def tokensAfter (rests : List Bytes) : List Token → List Bytes
  | [] => rests
  | t :: ts => tokensAfter (t.after rests) ts

/-- What the branches of a group may leave; void ones do not count. -/
def branchesAfter (rests : List Bytes) : List (List Token) → List Bytes
  | [] => []
  | b :: bs => (if tokensVoid b then [] else tokensAfter rests b) ++ branchesAfter rests bs

end

/-! ## Patterns that look at file names -/

/-- The letters of tokens that are all letters. -/
def letters? : List Token → Option (List Char)
  | [] => some []
  | .letter c :: ts => (letters? ts).map (c :: ·)
  | _ :: _ => none

/-- The tokens behind leading directories. -/
def skipAncestors : List Token → List Token
  | .ancestors :: ts => ts
  | ts => ts

/-- The tokens behind a leading star. -/
def skipRun : List Token → List Token
  | .run :: ts => ts
  | ts => ts

/-- Holds for leading directories and a file name. -/
def isFileName : List Token → Bool
  | .ancestors :: ts => (letters? ts).any fun cs => !cs.isEmpty && !cs.contains '/'
  | _ => false

/-- Holds for a star and an extension, perhaps behind leading directories. -/
def isExtension (ts : List Token) : Bool :=
  match skipAncestors ts with
  | .run :: .letter '.' :: ts => (letters? ts).any fun cs => !cs.contains '.' && !cs.contains '/'
  | _ => false

/-- Holds for letters, perhaps behind leading directories or a star. -/
def isEnding (ts : List Token) : Bool := (letters? (skipRun (skipAncestors ts))).isSome

/-- Holds for patterns whose last token is the letter dot. -/
def endsInDot (ts : List Token) : Bool :=
  match ts.getLast? with
  | some (.letter '.') => true
  | _ => false

/-- Holds for patterns that are matched by the file name or its extension. -/
def looksAtFileName (ts : List Token) : Bool :=
  isFileName ts || isExtension ts || (endsInDot ts && !isEnding ts)

/-! ## Matching -/

/-- Holds when tokens stand for a whole path; leading directories alone stand for any. -/
def covers (ts : List Token) (path : Bytes) : Bool :=
  match ts with
  | [.ancestors] => true
  | ts => (tokensAfter [path] ts).any (·.isEmpty)

/-- Holds when a pattern matches a path. -/
def isMatch (ts : List Token) (path : String) : Bool :=
  let bytes := Utf8.encode path.toList
  covers ts bytes && !(bytes.getLast? == some dot && looksAtFileName ts)

end ContentGraph.Glob
