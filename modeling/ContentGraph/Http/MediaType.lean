import ContentGraph.Text.Digit

/-!
# Media types

A media type is a type, a slash and a subtype, which may be followed by parameters. A body is taken
for JSON when its type is `application/json` or ends in `+json`. Letters count without case.
-/

namespace ContentGraph.Http

/-- Holds for the characters of which names in media types are made. -/
def isTokenChar (c : Char) : Bool :=
  Text.isLetter c || Text.isDigit c || c ∈ "!#$%&'*+-.^_|~\x60".toList

/-- Holds for the characters that may stand between quotes. -/
def isQuotedChar (c : Char) : Bool :=
  0x20 ≤ c.toNat && c.toNat < 0x7F && c != '"'

/-- Holds when the parameters behind a subtype are well formed. -/
def areParameters : Nat → List Char → Bool
  | 0, _ => false
  | fuel + 1, s =>
    match s with
    | [] => true
    | ' ' :: s => areParameters fuel s
    | s =>
      let name := s.takeWhile isTokenChar
      match s.dropWhile isTokenChar, name.isEmpty with
      | '=' :: '"' :: s, false =>
        let value := s.takeWhile isQuotedChar
        match s.dropWhile isQuotedChar, value.isEmpty with
        | '"' :: s, false =>
          match s.dropWhile (· == ' ') with
          | [] => true
          | ';' :: s => areParameters fuel s
          | _ => false
        | _, _ => false
      | '=' :: s, false =>
        let value := s.takeWhile isTokenChar
        match s.dropWhile isTokenChar, value.isEmpty with
        | [], _ => true
        | ';' :: s, false => areParameters fuel s
        | _, _ => false
      | _, _ => false

/-- A media type without its parameters: the subtype stops at its last plus sign, behind which
stands the suffix. -/
structure MediaType where
  type : String
  subtype : String
  suffix : Option String
deriving Repr, DecidableEq

/-- Cuts a subtype at its last plus sign, unless that is its first letter. -/
def splitSuffix (s : List Char) : List Char × Option (List Char) :=
  let suffix := (s.reverse.takeWhile (· != '+')).reverse
  let front := s.take (s.length - suffix.length - 1)
  if front.isEmpty then (s, none) else (front, some suffix)

/-- Reads a media type. -/
def MediaType.parse? (text : String) : Option MediaType :=
  let s := text.toList.map Char.toLower
  let type := s.takeWhile isTokenChar
  match s.dropWhile isTokenChar, type.isEmpty with
  | '/' :: s, false =>
    let subtype := s.takeWhile isTokenChar
    let rest := s.dropWhile isTokenChar
    let isWhole := match rest, subtype.isEmpty with
      | [], _ => true
      | ';' :: ps, false => areParameters (ps.length + 1) ps
      | _, _ => false
    if isWhole then
      let (front, suffix) := splitSuffix subtype
      some ⟨String.ofList type, String.ofList front, suffix.map String.ofList⟩
    else none
  | _, _ => none

/-- Holds for the types of bodies that are taken for JSON. -/
def MediaType.isJson (m : MediaType) : Bool :=
  m.type = "application" && (m.subtype = "json" || m.suffix = some "json")

/-- Holds when a header names a type of body that is taken for JSON. -/
def announcesJson (contentType : Option String) : Bool :=
  (contentType.bind MediaType.parse?).any (·.isJson)

example : ["application/json", "Application/JSON; charset=utf-8", "application/ld+json",
    "application/json;"].all (fun s => announcesJson (some s)) = true := by decide +kernel

example : [none, some "", some "json", some "text/json", some "application/json ;",
    some "application/jsonp"].any announcesJson = false := by decide +kernel

end ContentGraph.Http
