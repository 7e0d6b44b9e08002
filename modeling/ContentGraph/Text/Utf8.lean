/-!
# UTF-8

Reading bytes as text. `decode` accepts well-formed UTF-8 only and says where and how the bytes
stop being well formed; `pieces` goes on behind each maximal ill-formed piece, for which
`decodeLossy` puts one U+FFFD.
-/

namespace ContentGraph.Utf8

/-- What stands at the front of some bytes. -/
inductive Front
  /-- Nothing is left. -/
  | done
  /-- One character, and the bytes behind it. -/
  | char (c : Char) (rest : List UInt8)
  /-- An ill-formed piece of the given size, and the bytes behind it. -/
  | ill (size : Nat) (rest : List UInt8)
  /-- The bytes end inside a character. -/
  | cut
deriving Repr

/-- Holds for the bytes `10xxxxxx`. -/
def isContinuation (b : UInt8) : Bool := 0x80 ≤ b && b ≤ 0xBF

/-- The six bits that a continuation byte carries. -/
def payload (b : UInt8) : Nat := b.toNat % 64

/-- Least and greatest second byte after a first byte that opens three or four bytes. -/
def secondRange (first : UInt8) : UInt8 × UInt8 :=
  if first == 0xE0 then (0xA0, 0xBF)
  else if first == 0xED then (0x80, 0x9F)
  else if first == 0xF0 then (0x90, 0xBF)
  else if first == 0xF4 then (0x80, 0x8F)
  else (0x80, 0xBF)

/-- Holds when `second` may follow `first`. -/
def mayFollow (first second : UInt8) : Bool :=
  (secondRange first).1 ≤ second && second ≤ (secondRange first).2

/-- Reads one character, or the maximal piece that no character can begin with. -/
def front : List UInt8 → Front
  | [] => .done
  | a :: s =>
    if a < 0x80 then .char (Char.ofNat a.toNat) s
    else if 0xC2 ≤ a && a ≤ 0xDF then
      match s with
      | [] => .cut
      | b :: s =>
        if isContinuation b then .char (Char.ofNat (a.toNat % 32 * 64 + payload b)) s
        else .ill 1 (b :: s)
    else if 0xE0 ≤ a && a ≤ 0xEF then
      match s with
      | [] => .cut
      | b :: s =>
        if mayFollow a b then
          match s with
          | [] => .cut
          | c :: s =>
            if isContinuation c then
              .char (Char.ofNat ((a.toNat % 16 * 64 + payload b) * 64 + payload c)) s
            else .ill 2 (c :: s)
        else .ill 1 (b :: s)
    else if 0xF0 ≤ a && a ≤ 0xF4 then
      match s with
      | [] => .cut
      | b :: s =>
        if mayFollow a b then
          match s with
          | [] => .cut
          | c :: s =>
            if isContinuation c then
              match s with
              | [] => .cut
              | d :: s =>
                if isContinuation d then
                  .char (Char.ofNat
                    (((a.toNat % 8 * 64 + payload b) * 64 + payload c) * 64 + payload d)) s
                else .ill 3 (d :: s)
            else .ill 2 (c :: s)
        else .ill 1 (b :: s)
    else .ill 1 s

theorem front_char_length {bytes rest : List UInt8} {c : Char} (h : front bytes = .char c rest) :
    rest.length < bytes.length := by
  unfold front at h
  repeat' split at h
  all_goals cases h
  all_goals simp only [List.length_cons]; omega

theorem front_ill_length {bytes rest : List UInt8} {n : Nat} (h : front bytes = .ill n rest) :
    rest.length < bytes.length := by
  unfold front at h
  repeat' split at h
  all_goals cases h
  all_goals simp only [List.length_cons]; omega

/-- Why some bytes are not UTF-8: the size of the well-formed front, and of the ill-formed piece
behind it unless the bytes end inside a character. -/
structure Malformed where
  validUpTo : Nat
  size : Option Nat
deriving Repr, DecidableEq

/-- The wording of a decoding failure. -/
def Malformed.message (e : Malformed) : String :=
  match e.size with
  | some n => s!"invalid utf-8 sequence of {n} bytes from index {e.validUpTo}"
  | none => s!"incomplete utf-8 byte sequence from index {e.validUpTo}"

/-- Decodes behind `start` bytes already read as `done`, which is reversed. -/
def decodeFrom (start : Nat) (done : List Char) (bytes : List UInt8) :
    Except Malformed (List Char) :=
  match h : front bytes with
  | .done => .ok done.reverse
  | .char c rest =>
    have := front_char_length h
    decodeFrom (start + (bytes.length - rest.length)) (c :: done) rest
  | .ill n _ => .error ⟨start, some n⟩
  | .cut => .error ⟨start, none⟩
termination_by bytes.length

/-- Reads well-formed UTF-8. -/
def decode (bytes : List UInt8) : Except Malformed (List Char) := decodeFrom 0 [] bytes

/-- The pieces behind those already read as `done`, which is reversed. -/
def piecesFrom (done : List (Option Char)) (bytes : List UInt8) : List (Option Char) :=
  match h : front bytes with
  | .done => done.reverse
  | .char c rest =>
    have := front_char_length h
    piecesFrom (some c :: done) rest
  | .ill _ rest =>
    have := front_ill_length h
    piecesFrom (none :: done) rest
  | .cut => (none :: done).reverse
termination_by bytes.length

/-- The characters of any bytes, and `none` for each maximal ill-formed piece. -/
def pieces (bytes : List UInt8) : List (Option Char) := piecesFrom [] bytes

/-- The character that stands for what cannot be read. -/
def replacement : Char := '\uFFFD'

/-- Reads any bytes, with one U+FFFD for each maximal ill-formed piece. -/
def decodeLossy (bytes : List UInt8) : List Char := (pieces bytes).map (·.getD replacement)

/-- The bytes of a text. -/
def encode (s : List Char) : List UInt8 := (String.ofList s).toUTF8.toList

end ContentGraph.Utf8
