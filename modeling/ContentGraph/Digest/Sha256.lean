/-!
# SHA-256

The digest of FIPS 180-4, as lower-case hexadecimal text of a byte array.
-/

namespace ContentGraph.Sha256

/-- The round constants: fractional parts of the cube roots of the first 64 primes. -/
def roundConstants : Array UInt32 := #[
  0x428a2f98, 0x71374491, 0xb5c0fbcf, 0xe9b5dba5, 0x3956c25b, 0x59f111f1, 0x923f82a4, 0xab1c5ed5,
  0xd807aa98, 0x12835b01, 0x243185be, 0x550c7dc3, 0x72be5d74, 0x80deb1fe, 0x9bdc06a7, 0xc19bf174,
  0xe49b69c1, 0xefbe4786, 0x0fc19dc6, 0x240ca1cc, 0x2de92c6f, 0x4a7484aa, 0x5cb0a9dc, 0x76f988da,
  0x983e5152, 0xa831c66d, 0xb00327c8, 0xbf597fc7, 0xc6e00bf3, 0xd5a79147, 0x06ca6351, 0x14292967,
  0x27b70a85, 0x2e1b2138, 0x4d2c6dfc, 0x53380d13, 0x650a7354, 0x766a0abb, 0x81c2c92e, 0x92722c85,
  0xa2bfe8a1, 0xa81a664b, 0xc24b8b70, 0xc76c51a3, 0xd192e819, 0xd6990624, 0xf40e3585, 0x106aa070,
  0x19a4c116, 0x1e376c08, 0x2748774c, 0x34b0bcb5, 0x391c0cb3, 0x4ed8aa4a, 0x5b9cca4f, 0x682e6ff3,
  0x748f82ee, 0x78a5636f, 0x84c87814, 0x8cc70208, 0x90befffa, 0xa4506ceb, 0xbef9a3f7, 0xc67178f2]

/-- The eight words of chaining state. -/
structure State where
  a : UInt32
  b : UInt32
  c : UInt32
  d : UInt32
  e : UInt32
  f : UInt32
  g : UInt32
  h : UInt32
deriving Repr, DecidableEq

/-- The state before the first block. -/
def State.start : State :=
  ⟨0x6a09e667, 0xbb67ae85, 0x3c6ef372, 0xa54ff53a, 0x510e527f, 0x9b05688c, 0x1f83d9ab, 0x5be0cd19⟩

/-- Adds two states word by word. -/
def State.add (x y : State) : State :=
  ⟨x.a + y.a, x.b + y.b, x.c + y.c, x.d + y.d, x.e + y.e, x.f + y.f, x.g + y.g, x.h + y.h⟩

/-- The state's words, first to last. -/
def State.words (x : State) : List UInt32 := [x.a, x.b, x.c, x.d, x.e, x.f, x.g, x.h]

/-- Rotates a word right by `n` bits, `0 < n < 32`. -/
def rotate (x n : UInt32) : UInt32 := (x >>> n) ||| (x <<< (32 - n))

/-- Appends the delimiter, zeros and the bit count in eight bytes, to a multiple of 64 bytes. -/
def pad (message : Array UInt8) : Array UInt8 :=
  let zeros := (55 - (message.size : Int)) % 64 |>.toNat
  let bits := message.size * 8
  (message.push 0x80) ++ Array.replicate zeros 0
    ++ (Array.range 8).map fun i => UInt8.ofNat (bits / Nat.pow 256 (7 - i))

/-- The big-endian word at byte `i`. -/
def wordAt (bytes : Array UInt8) (i : Nat) : UInt32 :=
  let byte (k : Nat) : UInt32 := (bytes[i + k]?.getD 0).toUInt32
  (byte 0 <<< 24) ||| (byte 1 <<< 16) ||| (byte 2 <<< 8) ||| byte 3

/-- Appends the next word of a message schedule of at least sixteen words. -/
def extendSchedule (w : Array UInt32) : Array UInt32 :=
  let word (back : Nat) : UInt32 := w[w.size - back]?.getD 0
  let s0 := rotate (word 15) 7 ^^^ rotate (word 15) 18 ^^^ (word 15 >>> 3)
  let s1 := rotate (word 2) 17 ^^^ rotate (word 2) 19 ^^^ (word 2 >>> 10)
  w.push (word 16 + s0 + word 7 + s1)

/-- The 64 schedule words of the block at byte `i`. -/
def schedule (bytes : Array UInt8) (i : Nat) : Array UInt32 :=
  (List.range 48).foldl (fun w _ => extendSchedule w)
    ((Array.range 16).map fun k => wordAt bytes (i + 4 * k))

/-- One round with constant `k` and schedule word `w`. -/
def round (x : State) (k w : UInt32) : State :=
  let s1 := rotate x.e 6 ^^^ rotate x.e 11 ^^^ rotate x.e 25
  let choice := (x.e &&& x.f) ^^^ (~~~x.e &&& x.g)
  let t1 := x.h + s1 + choice + k + w
  let s0 := rotate x.a 2 ^^^ rotate x.a 13 ^^^ rotate x.a 22
  let majority := (x.a &&& x.b) ^^^ (x.a &&& x.c) ^^^ (x.b &&& x.c)
  ⟨t1 + (s0 + majority), x.a, x.b, x.c, x.d + t1, x.e, x.f, x.g⟩

/-- Works the block at byte `i` into the state. -/
def compress (x : State) (bytes : Array UInt8) (i : Nat) : State :=
  let w := schedule bytes i
  x.add ((List.range 64).foldl
    (fun y k => round y (roundConstants[k]?.getD 0) (w[k]?.getD 0)) x)

/-- The state after all blocks of the padded message. -/
def digest (message : Array UInt8) : State :=
  let bytes := pad message
  (List.range (bytes.size / 64)).foldl (fun x k => compress x bytes (64 * k)) .start

/-- Eight lower-case hexadecimal digits. -/
def hexWord (w : UInt32) : List Char :=
  (List.range 8).map fun i => Nat.digitChar (w.toNat / Nat.pow 16 (7 - i) % 16)

/-- The digest as 64 lower-case hexadecimal digits. -/
def hex (message : Array UInt8) : String :=
  String.ofList ((digest message).words.flatMap hexWord)

theorem hex_length (message : Array UInt8) : (hex message).length = 64 := by
  simp [hex, State.words, hexWord]

end ContentGraph.Sha256
