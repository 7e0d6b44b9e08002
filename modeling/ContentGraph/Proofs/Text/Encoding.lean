import ContentGraph.Text.Utf8
import Mathlib.Data.Char
import Mathlib.Data.List.Lex
import Mathlib.Data.UInt
import Mathlib.Tactic.SplitIfs

/-!
# The bytes of a text

Texts are ordered as their bytes are (`encode_lt_iff`), so different texts have different bytes. A
byte below 0x80 stands for its character wherever it occurs (`mem_encode_iff`), also at the end of a
text (`encode_suffix_iff`). The bytes of a text are read as its characters (`pieces_encode`).
-/

namespace ContentGraph.Utf8

theorem toList_loop (bytes : ByteArray) (i : Nat) (front : List UInt8) :
    ByteArray.toList.loop bytes i front = front.reverse ++ bytes.data.toList.drop i := by
  fun_induction ByteArray.toList.loop bytes i front with
  | case1 i front hlt ih =>
      have hi : i < bytes.data.toList.length := by simpa using hlt
      rw [ih, List.drop_eq_getElem_cons hi]
      simp [ByteArray.get!, hlt]
  | case2 i front hge =>
      rw [List.drop_eq_nil_of_le (by simpa using hge), List.append_nil]

theorem encode_eq (s : List Char) : encode s = s.flatMap String.utf8EncodeChar := by
  unfold encode ByteArray.toList
  rw [toList_loop, String.toUTF8_eq_toByteArray, String.toByteArray_ofList]
  unfold List.utf8Encode
  rw [List.toList_data_toByteArray]
  rfl

@[simp] theorem encode_nil : encode [] = [] := by rw [encode_eq, List.flatMap_nil]

theorem encode_cons (c : Char) (s : List Char) :
    encode (c :: s) = String.utf8EncodeChar c ++ encode s := by
  rw [encode_eq, encode_eq, List.flatMap_cons]

@[simp] theorem encode_append (s t : List Char) : encode (s ++ t) = encode s ++ encode t := by
  rw [encode_eq, encode_eq, encode_eq, List.flatMap_append]

/-! ## Order -/

/-- The bytes of two characters are ordered as these are, whatever stands behind. -/
theorem encodeChar_lt {c d : Char} (h : c < d) (s t : List UInt8) :
    String.utf8EncodeChar c ++ s < String.utf8EncodeChar d ++ t := by
  have hlt : c.val.toNat < d.val.toNat := h
  have hd : d.val.toNat < 0x110000 := by
    rcases d.valid with h | h <;> omega
  unfold String.utf8EncodeChar
  dsimp only
  generalize c.val.toNat = m at hlt ⊢
  generalize d.val.toNat = n at hlt hd ⊢
  split_ifs
  all_goals
    simp only [List.cons_append, List.nil_append, List.cons_lt_cons_iff, UInt8.lt_iff_toNat_lt,
      ← UInt8.toNat_inj, UInt8.toNat_ofNat']
  any_goals omega
  -- of four bytes each, the first two are compared apart
  by_cases hfirst : m / 262144 < n / 262144
  · omega
  · refine .inr ⟨by omega, ?_⟩
    by_cases hsecond : m / 4096 < n / 4096
    · omega
    · exact .inr ⟨by omega, by omega⟩

theorem encode_lt {a b : List Char} (h : a < b) : encode a < encode b := by
  induction h with
  | nil =>
      rw [encode_nil, encode_cons]
      obtain ⟨b, bs, hb⟩ := List.exists_cons_of_ne_nil (String.utf8EncodeChar_ne_nil)
      rw [hb]
      exact List.Lex.nil
  | cons _ ih =>
      rw [encode_cons, encode_cons]
      exact List.append_left_lt ih
  | rel hlt =>
      rw [encode_cons, encode_cons]
      exact encodeChar_lt hlt _ _

/-- Texts are ordered as their bytes are. -/
theorem encode_lt_iff {a b : List Char} : encode a < encode b ↔ a < b := by
  refine ⟨fun h => ?_, encode_lt⟩
  rcases lt_trichotomy a b with hlt | rfl | hgt
  · exact hlt
  · exact absurd h (List.lt_irrefl _)
  · exact absurd h (List.lt_asymm (encode_lt hgt))

theorem encode_injective {a b : List Char} (h : encode a = encode b) : a = b := by
  rcases lt_trichotomy a b with hlt | heq | hgt
  · exact absurd (h ▸ encode_lt hlt) (List.lt_irrefl _)
  · exact heq
  · exact absurd (h ▸ encode_lt hgt) (List.lt_irrefl _)

/-! ## Bytes below 0x80 -/

/-- The byte of a character below 0x80. -/
def byteOf (c : Char) : UInt8 := UInt8.ofNat c.toNat

theorem encodeChar_of_lt {c : Char} (h : c.toNat < 128) : String.utf8EncodeChar c = [byteOf c] := by
  unfold String.utf8EncodeChar
  exact if_pos (Nat.le_of_lt_succ h)

/-- Such a byte is found in its character only. -/
theorem eq_of_mem_encodeChar {c d : Char} (hd : d.toNat < 128)
    (hmem : byteOf d ∈ String.utf8EncodeChar c) : c = d := by
  have hbyte : (byteOf d).toNat = d.toNat := by
    unfold byteOf
    rw [UInt8.toNat_ofNat']
    omega
  have hval : c.val.toNat = d.val.toNat := by
    have hc : c.val.toNat < 0x110000 := by
      rcases c.valid with h | h <;> omega
    have hbyte : (byteOf d).toNat = d.val.toNat := hbyte
    have hd : d.val.toNat < 128 := hd
    unfold String.utf8EncodeChar at hmem
    dsimp only at hmem
    generalize c.val.toNat = m at *
    split_ifs at hmem
    all_goals
      simp only [List.mem_cons, List.not_mem_nil, or_false, ← UInt8.toNat_inj,
        UInt8.toNat_ofNat'] at hmem
      omega
  exact Char.ext (UInt32.toNat_inj.1 hval)

theorem mem_encode_iff {c : Char} (hc : c.toNat < 128) {s : List Char} :
    byteOf c ∈ encode s ↔ c ∈ s := by
  rw [encode_eq, List.mem_flatMap]
  constructor
  · rintro ⟨d, hd, hmem⟩
    rwa [eq_of_mem_encodeChar hc hmem] at hd
  · intro hmem
    exact ⟨c, hmem, by rw [encodeChar_of_lt hc]; exact List.mem_singleton_self _⟩

/-- What ends in the bytes of such characters ends in them. -/
theorem encode_suffix_iff {s t : List Char} (ht : ∀ c ∈ t, c.toNat < 128) :
    encode t <:+ encode s ↔ t <:+ s := by
  constructor
  · rintro ⟨front, h⟩
    induction t using List.reverseRecOn generalizing s with
    | nil => exact List.nil_suffix
    | append_singleton t c ih =>
        have hc : c.toNat < 128 := ht c (List.mem_append_right t (List.mem_singleton_self c))
        have hlast : encode [c] = [byteOf c] := by
          rw [encode_cons, encodeChar_of_lt hc, encode_nil, List.append_nil]
        rw [encode_append, hlast, ← List.append_assoc] at h
        -- the last byte of the text is that of its last character
        rcases s.eq_nil_or_concat' with rfl | ⟨s, d, rfl⟩
        · rw [encode_nil] at h
          simp at h
        · rw [encode_append, encode_cons, encode_nil, List.append_nil] at h
          obtain ⟨bytes, b, hbytes⟩ : ∃ bytes b, String.utf8EncodeChar d = bytes ++ [b] :=
            (List.eq_nil_or_concat' _).resolve_left String.utf8EncodeChar_ne_nil
          rw [hbytes, ← List.append_assoc] at h
          have hb : byteOf c = b := List.singleton_inj.1 (List.append_inj' h rfl).2
          obtain rfl : d = c := eq_of_mem_encodeChar hc (by rw [hbytes, hb]; simp)
          rw [encodeChar_of_lt hc] at hbytes
          have hnil : bytes = [] := by
            have := congrArg List.length hbytes
            simpa using this.symm
          have hrest : front ++ encode t = encode s := by
            have := (List.append_inj' h rfl).1
            rwa [hnil, List.append_nil] at this
          obtain ⟨r, rfl⟩ := ih (fun c hmem => ht c (List.mem_append_left _ hmem)) hrest
          exact ⟨r, (List.append_assoc _ _ _).symm⟩
  · rintro ⟨r, rfl⟩
    rw [encode_append]
    exact List.suffix_append _ _

/-! ## Reading -/

section Reading

variable {a b c d low high : UInt8} {rest : List UInt8}

theorem within_iff :
    (low ≤ a && a ≤ high) = true ↔ low.toNat ≤ a.toNat ∧ a.toNat ≤ high.toNat := by
  rw [Bool.and_eq_true, decide_eq_true_iff, decide_eq_true_iff, UInt8.le_iff_toNat_le,
    UInt8.le_iff_toNat_le]

theorem isContinuation_iff : isContinuation b = true ↔ 128 ≤ b.toNat ∧ b.toNat ≤ 191 :=
  within_iff

/-- A second byte may neither make a character of fewer bytes nor one beyond the last, and no
surrogate. -/
theorem mayFollow_iff : mayFollow a b = true ↔
    (if a.toNat = 224 then 160 else if a.toNat = 240 then 144 else 128) ≤ b.toNat
      ∧ b.toNat ≤ (if a.toNat = 237 then 159 else if a.toNat = 244 then 143 else 191) := by
  unfold mayFollow
  rw [within_iff]
  unfold secondRange
  simp only [beq_iff_eq, ← UInt8.toNat_inj]
  split_ifs <;> simp_all

/-! The first byte tells how many there are. -/

theorem not_ascii_of_le (ha : 128 ≤ a.toNat) : ¬a < 0x80 := fun h =>
  absurd (UInt8.lt_iff_toNat_lt.1 h) (Nat.not_lt.2 ha)

theorem within_eq_false_of_lt (ha : high.toNat < a.toNat) : (low ≤ a && a ≤ high) = false :=
  Bool.eq_false_iff.2 fun h => absurd (within_iff.1 h).2 (Nat.not_le.2 ha)

theorem front_one (ha : a.toNat < 128) : front (a :: rest) = .char (Char.ofNat a.toNat) rest := by
  have h1 : a < 0x80 := UInt8.lt_iff_toNat_lt.2 ha
  simp only [front, h1, if_true]

theorem front_two (ha : 194 ≤ a.toNat ∧ a.toNat ≤ 223) (hb : isContinuation b = true) :
    front (a :: b :: rest) = .char (Char.ofNat (a.toNat % 32 * 64 + payload b)) rest := by
  have h1 : ¬a < 0x80 := not_ascii_of_le (by omega)
  have h2 : (0xC2 ≤ a && a ≤ 0xDF) = true := within_iff.2 ha
  simp only [front, h1, h2, hb, if_true, if_false]

theorem front_three (ha : 224 ≤ a.toNat ∧ a.toNat ≤ 239) (hb : mayFollow a b = true)
    (hc : isContinuation c = true) :
    front (a :: b :: c :: rest)
      = .char (Char.ofNat ((a.toNat % 16 * 64 + payload b) * 64 + payload c)) rest := by
  have h1 : ¬a < 0x80 := not_ascii_of_le (by omega)
  have h2 : (0xC2 ≤ a && a ≤ 0xDF) = false := within_eq_false_of_lt ha.1
  have h3 : (0xE0 ≤ a && a ≤ 0xEF) = true := within_iff.2 ha
  simp only [front, h1, h2, h3, hb, hc, Bool.false_eq_true, if_true, if_false]

theorem front_four (ha : 240 ≤ a.toNat ∧ a.toNat ≤ 244) (hb : mayFollow a b = true)
    (hc : isContinuation c = true) (hd : isContinuation d = true) :
    front (a :: b :: c :: d :: rest)
      = .char (Char.ofNat (((a.toNat % 8 * 64 + payload b) * 64 + payload c) * 64 + payload d))
        rest := by
  have h1 : ¬a < 0x80 := not_ascii_of_le (by omega)
  have h2 : (0xC2 ≤ a && a ≤ 0xDF) = false :=
    within_eq_false_of_lt (Nat.lt_of_lt_of_le (by decide) ha.1)
  have h3 : (0xE0 ≤ a && a ≤ 0xEF) = false := within_eq_false_of_lt ha.1
  have h4 : (0xF0 ≤ a && a ≤ 0xF4) = true := within_iff.2 ha
  simp only [front, h1, h2, h3, h4, hb, hc, hd, Bool.false_eq_true, if_true, if_false]

/-- **Reading.** The bytes of a character are read as it, whatever stands behind. -/
theorem front_encodeChar (c : Char) (rest : List UInt8) :
    front (String.utf8EncodeChar c ++ rest) = .char c rest := by
  have hc (n : Nat) (hn : n = c.val.toNat) : Char.ofNat n = c := by
    rw [hn]
    exact Char.ofNat_toNat c
  have hvalid : c.val.toNat < 0xD800 ∨ 0xDFFF < c.val.toNat ∧ c.val.toNat < 0x110000 := c.valid
  unfold String.utf8EncodeChar
  dsimp only
  generalize c.val.toNat = n at hc hvalid
  have hbyte {m : Nat} (hm : m < 256) : (UInt8.ofNat m).toNat = m := by
    rw [UInt8.toNat_ofNat']
    exact Nat.mod_eq_of_lt hm
  have hnext (m : Nat) : (UInt8.ofNat (m % 64 + 128)).toNat = m % 64 + 128 := hbyte (by omega)
  have hcontinues (m : Nat) : isContinuation (UInt8.ofNat (m % 64 + 128)) = true := by
    rw [isContinuation_iff, hnext]
    omega
  have hpayload (m : Nat) : payload (UInt8.ofNat (m % 64 + 128)) = m % 64 := by
    unfold payload
    rw [hnext]
    omega
  split_ifs with h1 h2 h3
  · have ha : (UInt8.ofNat n).toNat = n := hbyte (by omega)
    rw [List.singleton_append, front_one (by omega), hc _ ha]
  · have ha : (UInt8.ofNat (n / 64 % 32 + 192)).toNat = n / 64 % 32 + 192 := hbyte (by omega)
    rw [List.cons_append, List.singleton_append, front_two (by omega) (hcontinues n), ha, hpayload,
      hc _ (by omega)]
  · have ha : (UInt8.ofNat (n / 4096 % 16 + 224)).toNat = n / 4096 % 16 + 224 := hbyte (by omega)
    have hb : mayFollow (UInt8.ofNat (n / 4096 % 16 + 224)) (UInt8.ofNat (n / 64 % 64 + 128))
        = true := by
      rw [mayFollow_iff, ha, hnext]
      split_ifs <;> omega
    simp only [List.cons_append, List.nil_append]
    rw [front_three (by omega) hb (hcontinues n), ha, hpayload, hpayload, hc _ (by omega)]
  · have ha : (UInt8.ofNat (n / 262144 % 8 + 240)).toNat = n / 262144 % 8 + 240 := hbyte (by omega)
    have hb : mayFollow (UInt8.ofNat (n / 262144 % 8 + 240)) (UInt8.ofNat (n / 4096 % 64 + 128))
        = true := by
      rw [mayFollow_iff, ha, hnext]
      split_ifs <;> omega
    simp only [List.cons_append, List.nil_append]
    rw [front_four (by omega) hb (hcontinues _) (hcontinues n), ha, hpayload, hpayload, hpayload,
      hc _ (by omega)]

end Reading

theorem piecesFrom_of_char {bytes rest : List UInt8} {c : Char} (h : front bytes = .char c rest)
    (done : List (Option Char)) : piecesFrom done bytes = piecesFrom (some c :: done) rest := by
  fun_cases piecesFrom done bytes with
  | case1 hdone => exact nomatch h.symm.trans hdone
  | case2 d rest' hchar =>
      obtain ⟨rfl, rfl⟩ := Front.char.inj (h.symm.trans hchar)
      rfl
  | case3 size rest' hill => exact nomatch h.symm.trans hill
  | case4 hcut => exact nomatch h.symm.trans hcut

theorem piecesFrom_encode (s : List Char) (done : List (Option Char)) :
    piecesFrom done (encode s) = done.reverse ++ s.map some := by
  induction s generalizing done with
  | nil =>
      rw [encode_nil, piecesFrom]
      simp [front]
  | cons c s ih =>
      rw [encode_cons, piecesFrom_of_char (front_encodeChar c _), ih, List.reverse_cons,
        List.append_assoc]
      rfl

/-- **Texts.** The pieces of a text are its characters. -/
theorem pieces_encode (s : List Char) : pieces (encode s) = s.map some :=
  piecesFrom_encode s []

end ContentGraph.Utf8
