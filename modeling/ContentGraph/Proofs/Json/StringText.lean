import ContentGraph.Json.Printer
import ContentGraph.Json.Reader

/-!
# Strings read back

What `escapeChar` writes for one character, `stringBody` reads as that character
(`stringBody_escapeChar`); so a string is read back from its quoted text (`stringBody_quoted`).
-/

namespace ContentGraph.Json

open Text

theorem hexDigit?_digitChar {n : Nat} (h : n < 16) : hexDigit? (Nat.digitChar n) = some n := by
  have all : ∀ k < 16, hexDigit? (Nat.digitChar k) = some k := by decide
  exact all n h

/-- Two hexadecimal digits behind two zeros write a number below 256. -/
theorem hex4_of_lt {n : Nat} (h : n < 256) (s : List Char) :
    hex4 ('0' :: '0' :: Nat.digitChar (n / 16) :: Nat.digitChar (n % 16) :: s) = some (n, s) := by
  have hzero : hexDigit? '0' = some 0 := by decide
  have hhigh : hexDigit? (Nat.digitChar (n / 16)) = some (n / 16) :=
    hexDigit?_digitChar (by omega)
  have hlow : hexDigit? (Nat.digitChar (n % 16)) = some (n % 16) := hexDigit?_digitChar (by omega)
  have hsum : ((0 * 16 + 0) * 16 + n / 16) * 16 + n % 16 = n := by omega
  unfold hex4
  simp only [hzero, hhigh, hlow, Option.bind_eq_bind, Option.bind_some, hsum]
  rfl

/-- A control character is read back from its four digits. -/
theorem unicodeEscape_of_lt {c : Char} (h : c.toNat < 0x20) (s : List Char) :
    unicodeEscape ('0' :: '0' :: Nat.digitChar (c.toNat / 16) :: Nat.digitChar (c.toNat % 16) :: s)
      = some (c, s) := by
  have hlow : ¬ (0xDC00 ≤ c.toNat ∧ c.toNat ≤ 0xDFFF) := by omega
  have hhigh : ¬ (0xD800 ≤ c.toNat ∧ c.toNat ≤ 0xDBFF) := by omega
  unfold unicodeEscape
  simp only [hex4_of_lt (by omega : c.toNat < 256), Option.bind_eq_bind, Option.bind_some, hlow,
    hhigh, if_false, Char.ofNat_toNat]

/-- One character is read back from what is written for it. -/
theorem stringBody_escapeChar (c : Char) (fuel : Nat) (done s : List Char) :
    stringBody (fuel + 1) done (escapeChar c ++ s) = stringBody fuel (c :: done) s := by
  unfold escapeChar
  split
  · next h => subst h; rfl
  split
  · next h => subst h; rfl
  split
  · next h => subst h; rfl
  split
  · next h => subst h; rfl
  split
  · next h => subst h; rfl
  split
  · next h => subst h; rfl
  split
  · next h => subst h; rfl
  split
  · next h =>
      simp only [List.cons_append, List.nil_append]
      rw [stringBody]
      simp only [unicodeEscape_of_lt h]
  · next hquote hslash _ _ _ _ _ hcontrol =>
      simp only [List.cons_append, List.nil_append]
      rw [stringBody]
      · simp [hcontrol, hslash]
      · exact hquote
      · exact fun _ h _ => hslash h
      · exact fun _ _ h _ => hslash h

/-- A text is read up to the closing quote. -/
theorem stringBody_text (cs : List Char) {fuel : Nat} (h : cs.length < fuel)
    (done s : List Char) :
    stringBody fuel done (cs.flatMap escapeChar ++ '"' :: s)
      = some (String.ofList (done.reverse ++ cs), s) := by
  induction cs generalizing fuel done with
  | nil =>
      obtain ⟨n, rfl⟩ : ∃ n, fuel = n + 1 := ⟨fuel - 1, by simp at h; omega⟩
      simp [stringBody]
  | cons c cs ih =>
      obtain ⟨n, rfl⟩ : ∃ n, fuel = n + 1 := ⟨fuel - 1, by simp at h; omega⟩
      rw [List.flatMap_cons, List.append_assoc, stringBody_escapeChar,
        ih (by simpa using h)]
      simp

theorem length_escapeChar_pos (c : Char) : 0 < (escapeChar c).length := by
  unfold escapeChar
  repeat' split
  all_goals simp

/-- No character is written shorter than it is. -/
theorem length_le_escaped (cs : List Char) : cs.length ≤ (cs.flatMap escapeChar).length := by
  induction cs with
  | nil => simp
  | cons c cs ih =>
      have := length_escapeChar_pos c
      simp only [List.flatMap_cons, List.length_append, List.length_cons]
      omega

/-- A string is read back from its quoted text, given room for the text. -/
theorem stringBody_quoted (t : String) {fuel : Nat} (h : (quoted t).length ≤ fuel)
    (s : List Char) :
    ∃ body, quoted t ++ s = '"' :: body ∧ stringBody fuel [] body = some (t, s) := by
  have hlen := length_le_escaped t.toList
  refine ⟨t.toList.flatMap escapeChar ++ '"' :: s, by simp [quoted], ?_⟩
  rw [stringBody_text]
  · simp
  · simp only [quoted, List.cons_append, List.length_cons, List.length_append,
      List.length_nil] at h
    omega

end ContentGraph.Json
