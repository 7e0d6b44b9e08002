import ContentGraph.Text.Blank
import Mathlib.Data.List.DropRight

/-!
# Trimming

What is left of a text when white space is dropped at its ends. Trimming at the front and at the end
commute (`trimStart_trimEnd`), and a text is trimmed up to its last character that is no white space
(`trimEnd_append`).
-/

namespace ContentGraph.Text

/-! ## The end -/

theorem trimEnd_eq (s : List Char) : trimEnd s = s.rdropWhile isBlank := rfl

theorem allBlank_iff {s : List Char} : allBlank s = true ↔ ∀ c ∈ s, isBlank c = true := by
  unfold allBlank
  exact List.all_eq_true

theorem trimEnd_eq_nil_iff {s : List Char} : trimEnd s = [] ↔ allBlank s = true := by
  rw [trimEnd_eq, List.rdropWhile_eq_nil_iff, allBlank_iff]

theorem trimStart_eq_nil_iff {s : List Char} : trimStart s = [] ↔ allBlank s = true := by
  unfold trimStart
  rw [List.dropWhile_eq_nil_iff, allBlank_iff]

/-- Behind other text, all is dropped that is white space up to the end. -/
theorem trimEnd_append (s t : List Char) :
    trimEnd (s ++ t) = if allBlank t = true then trimEnd s else s ++ trimEnd t := by
  unfold trimEnd
  rw [List.reverse_append, List.dropWhile_append]
  split
  · next h =>
    have hblank : allBlank t = true := by
      rw [← trimEnd_eq_nil_iff]
      unfold trimEnd
      rw [List.isEmpty_iff.1 h, List.reverse_nil]
    rw [if_pos hblank]
  · next h =>
    have hblank : ¬allBlank t = true := by
      rw [← trimEnd_eq_nil_iff]
      unfold trimEnd
      rwa [List.reverse_eq_nil_iff, ← List.isEmpty_iff]
    rw [if_neg hblank, List.reverse_append, List.reverse_reverse]

theorem trimEnd_trimEnd (s : List Char) : trimEnd (trimEnd s) = trimEnd s := by
  rw [trimEnd_eq, trimEnd_eq]
  exact List.rdropWhile_idempotent _ _

/-- What stays when white space is dropped at the end, and the white space. -/
theorem exists_blanks_behind (s : List Char) :
    ∃ blanks, allBlank blanks = true ∧ s = trimEnd s ++ blanks :=
  ⟨s.rtakeWhile isBlank, allBlank_iff.2 fun _ hc => List.mem_rtakeWhile_imp hc,
    List.rdropWhile_append_rtakeWhile.symm⟩

/-- Nothing is dropped behind a last character that is to stay. -/
theorem rdropWhile_of_last {p : Char → Bool} {s : List Char} {c : Char}
    (hlast : s.getLast? = some c) (hc : p c = false) : s.rdropWhile p = s := by
  obtain ⟨init, rfl⟩ := List.getLast?_eq_some_iff.1 hlast
  exact List.rdropWhile_concat_neg p init c (Bool.eq_false_iff.1 hc)

/-! ## The front -/

/-- A text is some white space and what is left without it. -/
theorem exists_blanks (s : List Char) :
    ∃ blanks, allBlank blanks = true ∧ s = blanks ++ trimStart s :=
  ⟨s.takeWhile isBlank, allBlank_iff.2 fun _ hc => List.mem_takeWhile_imp hc,
    List.takeWhile_append_dropWhile.symm⟩

theorem trimStart_append_of_allBlank {blanks : List Char} (h : allBlank blanks = true)
    (s : List Char) : trimStart (blanks ++ s) = trimStart s :=
  List.dropWhile_append_of_pos (allBlank_iff.1 h)

/-- What is left of a text starts with no white space. -/
theorem isBlank_of_trimStart_cons {s rest : List Char} {c : Char}
    (h : trimStart s = c :: rest) : isBlank c = false := by
  induction s with
  | nil => cases h
  | cons d s ih =>
      cases hd : isBlank d with
      | true => exact ih (by rwa [trimStart_cons_of_isBlank hd] at h)
      | false =>
          rw [trimStart_cons_of_not_isBlank hd] at h
          rwa [← (List.cons.inj h).1]

theorem trimStart_trimEnd (s : List Char) : trimStart (trimEnd s) = trimEnd (trimStart s) := by
  obtain ⟨blanks, hblanks, hs⟩ := exists_blanks s
  cases hleft : trimStart s with
  | nil =>
      rw [trimEnd_eq_nil_iff.2 (trimStart_eq_nil_iff.1 hleft)]
      rfl
  | cons c rest =>
      have hc := isBlank_of_trimStart_cons hleft
      have hnot : ¬allBlank (c :: rest) = true := fun h => by
        rw [allBlank_iff.1 h c List.mem_cons_self] at hc
        cases hc
      -- the first character that is left stays at the end as well
      obtain ⟨more, hmore⟩ : ∃ more, trimEnd (c :: rest) = c :: more := by
        rw [← List.singleton_append, trimEnd_append]
        split
        · exact ⟨[], by simp [trimEnd, hc]⟩
        · exact ⟨trimEnd rest, rfl⟩
      rw [hleft] at hs
      rw [hs, trimEnd_append, if_neg hnot, trimStart_append_of_allBlank hblanks, hmore,
        trimStart_cons_of_not_isBlank hc]

/-! ## Both ends -/

@[simp] theorem trim_trimEnd (s : List Char) : trim (trimEnd s) = trim s := by
  unfold trim
  rw [trimStart_trimEnd, trimEnd_trimEnd]

@[simp] theorem trim_trim (s : List Char) : trim (trim s) = trim s := by
  unfold trim
  rw [trimStart_trimEnd, trimStart_trimStart, trimEnd_trimEnd]

theorem trim_cons_of_isBlank {c : Char} (h : isBlank c = true) (s : List Char) :
    trim (c :: s) = trim s := by
  unfold trim
  rw [trimStart_cons_of_isBlank h]

theorem trim_length_le (s : List Char) : (trim s).length ≤ s.length :=
  (List.rdropWhile_prefix isBlank (trimStart s)).length_le.trans
    (List.dropWhile_suffix isBlank).length_le

theorem trim_eq_nil_iff {s : List Char} : trim s = [] ↔ allBlank s = true := by
  unfold trim
  rw [trimEnd_eq_nil_iff, ← trimStart_eq_nil_iff, trimStart_trimStart, trimStart_eq_nil_iff]

/-- The beginning of a text without white space in front has none. -/
theorem trimStart_of_front {s front : List Char} (h : front <+: s) (hs : trim s = s) :
    trimStart front = front := by
  obtain ⟨rest, rfl⟩ := h
  cases front with
  | nil => rfl
  | cons c front =>
      have hstart : trimStart (c :: (front ++ rest)) = c :: (front ++ rest) := by
        have hcommon := trimStart_trimEnd (trimStart (c :: (front ++ rest)))
        rw [trimStart_trimStart] at hcommon
        rw [← List.cons_append, ← hs]
        exact hcommon
      exact trimStart_cons_of_not_isBlank (isBlank_of_trimStart_cons hstart)

end ContentGraph.Text
