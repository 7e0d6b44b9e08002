import ContentGraph.Proofs.Document.Headings

/-!
# Fenced blocks

A block of code opens at a line of three or more backticks with no further one, or of three or more
tildes, and closes at a line of no fewer of the same mark alone. Every line that starts with three
marks turns the search for headings on or off, also one that neither opens nor closes a block. So a
heading line is told where it stands outside of blocks behind an even number of such lines, or
inside behind an odd number (`headings_told`); a line of backticks in a block of tildes shows what
the block holds (`tilde_block_told`).
-/

namespace ContentGraph.Document

open ContentGraph.Text

/-! ## Blocks -/

/-- The line that opens a block: its mark, and how often that is written. -/
structure Fence where
  mark : Char
  length : Nat
  isMark : mark = backtick ∨ mark = '~'
  three_le : 3 ≤ length

/-- The number of marks in front of a line, behind white space. -/
def marks (mark : Char) (line : List Char) : Nat :=
  ((trimStart line).takeWhile (· == mark)).length

/-- The block that a line opens where none is open. Behind backticks there stands no further one. -/
def opened? (line : List Char) : Option Fence :=
  if h : 3 ≤ marks backtick line ∧ backtick ∉ (trimStart line).drop (marks backtick line) then
    some ⟨backtick, marks backtick line, .inl rfl, h.1⟩
  else if h : 3 ≤ marks '~' line then some ⟨'~', marks '~' line, .inr rfl, h⟩
  else none

/-- Holds for lines that close a block: no fewer marks and nothing else. -/
def Fence.isClosedBy (fence : Fence) (line : List Char) : Bool :=
  fence.length ≤ (trim line).length && (trim line).all (· == fence.mark)

/-- The block that is open behind a line. -/
def nextBlock : Option Fence → List Char → Option Fence
  | none, line => opened? line
  | some fence, line => if fence.isClosedBy line then none else some fence

/-- Holds for lines that stand in a block. -/
def InBlock (ls : List (List Char)) (i : Nat) : Prop :=
  ((ls.take i).foldl nextBlock none).isSome = true

instance (ls : List (List Char)) (i : Nat) : Decidable (InBlock ls i) :=
  inferInstanceAs (Decidable (_ = true))

/-- The number of lines that are written as fences and neither open nor close a block. -/
def strays : Option Fence → List (List Char) → Nat
  | _, [] => 0
  | block, line :: ls =>
    (if isFence line = true ∧ (nextBlock block line).isSome = block.isSome then 1 else 0)
      + strays (nextBlock block line) ls

/-! ## Lines that change the block -/

theorem isPrefixOf_marks_iff {mark : Char} {s : List Char} :
    [mark, mark, mark].isPrefixOf s = true ↔ 3 ≤ (s.takeWhile (· == mark)).length := by
  rw [List.isPrefixOf_iff_prefix]
  constructor
  · rintro ⟨rest, rfl⟩
    simp
  · intro h
    have hmarks : s.takeWhile (· == mark)
        = List.replicate (s.takeWhile (· == mark)).length mark :=
      List.eq_replicate_of_mem fun c hc =>
        beq_iff_eq.1 (List.mem_takeWhile_imp (p := (· == mark)) hc)
    refine List.IsPrefix.trans ?_ (List.takeWhile_prefix (· == mark))
    rw [hmarks]
    exact List.prefix_replicate_iff.2 ⟨h, rfl⟩

theorem isFence_iff {line : List Char} :
    isFence line = true ↔ 3 ≤ marks backtick line ∨ 3 ≤ marks '~' line := by
  unfold isFence
  dsimp only
  rw [Bool.or_eq_true, isPrefixOf_marks_iff, isPrefixOf_marks_iff]
  rfl

theorem isFence_of_opened {line : List Char} {fence : Fence} (h : opened? line = some fence) :
    isFence line = true := by
  rw [isFence_iff]
  unfold opened? at h
  split at h
  · next hticks => exact .inl hticks.1
  · split at h
    · next htildes => exact .inr htildes
    · cases h

theorem isFence_of_isClosedBy {line : List Char} {fence : Fence}
    (h : fence.isClosedBy line = true) : isFence line = true := by
  unfold Fence.isClosedBy at h
  rw [Bool.and_eq_true, decide_eq_true_eq, List.all_eq_true] at h
  obtain ⟨hlength, hall⟩ := h
  -- what is trimmed at the end stands behind the marks
  obtain ⟨tail, htail⟩ : trim line <+: trimStart line :=
    List.rdropWhile_prefix isBlank (trimStart line)
  have hmarks : 3 ≤ marks fence.mark line := by
    have := fence.three_le
    unfold marks
    rw [← htail, List.takeWhile_append_of_pos hall, List.length_append]
    omega
  rw [isFence_iff]
  rcases fence.isMark with hmark | hmark
  · exact .inl (hmark ▸ hmarks)
  · exact .inr (hmark ▸ hmarks)

/-- A line that is no fence changes no block. -/
theorem nextBlock_of_not_isFence {line : List Char} (h : isFence line = false)
    (block : Option Fence) : nextBlock block line = block := by
  cases block with
  | none =>
      show opened? line = none
      rw [← Option.not_isSome_iff_eq_none, Option.isSome_iff_exists]
      rintro ⟨fence, hopened⟩
      rw [isFence_of_opened hopened] at h
      cases h
  | some fence =>
      refine if_neg fun hclosed => ?_
      rw [isFence_of_isClosedBy hclosed] at h
      cases h

/-! ## Headings outside of blocks -/

/-- Fence lines and strays differ in the lines that open or close a block. -/
theorem even_countP_isFence_iff (block : Option Fence) (ls : List (List Char)) :
    Even (ls.countP isFence)
      ↔ ((ls.foldl nextBlock block).isSome = block.isSome ↔ Even (strays block ls)) := by
  induction ls generalizing block with
  | nil => simp [strays]
  | cons line ls ih =>
      rw [List.countP_cons, List.foldl_cons]
      unfold strays
      cases hfence : isFence line with
      | false =>
          rw [nextBlock_of_not_isFence hfence]
          simpa using ih block
      | true =>
          rw [if_pos rfl, Nat.even_add_one, ih]
          by_cases hkept : (nextBlock block line).isSome = block.isSome
          · rw [if_pos ⟨rfl, hkept⟩, hkept, Nat.add_comm 1, Nat.even_add_one]
            tauto
          · rw [if_neg fun h => hkept h.2, Nat.zero_add, Bool.eq_not_of_ne hkept]
            cases (ls.foldl nextBlock (nextBlock block line)).isSome <;> cases block.isSome <;>
              simp

/-- **Fences.** A heading line is told where it stands outside of blocks and behind an even number
of strays, or in a block and behind an odd number. -/
theorem headings_told (text : String) :
    Lists (headings text) fun i heading =>
      (∃ level, HeadingAt (lines text.toList) i level heading)
        ∧ (¬InBlock (lines text.toList) i ↔ Even (strays none ((lines text.toList).take i))) := by
  refine (lists_headings text).congr fun i heading => and_congr_right fun _ => ?_
  unfold IsOutside InBlock
  rw [even_countP_isFence_iff none, Option.isSome_none, Bool.not_eq_true]

/-- A line of backticks in a block of tildes is a stray: behind it the block's lines are read. -/
theorem tilde_block_told :
    ¬∀ text, Lists (headings text) fun i heading =>
      (∃ level, HeadingAt (lines text.toList) i level heading)
        ∧ ¬InBlock (lines text.toList) i := by
  intro h
  obtain ⟨found, hfound, -, hmem⟩ := h "~~~\n```\n# not a heading\n~~~\n"
  have hheadings : headings "~~~\n```\n# not a heading\n~~~\n" = ["not a heading"] := by
    decide +kernel
  obtain ⟨⟨i, heading⟩, rfl⟩ : ∃ p, found = [p] := by
    rw [hheadings] at hfound
    exact List.length_eq_one_iff.1 (by simpa using (congrArg List.length hfound).symm)
  obtain ⟨⟨level, line, hline, hheading⟩, hout⟩ := (hmem i heading).1 (List.mem_singleton_self _)
  -- all its lines are fences or stand in the block
  have hlines : ∀ i < 4, ∀ line ∈ (lines "~~~\n```\n# not a heading\n~~~\n".toList)[i]?,
      isFence line = true ∨ InBlock (lines "~~~\n```\n# not a heading\n~~~\n".toList) i := by
    decide +kernel
  have hi : i < 4 := (List.getElem?_eq_some_iff.1 hline).1
  rcases hlines i hi line hline with hfence | hin
  · rw [hheading.not_isFence] at hfence
    cases hfence
  · exact hout hin

end ContentGraph.Document
