import ContentGraph.Text.Digit
import Mathlib.Computability.Language
import Mathlib.Data.Char
import Mathlib.Tactic.SplitIfs

/-!
# Shapes of texts

Regular expressions over characters, each with the language that it stands for. Main statement:
the texts of a shape hold only characters that one of its classes or words admits
(`Shape.admits_of_mem`).
-/

namespace ContentGraph.Text

open Computability

/-! ## Classes of characters -/

/-- A class of characters: ranges by their first and last characters. -/
abbrev Ranges := List (Char × Char)

/-- The class of one character. -/
def only (c : Char) : Ranges := [(c, c)]

/-- Holds for the characters of a class. -/
def inRanges (ranges : Ranges) (c : Char) : Bool :=
  ranges.any fun range => range.1 ≤ c && c ≤ range.2

theorem inRanges_append (ranges more : Ranges) (c : Char) :
    inRanges (ranges ++ more) c = (inRanges ranges c || inRanges more c) :=
  List.any_append

theorem inRanges_only (c d : Char) : inRanges (only d) c = (c == d) := by
  rw [inRanges, only, List.any_cons, List.any_nil, Bool.or_false, Bool.eq_iff_iff, Bool.and_eq_true,
    decide_eq_true_iff, decide_eq_true_iff, beq_iff_eq, le_antisymm_iff, and_comm]

def letters : Ranges := [('A', 'Z'), ('a', 'z')]

def digits : Ranges := [('0', '9')]

def hexDigits : Ranges := digits ++ [('a', 'f'), ('A', 'F')]

theorem inRanges_letters : inRanges letters = isLetter := by
  funext c
  rw [inRanges, letters, List.any_cons, List.any_cons, List.any_nil, Bool.or_false, Bool.or_comm,
    isLetter]

theorem inRanges_digits : inRanges digits = isDigit := by
  funext c
  exact Bool.or_false _

theorem inRanges_hexDigits : inRanges hexDigits = isHexDigit := by
  funext c
  unfold isHexDigit hexDigit?
  split_ifs <;> simp_all [inRanges, hexDigits, digits]

/-! ## Shapes -/

/-- A way in which texts may be written. -/
inductive Shape
  /-- One character of a class. -/
  | oneOf (ranges : Ranges)
  | word (t : String)
  | followedBy (a b : Shape)
  | either (a b : Shape)
  /-- The same any number of times, or not at all. -/
  | many (a : Shape)
  | anything

namespace Shape

/-- The same at least once. -/
def repeated (a : Shape) : Shape := followedBy a (many a)

/-- The texts that are written in a way. -/
def texts : Shape → Language Char
  | oneOf ranges => {s | ∃ c, inRanges ranges c = true ∧ s = [c]}
  | word t => {t.toList}
  | followedBy a b => a.texts * b.texts
  | either a b => a.texts + b.texts
  | many a => a.texts∗
  | anything => ⊤

variable {ranges : Ranges} {a b : Shape} {s : List Char}

theorem mem_word {t : String} : s ∈ (word t).texts ↔ t.toList = s := eq_comm

theorem mem_either : s ∈ (either a b).texts ↔ s ∈ a.texts ∨ s ∈ b.texts := Iff.rfl

theorem mem_anything : s ∈ anything.texts := trivial

theorem mem_followedBy : s ∈ (followedBy a b).texts ↔ ∃ u ∈ a.texts, ∃ v ∈ b.texts, u ++ v = s :=
  Language.mem_mul

theorem mem_word_followedBy {t : String} :
    s ∈ (followedBy (word t) b).texts ↔ ∃ rest ∈ b.texts, t.toList ++ rest = s := by
  rw [mem_followedBy]
  constructor
  · rintro ⟨u, rfl, rest, hrest, rfl⟩
    exact ⟨rest, hrest, rfl⟩
  · rintro ⟨rest, hrest, rfl⟩
    exact ⟨t.toList, rfl, rest, hrest, rfl⟩

theorem nil_notMem_oneOf_followedBy : [] ∉ (followedBy (oneOf ranges) b).texts := by
  rintro ⟨_, ⟨c, _, rfl⟩, v, _, heq⟩
  exact List.cons_ne_nil c v heq

theorem cons_mem_oneOf_followedBy {c : Char} :
    c :: s ∈ (followedBy (oneOf ranges) b).texts ↔ inRanges ranges c = true ∧ s ∈ b.texts := by
  rw [mem_followedBy]
  constructor
  · rintro ⟨_, ⟨d, hd, rfl⟩, v, hv, heq⟩
    obtain ⟨rfl, rfl⟩ := List.cons.inj heq
    exact ⟨hd, hv⟩
  · rintro ⟨hc, hs⟩
    exact ⟨[c], ⟨c, hc, rfl⟩, s, hs, rfl⟩

theorem mem_many_oneOf : s ∈ (many (oneOf ranges)).texts ↔ s.all (inRanges ranges) = true := by
  rw [List.all_eq_true]
  constructor
  · intro h
    obtain ⟨pieces, rfl, hpieces⟩ := Language.mem_kstar.1 h
    intro c hc
    obtain ⟨piece, hpiece, hc⟩ := List.mem_flatten.1 hc
    obtain ⟨d, hd, rfl⟩ := hpieces piece hpiece
    rwa [List.mem_singleton.1 hc]
  · intro h
    refine Language.mem_kstar.2 ⟨s.map fun c => [c], ?_, ?_⟩
    · rw [← List.flatMap_def, List.flatMap_singleton']
    · intro piece hpiece
      obtain ⟨c, hc, rfl⟩ := List.mem_map.1 hpiece
      exact ⟨c, h c hc, rfl⟩

theorem mem_repeated_oneOf :
    s ∈ (repeated (oneOf ranges)).texts ↔ s ≠ [] ∧ s.all (inRanges ranges) = true := by
  cases s with
  | nil => exact iff_of_false nil_notMem_oneOf_followedBy fun h => h.1 rfl
  | cons c s =>
      rw [repeated, cons_mem_oneOf_followedBy, mem_many_oneOf, List.all_cons, Bool.and_eq_true,
        and_iff_right (List.cons_ne_nil c s)]

/-! ## Characters of texts -/

/-- Holds for a character that a class or word of a shape allows. -/
def admits (c : Char) : Shape → Bool
  | oneOf ranges => inRanges ranges c
  | word t => t.toList.contains c
  | followedBy a b => a.admits c || b.admits c
  | either a b => a.admits c || b.admits c
  | many a => a.admits c
  | anything => true

/-- A text of a shape holds only characters that the shape admits. -/
theorem admits_of_mem {shape : Shape} {c : Char} (hs : s ∈ shape.texts) (hc : c ∈ s) :
    shape.admits c = true := by
  induction shape generalizing s with
  | oneOf ranges =>
      obtain ⟨d, hd, rfl⟩ := hs
      rwa [List.mem_singleton.1 hc]
  | word t =>
      obtain rfl := mem_word.1 hs
      exact List.contains_iff_mem.2 hc
  | followedBy a b iha ihb =>
      obtain ⟨u, hu, v, hv, rfl⟩ := mem_followedBy.1 hs
      rcases List.mem_append.1 hc with hc | hc
      · exact Bool.or_eq_true_iff.2 (.inl (iha hu hc))
      · exact Bool.or_eq_true_iff.2 (.inr (ihb hv hc))
  | either a b iha ihb =>
      rcases mem_either.1 hs with hs | hs
      · exact Bool.or_eq_true_iff.2 (.inl (iha hs hc))
      · exact Bool.or_eq_true_iff.2 (.inr (ihb hs hc))
  | many a iha =>
      obtain ⟨pieces, rfl, hpieces⟩ := Language.mem_kstar.1 hs
      obtain ⟨piece, hpiece, hc⟩ := List.mem_flatten.1 hc
      exact iha (hpieces piece hpiece) hc
  | anything => rfl

end Shape

end ContentGraph.Text
