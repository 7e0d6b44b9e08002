import ContentGraph.Proofs.Component.Passages
import ContentGraph.Proofs.Tsx.Placement
import Mathlib.Data.List.TakeWhile

/-!
# Page text

In a tree that the grammar yields, a passage is a literal, stands between tags, or is a run of
character references inside a quoted attribute. The last are told too, if they are long enough, and
make a file extractable that has no text on its page; without them, the text content is the page
text (`textContent_eq_pageText_iff`).
-/

namespace ContentGraph.Component

open Tsx

/-- A run of character references among the pieces of a string. -/
def Passage.IsReference : Passage → Prop
  | .run holder first more =>
    holder = some .string ∧ ∀ n ∈ first :: more, n.kind = .characterReference
  | .literal _ => False

/-- What the passages on the page tell. -/
def pageText (src : Source) (root : Node) : List String :=
  ((passagesOf root).filter Passage.isOnPage).filterMap (Passage.text? src)

/-! ## Passages off the page -/

theorem isTextPiece_eq_isText (n : Node) : isTextPiece n = n.kind.isText := by
  unfold isTextPiece
  cases n.kind <;> rfl

/-- A run among nodes that stand where they may is on the page, or is made of references. -/
theorem isOnPage_or_isReference_run {kind : Kind} {n : Node} {after : List Node}
    (hkinds : ∀ m ∈ n :: after, kind.MayHold m.kind) (hn : isTextPiece n) :
    (Passage.run (some kind) n (after.takeWhile isTextPiece)).isOnPage
      ∨ (Passage.run (some kind) n (after.takeWhile isTextPiece)).IsReference := by
  by_cases hpage : kind = .jsxElement
  · left
    simp [Passage.isOnPage, hpage]
  · right
    have hreference : ∀ m ∈ n :: after, isTextPiece m →
        kind = .string ∧ m.kind = .characterReference := by
      intro m hm hpiece
      rw [isTextPiece_eq_isText] at hpiece
      exact (hkinds m hm hpiece).resolve_left hpage
    refine ⟨congrArg some (hreference n List.mem_cons_self hn).1, fun m hm => ?_⟩
    rcases List.mem_cons.mp hm with rfl | hm
    · exact (hreference m List.mem_cons_self hn).2
    · have hpiece := List.mem_takeWhile_imp hm
      have hafter := (List.takeWhile_sublist isTextPiece).subset hm
      exact (hreference m (List.mem_cons_of_mem n hafter) hpiece).2

mutual

theorem isOnPage_or_isReference_passages : (n : Node) → n.Placed →
    ∀ p ∈ passages n, p.isOnPage ∨ p.IsReference
  | .mk kind field span children, .mk hkinds hplaced => by
      intro p hp
      rw [passages] at hp
      rcases List.mem_append.mp hp with hp | hp
      · split at hp
        · rw [List.mem_singleton.mp hp]
          exact .inl rfl
        · cases hp
      · exact isOnPage_or_isReference_passagesAmong kind false children hkinds hplaced p hp

theorem isOnPage_or_isReference_passagesAmong (kind : Kind) (inRun : Bool) : (ns : List Node) →
    (∀ n ∈ ns, kind.MayHold n.kind) → (∀ n ∈ ns, n.Placed) →
    ∀ p ∈ passagesAmong (some kind) inRun ns, p.isOnPage ∨ p.IsReference
  | [], _, _ => fun _ hp => nomatch hp
  | n :: after, hkinds, hplaced => by
      intro p hp
      rw [passagesAmong] at hp
      rcases List.mem_append.mp hp with hp | hp
      · rcases List.mem_append.mp hp with hp | hp
        · split at hp
          · rename_i hstart
            rw [List.mem_singleton.mp hp]
            exact isOnPage_or_isReference_run hkinds (Bool.and_eq_true_iff.mp hstart).1
          · cases hp
        · exact isOnPage_or_isReference_passages n (hplaced n List.mem_cons_self) p hp
      · exact isOnPage_or_isReference_passagesAmong kind (isTextPiece n) after
          (fun m hm => hkinds m (List.mem_cons_of_mem n hm))
          (fun m hm => hplaced m (List.mem_cons_of_mem n hm)) p hp

end

theorem passagesOf_eq_of_isPlain {root : Node} (h : root.IsPlain) :
    passagesOf root = passages root := by
  have hroot : isTextPiece root = false := (isTextPiece_eq_isText root).trans h.1
  simp [passagesOf, passagesAmong, hroot]

theorem isReference_of_not_isOnPage {root : Node} (h : root.IsPlain) {p : Passage}
    (hp : p ∈ passagesOf root) (hpage : p.isOnPage = false) : p.IsReference := by
  rw [passagesOf_eq_of_isPlain h] at hp
  refine (isOnPage_or_isReference_passages root h.2 p hp).resolve_left ?_
  rw [hpage]
  exact Bool.false_ne_true

/-! ## What is told besides the page text -/

theorem filterMap_eq_filterMap_filter_iff {α β : Type} (f : α → Option β) (q : α → Bool)
    (as : List α) :
    as.filterMap f = (as.filter q).filterMap f ↔ ∀ a ∈ as, q a = false → f a = none := by
  induction as with
  | nil => simp
  | cons a as ih =>
    rw [List.forall_mem_cons, ← ih]
    by_cases hq : q a
    · rw [List.filter_cons_of_pos hq]
      cases hf : f a <;> simp [hf, hq]
    · rw [List.filter_cons_of_neg hq]
      cases hf : f a with
      | none => simp [hf]
      | some b =>
        -- what is left out makes the list longer
        have hlength := ((List.filter_sublist (p := q) (l := as)).filterMap f).length_le
        have hne : b :: as.filterMap f ≠ (as.filter q).filterMap f := by
          intro heq
          have := congrArg List.length heq
          rw [List.length_cons] at this
          omega
        simp [hf, hq, hne]

theorem Info.isExtractable_iff (info : Info) :
    info.isExtractable ↔ info.textContent ≠ [] ∨ ∃ tag ∈ info.jsxElements, tag ∈ contentfulTags := by
  simp [Info.isExtractable]

/-- **Page text.** A passage off the page is a run of character references in a string. The text
content is the page text just when no such run is long enough to be told; one that is makes the
file extractable by itself. -/
theorem textContent_eq_pageText_iff (src : Source) {root : Node} (h : root.IsPlain) :
    (Info.ofTree src root).textContent = (passagesOf root).filterMap (Passage.text? src) ∧
    (∀ p ∈ passagesOf root, p.isOnPage = false → p.IsReference) ∧
    ((Info.ofTree src root).textContent = pageText src root ↔
      ∀ p ∈ passagesOf root, p.isOnPage = false → p.text? src = none) ∧
    ((Info.ofTree src root).isExtractable ↔ (∃ p ∈ passagesOf root, (p.text? src).isSome) ∨
      ∃ tag ∈ (Info.ofTree src root).jsxElements, tag ∈ contentfulTags) := by
  have htold := textContent_ofTree src root
  refine ⟨htold, fun p hp hpage => isReference_of_not_isOnPage h hp hpage, ?_, ?_⟩
  · rw [htold]
    exact filterMap_eq_filterMap_filter_iff _ _ _
  · rw [Info.isExtractable_iff, htold]
    simp [List.filterMap_eq_nil_iff, Option.isSome_iff_ne_none]

/-- A heading whose title is a reference too short to be told. -/
def titledHeading : Source := .ofString "<h1 title=\"&a;\">Hello there</h1>"

theorem textContent_eq_pageText_iff_titledHeading : ∃ root, parse? titledHeading = some root ∧
    root.IsPlain ∧ pageText titledHeading root = ["Hello there"] ∧
    (Info.ofTree titledHeading root).textContent = pageText titledHeading root ∧
    (Info.ofTree titledHeading root).isExtractable := by
  have hread : (parse? titledHeading).any fun root =>
      pageText titledHeading root = ["Hello there"] ∧
      (∀ p ∈ passagesOf root, p.isOnPage = false → p.text? titledHeading = none) ∧
      ∃ p ∈ passagesOf root, (p.text? titledHeading).isSome := by decide +kernel
  obtain ⟨root, hparse, hroot⟩ := (Option.any_eq_true _ _).mp hread
  obtain ⟨hpage, hshort, htold⟩ := of_decide_eq_true hroot
  have hplain := isPlain_of_parse? hparse
  obtain ⟨-, -, hiff, hextractable⟩ := textContent_eq_pageText_iff titledHeading hplain
  exact ⟨root, hparse, hplain, hpage, hiff.mpr hshort, hextractable.mpr (.inl htold)⟩

/-- A component that renders a picture, with a space for its text. -/
def pictureFile : Source := .ofString "export const A = () => <img alt=\"&nbsp;\" />;\n"

/-- A character reference in a quoted attribute is told, and makes a file extractable that has no
page text and no contentful tag. -/
theorem quoted_reference_isExtractable : ∃ root, parse? pictureFile = some root ∧
    pageText pictureFile root = [] ∧
    (Info.ofTree pictureFile root).textContent = ["&nbsp;"] ∧
    (Info.ofTree pictureFile root).isExtractable ∧
    ¬ ∃ tag ∈ (Info.ofTree pictureFile root).jsxElements, tag ∈ contentfulTags := by
  have hread : (parse? pictureFile).any fun root =>
      pageText pictureFile root = [] ∧
      (Info.ofTree pictureFile root).textContent = ["&nbsp;"] ∧
      (Info.ofTree pictureFile root).isExtractable ∧
      ¬ ∃ tag ∈ (Info.ofTree pictureFile root).jsxElements, tag ∈ contentfulTags := by
    decide +kernel
  obtain ⟨root, hparse, hroot⟩ := (Option.any_eq_true _ _).mp hread
  exact ⟨root, hparse, of_decide_eq_true hroot⟩

end ContentGraph.Component
