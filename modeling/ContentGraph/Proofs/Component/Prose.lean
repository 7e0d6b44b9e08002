import ContentGraph.Component.Prose
import ContentGraph.Proofs.Text.Shape

/-!
# What reads like prose

The forms that code has are given a second time, as shapes, and each test agrees with its shape.
Five of the shapes say how a text goes on to its end, and none of them has a text with a space; so
only paths and addresses keep a text with a space from being prose (`isProse_iff`).
-/

namespace ContentGraph.Component

open Text Shape

/-! ## Shapes of code -/

def identifierShape : Shape :=
  followedBy (oneOf (letters ++ only '_')) (many (oneOf (letters ++ digits ++ only '_')))

def pathShape : Shape := followedBy (oneOf (only '.' ++ only '/')) anything

def addressShape : Shape :=
  followedBy (word "http")
    (followedBy (either (word "s") (word "")) (followedBy (word "://") anything))

def colourShape : Shape := followedBy (word "#") (repeated (oneOf hexDigits))

def pixelSizeShape : Shape := followedBy (repeated (oneOf digits)) (word "px")

def attributeNameShape : Shape :=
  either (word "className") (either (word "style") (either (word "src")
    (either (word "href") (either (word "alt") (word "title")))))

def tokenShape : Shape := repeated (oneOf (letters ++ digits ++ only '_' ++ only '-'))

/-- The shapes that say how a text goes on to its end. -/
def wholeShapes : List Shape :=
  [identifierShape, colourShape, pixelSizeShape, attributeNameShape, tokenShape]

/-- The shapes that say how a text begins. -/
def frontShapes : List Shape := [pathShape, addressShape]

/-! ## The tests for them -/

theorem inRanges_wordCharacters :
    inRanges (letters ++ digits ++ only '_') = fun c => isLetter c || isDigit c || c == '_' := by
  funext c
  rw [inRanges_append, inRanges_append, inRanges_letters, inRanges_digits, inRanges_only]

section Tests

variable {s : List Char}

theorem isIdentifier_iff : isIdentifier s = true ↔ s ∈ identifierShape.texts := by
  cases s with
  | nil => exact iff_of_false nofun nil_notMem_oneOf_followedBy
  | cons c s =>
      rw [identifierShape, cons_mem_oneOf_followedBy, mem_many_oneOf, inRanges_append,
        inRanges_letters, inRanges_only, inRanges_wordCharacters]
      exact Bool.and_eq_true_iff

theorem mem_pathShape : s ∈ pathShape.texts ↔ s.head? = some '.' ∨ s.head? = some '/' := by
  cases s with
  | nil => exact iff_of_false nil_notMem_oneOf_followedBy fun h => h.elim nofun nofun
  | cons c s =>
      rw [pathShape, cons_mem_oneOf_followedBy, and_iff_left mem_anything, inRanges_append,
        inRanges_only, inRanges_only, Bool.or_eq_true, beq_iff_eq, beq_iff_eq, List.head?_cons,
        Option.some_inj, Option.some_inj]

theorem startsLikePath_iff : startsLikePath s = true ↔ s ∈ pathShape.texts := by
  rw [mem_pathShape]
  cases s with
  | nil => exact iff_of_false nofun fun h => h.elim nofun nofun
  | cons c s =>
      rw [startsLikePath, Bool.or_eq_true, beq_iff_eq, beq_iff_eq, List.head?_cons,
        Option.some_inj, Option.some_inj]

theorem mem_addressShape :
    s ∈ addressShape.texts ↔ "http://".toList <+: s ∨ "https://".toList <+: s := by
  rw [addressShape, mem_word_followedBy]
  constructor
  · rintro ⟨_, ⟨u, hu, v, hv, rfl⟩, rfl⟩
    obtain ⟨rest, -, rfl⟩ := mem_word_followedBy.1 hv
    rcases hu with hu | hu
    · obtain rfl := mem_word.1 hu
      exact .inr ⟨rest, rfl⟩
    · obtain rfl := mem_word.1 hu
      exact .inl ⟨rest, rfl⟩
  · have hslashes (rest : List Char) :
        "://".toList ++ rest ∈ (followedBy (word "://") anything).texts :=
      mem_word_followedBy.2 ⟨rest, mem_anything, rfl⟩
    rintro (⟨rest, rfl⟩ | ⟨rest, rfl⟩)
    · exact ⟨_, ⟨[], .inr rfl, _, hslashes rest, rfl⟩, rfl⟩
    · exact ⟨_, ⟨['s'], .inl rfl, _, hslashes rest, rfl⟩, rfl⟩

theorem startsLikeAddress_iff : startsLikeAddress s = true ↔ s ∈ addressShape.texts := by
  rw [mem_addressShape, startsLikeAddress, Bool.or_eq_true, List.isPrefixOf_iff_prefix,
    List.isPrefixOf_iff_prefix]

theorem isColour_iff : isColour s = true ↔ s ∈ colourShape.texts := by
  rw [colourShape, mem_word_followedBy]
  constructor
  · intro h
    unfold isColour at h
    split at h
    · next rest =>
      rw [Bool.and_eq_true, Bool.not_eq_true', List.isEmpty_eq_false_iff] at h
      exact ⟨rest, mem_repeated_oneOf.2 (inRanges_hexDigits ▸ h), rfl⟩
    · exact nomatch h
  · rintro ⟨rest, hrest, rfl⟩
    obtain ⟨hne, hall⟩ := mem_repeated_oneOf.1 hrest
    rw [inRanges_hexDigits] at hall
    have hsome : (!rest.isEmpty) = true := by rwa [Bool.not_eq_true', List.isEmpty_eq_false_iff]
    exact Bool.and_eq_true_iff.2 ⟨hsome, hall⟩

theorem isPixelSize_iff : isPixelSize s = true ↔ s ∈ pixelSizeShape.texts := by
  rw [isPixelSize, Bool.and_eq_true, beq_iff_eq, pixelSizeShape, mem_followedBy]
  constructor
  · rintro ⟨hhead, hrest⟩
    have hne : s.takeWhile isDigit ≠ [] := by
      cases s with
      | nil => exact nomatch hhead
      | cons c s =>
          have hc : isDigit c = true := hhead
          rw [List.takeWhile_cons_of_pos hc]
          exact List.cons_ne_nil c _
    refine ⟨s.takeWhile isDigit, ?_, ['p', 'x'], rfl, ?_⟩
    · rw [mem_repeated_oneOf, inRanges_digits]
      exact ⟨hne, List.all_takeWhile⟩
    · rw [← hrest, List.takeWhile_append_dropWhile]
  · rintro ⟨u, hu, v, hv, rfl⟩
    obtain ⟨hne, hall⟩ := mem_repeated_oneOf.1 hu
    rw [inRanges_digits, List.all_eq_true] at hall
    obtain rfl := mem_word.1 hv
    constructor
    · obtain ⟨c, u, rfl⟩ := List.exists_cons_of_ne_nil hne
      exact hall c List.mem_cons_self
    · -- the unit starts with no digit, so the test cuts where the shape does
      rw [List.dropWhile_append_of_pos hall]
      rfl

theorem isAttributeName_iff : isAttributeName s = true ↔ s ∈ attributeNameShape.texts := by
  simp only [isAttributeName, attributeNames, attributeNameShape, mem_either, mem_word, List.any_cons,
    List.any_nil, Bool.or_false, Bool.or_eq_true, beq_iff_eq]

theorem isToken_iff : isToken s = true ↔ s ∈ tokenShape.texts := by
  have hclass : inRanges (letters ++ digits ++ only '_' ++ only '-')
      = fun c => isLetter c || isDigit c || c == '_' || c == '-' := by
    funext c
    rw [inRanges_append, inRanges_wordCharacters, inRanges_only]
  rw [isToken, tokenShape, mem_repeated_oneOf, hclass, Bool.and_eq_true, Bool.not_eq_true',
    List.isEmpty_eq_false_iff]

/-- A text has a form of code exactly when it is written in one of the shapes. -/
theorem any_codeForms_iff :
    (codeForms.any fun form => form s) = true
      ↔ ∃ shape ∈ wholeShapes ++ frontShapes, s ∈ shape.texts := by
  simp only [codeForms, wholeShapes, frontShapes, List.any_cons, List.any_nil, Bool.or_false,
    Bool.or_eq_true, isIdentifier_iff, startsLikePath_iff, startsLikeAddress_iff, isColour_iff,
    isPixelSize_iff, isAttributeName_iff, isToken_iff, List.cons_append, List.nil_append,
    List.exists_mem_cons_iff, List.not_mem_nil, false_and, exists_false, or_false]
  tauto

/-! ## Prose -/

/-- Prose holds a space and is written in no shape of code. -/
theorem isProse_iff_shapes :
    isProse s = true ↔ ' ' ∈ s ∧ ∀ shape ∈ wholeShapes ++ frontShapes, s ∉ shape.texts := by
  rw [isProse, Bool.and_eq_true, Bool.not_eq_true', ← Bool.not_eq_true, any_codeForms_iff,
    List.contains_iff_mem, and_comm, not_exists]
  exact and_congr_right' (forall_congr' fun shape => not_and)

/-- A shape that says how a text goes on to its end leaves no place for a space. -/
theorem space_notMem_of_whole {shape : Shape} (hshape : shape ∈ wholeShapes)
    (hs : s ∈ shape.texts) : ' ' ∉ s := by
  have hspace : ∀ shape ∈ wholeShapes, shape.admits ' ' = false := by decide
  intro hmem
  have hadmits := admits_of_mem hs hmem
  rw [hspace shape hshape] at hadmits
  exact Bool.false_ne_true hadmits

end Tests

/-- **Prose.** A text reads like prose if it holds a space and is written in none of the seven shapes
of code. This comes to four conditions: it holds a space, does not begin with a dot or slash, and
begins with neither scheme of a web address. The five shapes of whole texts turn away no text that
meets these. -/
theorem isProse_iff (s : List Char) :
    (isProse s = true ↔ ' ' ∈ s ∧ ∀ shape ∈ wholeShapes ++ frontShapes, s ∉ shape.texts)
      ∧ (isProse s = true ↔ ' ' ∈ s ∧ s.head? ≠ some '.' ∧ s.head? ≠ some '/'
        ∧ ¬ "http://".toList <+: s ∧ ¬ "https://".toList <+: s)
      ∧ ∀ shape ∈ wholeShapes, s ∈ shape.texts → ' ' ∉ s := by
  refine ⟨isProse_iff_shapes, ?_, fun shape => space_notMem_of_whole⟩
  rw [isProse_iff_shapes]
  constructor
  · rintro ⟨hspace, hnone⟩
    have hpath : s ∉ pathShape.texts := hnone _ (List.mem_append_right _ (.head _))
    have haddress : s ∉ addressShape.texts :=
      hnone _ (List.mem_append_right _ (.tail _ (.head _)))
    rw [mem_pathShape, not_or] at hpath
    rw [mem_addressShape, not_or] at haddress
    exact ⟨hspace, hpath.1, hpath.2, haddress.1, haddress.2⟩
  · rintro ⟨hspace, hdot, hslash, hhttp, hhttps⟩
    refine ⟨hspace, fun shape hshape hs => ?_⟩
    rcases List.mem_append.1 hshape with hwhole | hfront
    · -- the space is what tells it from every shape of whole texts
      exact space_notMem_of_whole hwhole hs hspace
    · rcases List.mem_pair.1 hfront with rfl | rfl
      · exact (mem_pathShape.1 hs).elim hdot hslash
      · exact (mem_addressShape.1 hs).elim hhttp hhttps

/-- A space behind a colour makes prose of it. -/
example : isProse "#ffaa00\n ".toList = true := by decide

end ContentGraph.Component
