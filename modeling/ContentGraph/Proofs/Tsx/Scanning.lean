import ContentGraph.Tsx.Piece

/-!
# Scans

What a scan from a position finds depends on the characters from there on alone
(`Source.rest`). A repetition ends where a sequence of its steps comes to a position at which there
is no further one (`Piece.Steps.many_eq`).
-/

namespace ContentGraph.Tsx

namespace Source

variable {src : Source} {i : Nat}

/-- The characters from a position on. -/
def rest (src : Source) (i : Nat) : List Char := src.letters.toList.drop i

theorem rest_add (k : Nat) : src.rest (i + k) = (src.rest i).drop k := by
  rw [rest, rest, List.drop_drop]

theorem at?_add (k : Nat) : src.at? (i + k) = (src.rest i)[k]? := by
  rw [rest, List.getElem?_drop, at?, Array.getElem?_toList]

theorem at?_eq : src.at? i = (src.rest i).head? := by
  rw [List.head?_eq_getElem?, ← at?_add, Nat.add_zero]

theorem isAt_eq (c : Char) : src.isAt i c = ((src.rest i).head? == some c) := by
  rw [isAt, at?_eq]

theorem lt_size_of_rest {c : Char} {more : List Char} (h : src.rest i = c :: more) :
    i < src.letters.size := by
  have hlength := congrArg List.length h
  rw [rest, List.length_drop, List.length_cons, Array.length_toList] at hlength
  omega

/-- Behind what stands at a position is what follows it. -/
theorem rest_of_append {text more : List Char} (h : src.rest i = text ++ more) :
    src.rest (i + text.length) = more := by
  rw [rest_add, h, List.drop_left]

/-- What stands at a position is the stretch of source that it covers. -/
theorem slice_of_append {text more : List Char} (h : src.rest i = text ++ more) :
    src.slice i (i + text.length) = text := by
  rw [slice, Array.toList_extract, List.extract_eq_take_drop, Nat.add_sub_cancel_left]
  show (src.rest i).take text.length = text
  rw [h, List.take_left]

theorem startsWith_iff (text : List Char) : src.startsWith i text ↔ text <+: src.rest i := by
  induction text generalizing i with
  | nil => simp [startsWith]
  | cons c text ih =>
      rw [startsWith, Bool.and_eq_true, ih, isAt_eq, rest_add, beq_iff_eq]
      cases src.rest i with
      | nil => simp
      | cons d more => simp [List.cons_prefix_cons, eq_comm]

theorem rest_of_lt (h : i < src.letters.size) : src.rest i = src.letters[i] :: src.rest (i + 1) := by
  have hlength : i < src.letters.toList.length := by rwa [Array.length_toList]
  rw [rest, List.drop_eq_getElem_cons hlength, Array.getElem_toList, rest]

theorem skipWhile_eq (p : Char → Bool) :
    src.skipWhile p i = i + ((src.rest i).takeWhile p).length := by
  fun_induction skipWhile src p i with
  | case1 i hi hp ih =>
      rw [ih, rest_of_lt hi, List.takeWhile_cons, if_pos hp, List.length_cons]
      omega
  | case2 i hi hp => rw [rest_of_lt hi, List.takeWhile_cons, if_neg hp, List.length_nil, Nat.add_zero]
  | case3 i hi =>
      rw [rest, List.drop_eq_nil_of_le (by simpa using hi)]
      rfl

/-- A scan over what has a property stops behind it. -/
theorem skipWhile_of_append {p : Char → Bool} {text more : List Char} {c : Char}
    (h : src.rest i = text ++ c :: more) (htext : ∀ d ∈ text, p d) (hc : ¬p c) :
    src.skipWhile p i = i + text.length := by
  rw [skipWhile_eq, h, List.takeWhile_append_of_pos htext, List.takeWhile_cons, if_neg hc,
    List.append_nil]

theorem skipWhile_of_not {p : Char → Bool} {more : List Char} {c : Char}
    (h : src.rest i = c :: more) (hc : ¬p c) : src.skipWhile p i = i := by
  rw [skipWhile_eq, h, List.takeWhile_cons, if_neg hc, List.length_nil, Nat.add_zero]

end Source

/-! ## Space and comments -/

section Trivia

variable {src : Source} {i : Nat} {c : Char} {more : List Char}

theorem skipSpace_of_not (h : src.rest i = c :: more) (hc : ¬isSpace c) : skipSpace src i = i :=
  Source.skipWhile_of_not h hc

theorem comment?_of_not (h : src.rest i = c :: more) (hc : c ≠ '/') : comment? src i = none := by
  have hnot (text : List Char) : ¬src.startsWith i ('/' :: text) := by
    rw [Source.startsWith_iff, h, List.cons_prefix_cons]
    exact fun hprefix => hc hprefix.1.symm
  unfold comment?
  rw [if_neg (hnot _), if_neg (hnot _)]

theorem skipTrivia_of_not (h : src.rest i = c :: more) (hspace : ¬isSpace c) (hslash : c ≠ '/') :
    skipTrivia src i = i := by
  unfold skipTrivia skipTriviaFrom
  dsimp only
  rw [skipSpace_of_not h hspace, comment?_of_not h hslash]

end Trivia

namespace Piece

/-! ## Repetitions -/

section Repetition

variable {p : Piece} {src : Source}

/-- Steps of a repetition: each reads on from where the one before it stopped. -/
inductive Steps (p : Piece) (src : Source) : Nat → List Node → Nat → Prop
  | stop (i : Nat) : Steps p src i [] i
  | more {i j k : Nat} {ns ms : List Node} : p src i = some (ns, j) → i < j → Steps p src j ms k →
      Steps p src i (ns ++ ms) k

namespace Steps

variable {i j k : Nat} {ns ms : List Node}

theorem le (h : Steps p src i ns k) : i ≤ k := by
  induction h with
  | stop i => exact Nat.le_refl i
  | more _ hlt _ ih => exact Nat.le_trans (Nat.le_of_lt hlt) ih

theorem one (h : p src i = some (ns, j)) (hlt : i < j) : Steps p src i ns j := by
  have hsteps := Steps.more h hlt (.stop j)
  rwa [List.append_nil] at hsteps

theorem trans (h : Steps p src i ns j) (h' : Steps p src j ms k) : Steps p src i (ns ++ ms) k := by
  induction h with
  | stop i => exact h'
  | more hp hlt _ ih =>
      rw [List.append_assoc]
      exact .more hp hlt (ih h')

/-- A repetition takes all steps, as each of them reads at least one character. -/
theorem repeatFrom_eq (h : Steps p src i ns k) (hstop : p src k = none) (done : List Node)
    {fuel : Nat} (hfuel : k - i < fuel) : repeatFrom p src fuel done i = (done ++ ns, k) := by
  induction h generalizing done fuel with
  | stop i =>
      obtain ⟨fuel, rfl⟩ := Nat.exists_eq_succ_of_ne_zero (Nat.ne_zero_of_lt hfuel)
      rw [repeatFrom, hstop, List.append_nil]
  | more hp hlt hmore ih =>
      obtain ⟨fuel, rfl⟩ := Nat.exists_eq_succ_of_ne_zero (Nat.ne_zero_of_lt hfuel)
      have hle := hmore.le
      rw [repeatFrom, hp]
      dsimp only
      rw [if_pos hlt, ih hstop _ (by omega), List.append_assoc]

theorem many_eq (h : Steps p src i ns k) (hstop : p src k = none) (hk : k ≤ src.size) :
    many p src i = some (ns, k) := by
  rw [many, h.repeatFrom_eq hstop [] (by omega), List.nil_append]

end Steps

end Repetition

/-! ## Punctuation -/

/-- The node of a mark of one letter. -/
def markNode (c : Char) (i : Nat) : Node := .mk (.token (String.singleton c)) none ⟨i, i + 1⟩ []

/-- A mark of one letter is read where this letter stands. -/
theorem immediateMark_singleton {src : Source} {i : Nat} (c : Char) {more : List Char}
    (h : src.rest i = c :: more) :
    immediateMark (String.singleton c) src i = some ([markNode c i], i + 1) := by
  have htext : (String.singleton c).toList = [c] := String.toList_singleton c
  have hstart : src.startsWith i (String.singleton c).toList := by
    rw [htext, Source.startsWith_iff, h]
    exact ⟨more, rfl⟩
  unfold immediateMark immediate
  dsimp only
  rw [if_pos hstart, String.length_singleton]
  rfl

theorem immediateMark_singleton_of_ne {src : Source} {i : Nat} (c : Char) {d : Char}
    {more : List Char} (h : src.rest i = d :: more) (hne : c ≠ d) :
    immediateMark (String.singleton c) src i = none := by
  have htext : (String.singleton c).toList = [c] := String.toList_singleton c
  have hstart : ¬src.startsWith i (String.singleton c).toList := by
    rw [htext, Source.startsWith_iff, h, List.cons_prefix_cons]
    exact fun hprefix => hne hprefix.1
  unfold immediateMark immediate
  dsimp only
  rw [if_neg hstart]
  rfl

end Piece

end ContentGraph.Tsx
