import Mathlib.Data.List.Basic
import ContentGraph.Proofs.Component.Findings

/-!
# Runs of text pieces

Whether a text is told at a text piece is found from the sibling before it and from those behind it.
Main statement: so the texts that are told at the pieces among some siblings are those of the maximal
runs of pieces that stand side by side, one for each run, and every piece lies in one run
(`texts_of_siblings`).
-/

namespace ContentGraph.Component

open Tsx

/-- Holds at the places of text pieces among siblings. -/
def pieceAt (ns : List Node) (k : Nat) : Bool := ns[k]?.any isTextPiece

/-- The siblings from the place `i` up to the place `j` are text pieces, and neither the one before
them nor the one behind them is. -/
structure IsMaximalRun (ns : List Node) (i j : Nat) : Prop where
  lt : i < j
  inside : ∀ k, i ≤ k → k < j → pieceAt ns k
  before : ∀ k, k + 1 = i → ¬pieceAt ns k
  behind : ¬pieceAt ns j

/-- Holds at places where a run starts. -/
def startsRun (ns : List Node) (i : Nat) : Bool :=
  pieceAt ns i && !(ns.take i).getLast?.any isTextPiece

/-- The first place from `i` on that holds no text piece. -/
def runEnd (ns : List Node) (i : Nat) : Nat := i + (ns.drop i).findIdx fun n => !isTextPiece n

/-- The runs of text pieces among siblings, from left to right; each is the places from the first
of its pieces up to that behind its last. -/
def runsOf (ns : List Node) : List (Nat × Nat) :=
  ((List.range ns.length).filter (startsRun ns)).map fun i => (i, runEnd ns i)

/-- The source from the start of a run's first piece to the end of its last. -/
def sourceOfRun? (src : Source) (ns : List Node) (run : Nat × Nat) : Option (List Char) := do
  let first ← ns[run.1]?
  let last ← ns[run.2 - 1]?
  some (src.slice first.span.start last.span.stop)

/-- The text that is told of a run, if it is long enough without the white space at its ends. -/
def toldOfRun? (src : Source) (ns : List Node) (run : Nat × Nat) : Option String :=
  (sourceOfRun? src ns run).bind (told? minMarkupText fun _ => true)

/-! ## Places -/

section Places

variable {ns : List Node} {i j k : Nat}

theorem pieceAt_of_lt (h : k < ns.length) : pieceAt ns k = isTextPiece ns[k] := by
  rw [pieceAt, List.getElem?_eq_getElem h, Option.any_some]

theorem lt_of_pieceAt (h : pieceAt ns k) : k < ns.length := by
  by_contra hk
  rw [pieceAt, List.getElem?_eq_none (Nat.not_lt.1 hk)] at h
  cases h

theorem startsRun_iff : startsRun ns i ↔ pieceAt ns i ∧ ∀ k, k + 1 = i → ¬pieceAt ns k := by
  rw [startsRun, Bool.and_eq_true, Bool.not_eq_true']
  refine and_congr_right fun hi => ?_
  have hlt := lt_of_pieceAt hi
  cases i with
  | zero => simp
  | succ k =>
      have hlast : (ns.take (k + 1)).getLast? = ns[k]? := by
        rw [List.getLast?_take, if_neg (Nat.succ_ne_zero k), Nat.add_sub_cancel,
          List.getElem?_eq_getElem (Nat.lt_of_succ_lt hlt), Option.some_or]
      rw [hlast, ← pieceAt]
      simp

theorem runEnd_le (h : i ≤ ns.length) : runEnd ns i ≤ ns.length := by
  have hfound : (ns.drop i).findIdx (fun n => !isTextPiece n) ≤ (ns.drop i).length :=
    List.findIdx_le_length
  rw [List.length_drop] at hfound
  unfold runEnd
  omega

/-- The places up to the end of a run hold text pieces. -/
theorem pieceAt_of_lt_runEnd (hik : i ≤ k) (hk : k < runEnd ns i) : pieceAt ns k := by
  obtain ⟨m, rfl⟩ := Nat.exists_eq_add_of_le hik
  have hm : m < (ns.drop i).findIdx fun n => !isTextPiece n := by
    unfold runEnd at hk
    omega
  have hlt := Nat.lt_of_lt_of_le hm List.findIdx_le_length
  have hpiece := List.not_of_lt_findIdx hm
  rw [List.length_drop] at hlt
  rw [pieceAt_of_lt (by omega)]
  simpa using hpiece

theorem not_pieceAt_runEnd : ¬pieceAt ns (runEnd ns i) := by
  intro hpiece
  have hlt := lt_of_pieceAt hpiece
  have hfound : (ns.drop i).findIdx (fun n => !isTextPiece n) < (ns.drop i).length := by
    rw [List.length_drop]
    unfold runEnd at hlt
    omega
  have hnot := List.findIdx_getElem (w := hfound)
  rw [pieceAt_of_lt hlt] at hpiece
  simp only [List.getElem_drop, Bool.not_eq_true'] at hnot
  exact Bool.false_ne_true (hnot.symm.trans hpiece)

/-- A run that starts at a place ends where pieces end. -/
theorem IsMaximalRun.eq_runEnd (h : IsMaximalRun ns i j) : j = runEnd ns i := by
  rcases Nat.lt_trichotomy j (runEnd ns i) with hlt | heq | hlt
  · exact absurd (pieceAt_of_lt_runEnd (Nat.le_of_lt h.lt) hlt) h.behind
  · exact heq
  · exact absurd (h.inside _ (Nat.le_add_right i _) hlt) not_pieceAt_runEnd

theorem isMaximalRun_iff : IsMaximalRun ns i j ↔ startsRun ns i ∧ j = runEnd ns i := by
  constructor
  · intro h
    exact ⟨startsRun_iff.2 ⟨h.inside i (Nat.le_refl i) h.lt, h.before⟩, h.eq_runEnd⟩
  · rintro ⟨hstart, rfl⟩
    obtain ⟨hi, hbefore⟩ := startsRun_iff.1 hstart
    refine ⟨Nat.lt_of_le_of_ne (Nat.le_add_right i _) fun h => ?_,
      fun k hik hk => pieceAt_of_lt_runEnd hik hk, hbefore, not_pieceAt_runEnd⟩
    rw [h] at hi
    exact not_pieceAt_runEnd hi

/-! ## Runs -/

/-- The runs that are listed are the maximal ones. -/
theorem mem_runsOf : (i, j) ∈ runsOf ns ↔ IsMaximalRun ns i j := by
  rw [isMaximalRun_iff, runsOf, List.mem_map]
  constructor
  · rintro ⟨k, hk, heq⟩
    obtain ⟨rfl, rfl⟩ := Prod.mk.inj heq
    exact ⟨(List.mem_filter.1 hk).2, rfl⟩
  · rintro ⟨hstart, rfl⟩
    have hlt := lt_of_pieceAt (startsRun_iff.1 hstart).1
    exact ⟨i, List.mem_filter.2 ⟨List.mem_range.2 hlt, hstart⟩, rfl⟩

/-- A run ends before another one that starts behind its start. -/
theorem IsMaximalRun.lt_of_lt {i' j' : Nat} (h : IsMaximalRun ns i j) (h' : IsMaximalRun ns i' j')
    (hlt : i < i') : j < i' := by
  by_contra hle
  -- the place before the second run would lie inside the first
  exact h'.before (i' - 1) (by omega) (h.inside _ (by omega) (by omega))

/-- Runs are listed from left to right, and something stands between any two. -/
theorem runsOf_pairwise : (runsOf ns).Pairwise fun r s => r.2 < s.1 := by
  have hstarts : (runsOf ns).Pairwise fun r s => r.1 < s.1 := by
    rw [runsOf, List.pairwise_map]
    exact List.pairwise_lt_range.filter _
  exact hstarts.imp_of_mem fun hr hs hlt => (mem_runsOf.1 hr).lt_of_lt (mem_runsOf.1 hs) hlt

/-- Every piece lies in some run. -/
theorem exists_isMaximalRun (h : pieceAt ns k) : ∃ i j, IsMaximalRun ns i j ∧ i ≤ k ∧ k < j := by
  induction k with
  | zero =>
      have hstart : startsRun ns 0 := startsRun_iff.2 ⟨h, fun k hk => by omega⟩
      have hrun := isMaximalRun_iff.2 ⟨hstart, rfl⟩
      exact ⟨0, _, hrun, Nat.le_refl 0, hrun.lt⟩
  | succ k ih =>
      by_cases hk : pieceAt ns k
      · obtain ⟨i, j, hrun, hik, hkj⟩ := ih hk
        -- the piece before it lies in a run, which does not end here
        have hne : j ≠ k + 1 := by
          rintro rfl
          exact hrun.behind h
        exact ⟨i, j, hrun, by omega, by omega⟩
      · have hstart : startsRun ns (k + 1) := startsRun_iff.2 ⟨h, fun m hm => by
          obtain rfl : m = k := by omega
          exact hk⟩
        have hrun := isMaximalRun_iff.2 ⟨hstart, rfl⟩
        exact ⟨k + 1, _, hrun, Nat.le_refl _, hrun.lt⟩

/-- Every piece lies in one of the runs that are listed, and in no other. -/
theorem existsUnique_run (h : pieceAt ns k) : ∃! run, run ∈ runsOf ns ∧ run.1 ≤ k ∧ k < run.2 := by
  obtain ⟨i, j, hrun, hik, hkj⟩ := exists_isMaximalRun h
  refine ⟨(i, j), ⟨mem_runsOf.2 hrun, hik, hkj⟩, ?_⟩
  rintro ⟨i', j'⟩ ⟨hmem, hik', hkj'⟩
  have hrun' := mem_runsOf.1 hmem
  dsimp only at hik' hkj'
  obtain rfl : i = i' := by
    rcases Nat.lt_trichotomy i i' with hlt | heq | hlt
    · have := hrun.lt_of_lt hrun' hlt
      omega
    · exact heq
    · have := hrun'.lt_of_lt hrun hlt
      omega
  rw [hrun.eq_runEnd, hrun'.eq_runEnd]

end Places

/-! ## Texts -/

section Texts

variable {src : Source} {ns : List Node} {k : Nat}

/-- The last of the pieces that follow a piece directly, or else this piece, is the last of its
run. -/
theorem getLast?_takeWhile (hk : k < ns.length) (hpiece : isTextPiece ns[k]) :
    ns[runEnd ns k - 1]? = some (((ns.drop (k + 1)).takeWhile isTextPiece).getLast?.getD ns[k]) := by
  have hrun : (ns.drop k).takeWhile isTextPiece
      = ns[k] :: (ns.drop (k + 1)).takeWhile isTextPiece := by
    rw [List.drop_eq_getElem_cons hk, List.takeWhile_cons, if_pos hpiece]
  rw [← List.getLast?_cons, ← hrun, List.takeWhile_eq_take_findIdx_not, List.getLast?_take]
  have hpos : k < runEnd ns k := by
    refine Nat.lt_of_le_of_ne (Nat.le_add_right k _) fun h => ?_
    have hnot : ¬pieceAt ns (runEnd ns k) := not_pieceAt_runEnd
    rw [← h, pieceAt_of_lt hk] at hnot
    exact hnot hpiece
  have hle := runEnd_le (Nat.le_of_lt hk)
  unfold runEnd at hpos hle ⊢
  rw [if_neg (by omega), List.getElem?_drop, ← Nat.add_sub_assoc (by omega)]
  rw [List.getElem?_eq_getElem (by omega), Option.some_or]

/-- At a text piece a text is told if a run starts there: the text of this run. -/
theorem textAt?_of_piece (parent : Node) (path : List Frame) (hk : k < ns.length)
    (hpiece : isTextPiece ns[k]) :
    textAt? src ⟨ns[k], ⟨parent, (ns.take k).reverse ++ [], ns.drop (k + 1)⟩ :: path⟩
      = if startsRun ns k then toldOfRun? src ns (k, runEnd ns k) else none := by
  have hsource : sourceOfRun? src ns (k, runEnd ns k) = some (src.slice ns[k].span.start
      (((ns.drop (k + 1)).takeWhile isTextPiece).getLast?.getD ns[k]).span.stop) := by
    unfold sourceOfRun?
    dsimp only
    rw [getLast?_takeWhile hk hpiece, List.getElem?_eq_getElem hk]
    rfl
  unfold textAt? textRun? startsRun toldOfRun?
  rw [if_pos hpiece, hsource, pieceAt_of_lt hk, hpiece, List.append_nil]
  simp only [Cursor.previousSibling?, Cursor.laterSiblings, List.head?_cons, Option.bind_some,
    List.head?_reverse, Bool.true_and]
  cases (ns.take k).getLast?.any isTextPiece <;> rfl

theorem filterMap_mapIdx_eq {α β γ : Type} {f : Nat → α → β} {g : β → Option γ} {h : Nat → Option γ}
    {xs : List α} (heq : ∀ k, (hk : k < xs.length) → g (f k xs[k]) = h k) :
    (xs.mapIdx f).filterMap g = (List.range xs.length).filterMap h := by
  have hmap : (xs.mapIdx f).map g = (List.range xs.length).map h := by
    apply List.ext_getElem
    · simp
    · intro k hk _
      simpa using heq k (by simpa using hk)
  have hboth := congrArg (List.filterMap id) hmap
  rwa [List.filterMap_map, List.filterMap_map] at hboth

/-- The texts that are told at the text pieces among the children of a node are those of the runs. -/
theorem filterMap_textAt?_children (c : Cursor) :
    (c.children.filter fun d => isTextPiece d.node).filterMap (textAt? src)
      = (runsOf c.node.children).filterMap (toldOfRun? src c.node.children) := by
  rw [List.filterMap_filter, runsOf, List.filterMap_map, List.filterMap_filter, Cursor.children,
    Cursor.siblings_eq_mapIdx]
  apply filterMap_mapIdx_eq
  intro k hk
  dsimp only [Function.comp]
  by_cases hpiece : isTextPiece c.node.children[k]
  · rw [if_pos hpiece, textAt?_of_piece c.node c.path hk hpiece]
  · have hstart : ¬startsRun c.node.children k := by
      intro hstart
      have hpieceAt := (startsRun_iff.1 hstart).1
      rw [pieceAt_of_lt hk] at hpieceAt
      exact hpiece hpieceAt
    rw [if_neg hpiece, if_neg hstart]

/-- **Text runs.** The texts that are told at the text pieces among the children of a node are, in
their order, those of the maximal runs of such pieces that are long enough. Runs do not meet, and
every piece lies in one of them. -/
theorem texts_of_siblings (src : Source) (root : Node) {c : Cursor} (hc : c ∈ Cursor.cursors root) :
    (Info.ofTree src root).textContent = (Cursor.cursors root).filterMap (textAt? src)
      ∧ c.children.Sublist (Cursor.cursors root) ∧ c.children.map (·.node) = c.node.children
      ∧ (c.children.filter fun d => isTextPiece d.node).filterMap (textAt? src)
        = (runsOf c.node.children).filterMap (toldOfRun? src c.node.children)
      ∧ (∀ i j, (i, j) ∈ runsOf c.node.children ↔ IsMaximalRun c.node.children i j)
      ∧ (runsOf c.node.children).Pairwise (fun r s => r.2 < s.1)
      ∧ ∀ k, pieceAt c.node.children k →
        ∃! run, run ∈ runsOf c.node.children ∧ run.1 ≤ k ∧ k < run.2 := by
  exact ⟨Info.textContent_eq src root, Cursor.children_sublist_cursors hc, c.map_node_children,
    filterMap_textAt?_children c, fun i j => mem_runsOf, runsOf_pairwise,
    fun k => existsUnique_run⟩

end Texts

/-- A component whose paragraph has three runs of text pieces; the second one is short. -/
def termsText : String :=
  "const A = () => <p>Terms &amp; Conditions<b>1</b>Hi\x7b2\x7d&copy; 2024</p>;\n"

/-- A text is told of the first and of the last run. -/
theorem texts_of_siblings_termsText :
    ∃ root, parse? (.ofString termsText) = some root ∧ ∃ c ∈ Cursor.cursors root,
      runsOf c.node.children = [(1, 4), (5, 6), (7, 9)]
      ∧ (c.children.filter fun d => isTextPiece d.node).filterMap (textAt? (.ofString termsText))
        = ["Terms &amp; Conditions", "&copy; 2024"] := by
  have hread : (parse? (.ofString termsText)).any fun root => (Cursor.cursors root).any fun c =>
      runsOf c.node.children = [(1, 4), (5, 6), (7, 9)] ∧
      (runsOf c.node.children).filterMap (toldOfRun? (.ofString termsText) c.node.children)
        = ["Terms &amp; Conditions", "&copy; 2024"] := by decide +kernel
  obtain ⟨root, hparse, hroot⟩ := (Option.any_eq_true _ _).mp hread
  obtain ⟨c, hc, hcursor⟩ := List.any_eq_true.1 hroot
  obtain ⟨hruns, htold⟩ := of_decide_eq_true hcursor
  refine ⟨root, hparse, c, hc, hruns, ?_⟩
  rw [(texts_of_siblings (.ofString termsText) root hc).2.2.2.1, htold]

end ContentGraph.Component
