import ContentGraph.FileTree.Basic
import ContentGraph.Proofs.Path.Pieces

/-!
# Places in a file tree

A plain tree has only files and directories, and the names in a directory are different. Its files
are at the places that the names on the way give (`isFileAt_cons_iff`), and they stay there when
directories list their entries in another order (`Reordered.isFileAt_iff`).
-/

namespace ContentGraph.FileNode

variable {es : List (String × FileNode)} {name : String} {names : List String}

/-- Holds for trees without links; each directory has different names. -/
inductive Plain : FileNode → Prop
  | file (bytes : List UInt8) (modified : Millis) : Plain (.file bytes modified)
  | directory {es : List (String × FileNode)} (names : ∀ e ∈ es, Path.IsName e.1.toList)
      (nodup : (es.map Prod.fst).Nodup) (nodes : ∀ e ∈ es, Plain e.2) : Plain (.directory es)

/-- Holds for places of files. -/
def IsFileAt (node : FileNode) (names : List String) : Prop :=
  ∃ bytes modified, node.at? names = some (.file bytes modified)

/-! ## Names on the way -/

theorem mem_of_find?_eq_some {node : FileNode} (h : find? name es = some node) :
    (name, node) ∈ es := by
  induction es with
  | nil => exact nomatch h
  | cons e es ih =>
      unfold find? at h
      split at h
      · next heq =>
        obtain rfl := Option.some.inj h
        exact heq ▸ List.mem_cons_self
      · exact List.mem_cons_of_mem _ (ih h)

theorem find?_eq_some_iff (h : (es.map Prod.fst).Nodup) {node : FileNode} :
    find? name es = some node ↔ (name, node) ∈ es := by
  refine ⟨mem_of_find?_eq_some, fun hmem => ?_⟩
  induction es with
  | nil => cases hmem
  | cons e es ih =>
      obtain ⟨hfirst, hrest⟩ := List.nodup_cons.1 h
      unfold find?
      rcases List.mem_cons.1 hmem with rfl | hmem
      · exact if_pos rfl
      · have hne : e.1 ≠ name := fun heq => hfirst (heq ▸ List.mem_map_of_mem hmem)
        rw [if_neg hne]
        exact ih hrest hmem

theorem isFileAt_file_iff {bytes : List UInt8} {modified : Millis} :
    IsFileAt (.file bytes modified) names ↔ names = [] := by
  cases names with
  | nil => exact iff_of_true ⟨bytes, modified, rfl⟩ rfl
  | cons name rest => exact iff_of_false (fun ⟨_, _, h⟩ => nomatch h) (List.cons_ne_nil _ _)

theorem not_isFileAt_nil : ¬IsFileAt (.directory es) [] := fun ⟨_, _, h⟩ => nomatch h

/-- A file is at the place that starts with the name of an entry and goes on below it. -/
theorem isFileAt_cons_iff (h : Plain (.directory es)) :
    IsFileAt (.directory es) (name :: names) ↔ ∃ node, (name, node) ∈ es ∧ IsFileAt node names := by
  cases h with
  | directory hnames hnodup hnodes =>
      constructor
      · rintro ⟨bytes, modified, hat⟩
        obtain ⟨node, hfind, hat⟩ := Option.bind_eq_some_iff.1 hat
        exact ⟨node, mem_of_find?_eq_some hfind, bytes, modified, hat⟩
      · rintro ⟨node, hmem, bytes, modified, hat⟩
        exact ⟨bytes, modified,
          Option.bind_eq_some_iff.2 ⟨node, (find?_eq_some_iff hnodup).2 hmem, hat⟩⟩

theorem IsFileAt.isName {node : FileNode} (h : IsFileAt node names) (hplain : Plain node) :
    ∀ name ∈ names, Path.IsName name.toList := by
  induction names generalizing node with
  | nil => exact fun name hname => nomatch hname
  | cons first rest ih =>
      cases hplain with
      | file bytes modified => exact absurd (isFileAt_file_iff.1 h) (List.cons_ne_nil _ _)
      | directory hnames hnodup hnodes =>
          obtain ⟨node, hmem, hfile⟩ := (isFileAt_cons_iff (.directory hnames hnodup hnodes)).1 h
          intro name hname
          rcases List.mem_cons.1 hname with rfl | hname
          · exact hnames _ hmem
          · exact ih hfile (hnodes _ hmem) name hname

/-! ## Other orders of entries -/

/-- One tree is another whose directories list their entries in another order. -/
inductive Reordered : FileNode → FileNode → Prop
  | refl (node : FileNode) : Reordered node node
  | entries {es es' : List (String × FileNode)} (h : es.Perm es') :
      Reordered (.directory es) (.directory es')
  | deeper {front back : List (String × FileNode)} {name : String} {node node' : FileNode}
      (h : Reordered node node') :
      Reordered (.directory (front ++ (name, node) :: back))
        (.directory (front ++ (name, node') :: back))
  | trans {node node' node'' : FileNode} (h : Reordered node node') (h' : Reordered node' node'') :
      Reordered node node''

theorem Reordered.plain {node node' : FileNode} (h : Reordered node node') (hplain : Plain node) :
    Plain node' := by
  induction h with
  | refl node => exact hplain
  | entries hperm =>
      cases hplain with
      | directory hnames hnodup hnodes =>
          exact .directory (fun e he => hnames e (hperm.mem_iff.2 he))
            ((hperm.map Prod.fst).nodup_iff.1 hnodup) fun e he => hnodes e (hperm.mem_iff.2 he)
  | @deeper front back name node node' _ ih =>
      cases hplain with
      | directory hnames hnodup hnodes =>
          have hother {e : String × FileNode} (he : e ∈ front ++ (name, node') :: back) :
              e = (name, node') ∨ e ∈ front ++ (name, node) :: back := by
            rw [List.mem_append, List.mem_cons] at he ⊢
            rcases he with he | he | he
            · exact .inr (.inl he)
            · exact .inl he
            · exact .inr (.inr (.inr he))
          have hmem : (name, node) ∈ front ++ (name, node) :: back := by simp
          refine .directory (fun e he => ?_) ?_ fun e he => ?_
          · rcases hother he with rfl | he
            · exact hnames (name, node) hmem
            · exact hnames _ he
          · rw [List.map_append, List.map_cons] at hnodup ⊢
            exact hnodup
          · rcases hother he with rfl | he
            · exact ih (hnodes _ hmem)
            · exact hnodes _ he
  | trans _ _ ih ih' => exact ih' (ih hplain)

/-- **Orders.** The order of entries does not change where the files are. -/
theorem Reordered.isFileAt_iff {node node' : FileNode} (h : Reordered node node')
    (hplain : Plain node) (names : List String) : IsFileAt node' names ↔ IsFileAt node names := by
  induction h generalizing names with
  | refl node => exact Iff.rfl
  | entries hperm =>
      cases names with
      | nil => exact iff_of_false not_isFileAt_nil not_isFileAt_nil
      | cons name rest =>
          rw [isFileAt_cons_iff hplain, isFileAt_cons_iff ((Reordered.entries hperm).plain hplain)]
          simp only [hperm.mem_iff]
  | @deeper front back name node node' hbelow ih =>
      have hnode : Plain node := by
        cases hplain with
        | directory hnames hnodup hnodes => exact hnodes (name, node) (by simp)
      cases names with
      | nil => exact iff_of_false not_isFileAt_nil not_isFileAt_nil
      | cons first rest =>
          rw [isFileAt_cons_iff hplain, isFileAt_cons_iff ((Reordered.deeper hbelow).plain hplain)]
          simp only [List.mem_append, List.mem_cons, Prod.mk.injEq, or_and_right, exists_or,
            and_assoc, exists_and_left, exists_eq_left, ih hnode rest]
  | trans hfirst _ ih ih' => rw [ih' (hfirst.plain hplain), ih hplain]

/-! ## Numbers of directories -/

theorem directories_le_directoriesIn {node : FileNode} (h : (name, node) ∈ es) :
    directories node ≤ directoriesIn es := by
  induction es with
  | nil => cases h
  | cons e es ih =>
      unfold directoriesIn
      rcases List.mem_cons.1 h with rfl | h
      · exact Nat.le_add_right _ _
      · exact Nat.le_trans (ih h) (Nat.le_add_left _ _)

theorem directories_le_of_at? {node below : FileNode} (h : node.at? names = some below) :
    directories below ≤ directories node := by
  induction names generalizing node with
  | nil => exact Option.some.inj h ▸ Nat.le_refl _
  | cons name rest ih =>
      obtain ⟨next, hfind, hat⟩ := Option.bind_eq_some_iff.1 h
      refine Nat.le_trans (ih hat) ?_
      cases node with
      | file bytes modified => exact nomatch hfind
      | link target => exact nomatch hfind
      | directory es =>
          have hle := directories_le_directoriesIn (mem_of_find?_eq_some hfind)
          exact Nat.le_trans hle (Nat.le_succ _)

end ContentGraph.FileNode
