import ContentGraph.FileTree.Walk
import ContentGraph.Proofs.Except
import ContentGraph.Proofs.FileTree.Places

/-!
# What a walk meets

A walk through a plain tree meets each file in it and nothing else; the path of a file is that of
the directory where the walk began joined with the names on the way (`walk_plain`).
-/

namespace ContentGraph.FileTree

open FileNode (IsFileAt Plain directoriesIn)
open ContentGraph.Path (IsName)

/-! ## Paths on the way -/

/-- Holds for texts whose last character is no slash. -/
def EndsInName (s : List Char) : Prop := ∃ c, s.getLast? = some c ∧ c ≠ '/'

theorem endsInName_append (front : List Char) {name : List Char} (h : IsName name) :
    EndsInName (front ++ name) := by
  have hlast := List.getLast?_eq_some_getLast h.ne_nil
  refine ⟨name.getLast h.ne_nil, by rw [List.getLast?_append, hlast, Option.some_or], ?_⟩
  intro heq
  exact h.noSlash (heq ▸ List.getLast_mem h.ne_nil)

/-- A function that adds one name behind a slash adds several, each behind a slash. -/
theorem toList_foldl_below {f : String → String → String}
    (hf : ∀ dir name : String, EndsInName dir.toList → IsName name.toList →
      (f dir name).toList = dir.toList ++ '/' :: name.toList)
    {dir : String} (hdir : EndsInName dir.toList) {names : List String}
    (hnames : ∀ name ∈ names, IsName name.toList) :
    (names.foldl f dir).toList = dir.toList ++ (names.map String.toList).flatMap ('/' :: ·) := by
  induction names generalizing dir with
  | nil => simp
  | cons name rest ih =>
      have hname := hnames name List.mem_cons_self
      have hnext : (f dir name).toList = dir.toList ++ ['/'] ++ name.toList := by
        rw [hf dir name hdir hname, List.append_assoc]
        rfl
      have hends : EndsInName (f dir name).toList := by
        rw [hnext]
        exact endsInName_append _ hname
      rw [List.foldl_cons, ih hends fun n hn => hnames n (List.mem_cons_of_mem _ hn), hnext]
      simp

theorem toList_entryPath {dir name : String} (hdir : EndsInName dir.toList)
    (hname : IsName name.toList) :
    (entryPath dir name).toList = dir.toList ++ '/' :: name.toList := by
  obtain ⟨c, hlast, hc⟩ := hdir
  have hne : dir.toList.isEmpty = false := by
    cases hs : dir.toList with
    | nil => rw [hs] at hlast; exact nomatch hlast
    | cons => rfl
  unfold entryPath Path.join
  rw [String.toList_ofList, hname.isAbsolute, hlast, hne]
  simp [hc]

theorem toList_entryRelative {dir name : String} (hdir : EndsInName dir.toList) :
    (entryRelative dir name).toList = dir.toList ++ '/' :: name.toList := by
  obtain ⟨c, hlast, -⟩ := hdir
  have hne : dir.isEmpty = false := by
    rw [Bool.eq_false_iff, Ne, String.isEmpty_iff]
    rintro rfl
    exact nomatch hlast
  unfold entryRelative
  rw [hne]
  simp

section Names

variable {path first : String} {rest : List String}

theorem foldl_entryPath (h : ∀ name ∈ first :: rest, IsName name.toList) :
    (first :: rest).foldl entryPath path
      = entryPath path ("/".intercalate (first :: rest)) := by
  have hfirst := h first List.mem_cons_self
  have hpieces : ∀ piece ∈ (first :: rest).map String.toList, IsName piece := by
    intro piece hpiece
    obtain ⟨name, hname, rfl⟩ := List.mem_map.1 hpiece
    exact h name hname
  obtain ⟨front, hfront⟩ := Path.exists_join path.toList
  have hstart : (entryPath path first).toList = front ++ first.toList := by
    unfold entryPath
    rw [String.toList_ofList, hfront _ hfirst.isAbsolute]
  have hends : EndsInName (entryPath path first).toList := by
    rw [hstart]
    exact endsInName_append front hfirst
  have hbelow := toList_foldl_below (fun _ _ => toList_entryPath) hends
    fun name hname => h name (List.mem_cons_of_mem _ hname)
  have hjoined : (entryPath path ("/".intercalate (first :: rest))).toList
      = front ++ Path.joinSlash ((first :: rest).map String.toList) := by
    unfold entryPath
    rw [String.toList_ofList, Path.toList_intercalate, hfront _ (Path.isAbsolute_joinSlash hpieces)]
  apply String.toList_inj.1
  rw [List.foldl_cons, hbelow, hjoined, hstart, List.map_cons, Path.joinSlash_cons,
    List.append_assoc]

theorem foldl_entryRelative (h : ∀ name ∈ first :: rest, IsName name.toList) :
    (first :: rest).foldl entryRelative "" = "/".intercalate (first :: rest) := by
  have hends : EndsInName (entryRelative "" first).toList :=
    endsInName_append [] (h first List.mem_cons_self)
  have hbelow := toList_foldl_below (fun _ _ hdir _ => toList_entryRelative hdir) hends
    fun name hname => h name (List.mem_cons_of_mem _ hname)
  apply String.toList_inj.1
  rw [List.foldl_cons, hbelow, Path.toList_intercalate, List.map_cons, Path.joinSlash_cons]
  rfl

end Names

/-- The entry of a file that the names on the way lead to. -/
def entryAt (path relative : String) (names : List String) : Entry :=
  ⟨names.foldl entryPath path, names.foldl entryRelative relative⟩

/-- The entry of a file below the first directory has its names joined. -/
theorem entryAt_eq {path : String} {names : List String} (hne : names ≠ [])
    (h : ∀ name ∈ names, IsName name.toList) :
    entryAt path "" names = ⟨entryPath path ("/".intercalate names), "/".intercalate names⟩ := by
  obtain ⟨first, rest, rfl⟩ := List.exists_cons_of_ne_nil hne
  unfold entryAt
  rw [foldl_entryPath h, foldl_entryRelative h]

/-! ## Walks -/

/-- A walk that goes deep enough meets the files below a directory of a plain tree. -/
theorem filesBelow_plain (t : FileTree) (follow : Bool) {fuel : Nat} {inside : List Open}
    {path relative : String} {es : List (String × FileNode)}
    (hplain : Plain (.directory es)) (hfuel : directoriesIn es < fuel) :
    ∃ found, t.filesBelow follow fuel inside path relative es = .ok found
      ∧ ∀ c, c ∈ found
        ↔ ∃ names, IsFileAt (.directory es) names ∧ c = entryAt path relative names := by
  induction fuel generalizing inside path relative es with
  | zero => exact absurd hfuel (Nat.not_lt_zero _)
  | succ fuel ih =>
      have hplaces (c : Entry) :
          (∃ names, IsFileAt (.directory es) names ∧ c = entryAt path relative names)
            ↔ ∃ e ∈ es, ∃ names, IsFileAt e.2 names
              ∧ c = entryAt (entryPath path e.1) (entryRelative relative e.1) names := by
        constructor
        · rintro ⟨names, hfile, rfl⟩
          cases names with
          | nil => exact absurd hfile FileNode.not_isFileAt_nil
          | cons name rest =>
              obtain ⟨node, hmem, hfile⟩ := (FileNode.isFileAt_cons_iff hplain).1 hfile
              exact ⟨(name, node), hmem, rest, hfile, rfl⟩
        · rintro ⟨⟨name, node⟩, hmem, rest, hfile, rfl⟩
          exact ⟨name :: rest, (FileNode.isFileAt_cons_iff hplain).2 ⟨node, hmem, hfile⟩, rfl⟩
      simp only [hplaces]
      unfold filesBelow
      refine Except.exists_mapM_flatten ?_
      rintro ⟨name, node⟩ hmem
      cases hplain with
      | directory hnames hnodup hnodes =>
          have hnode := hnodes _ hmem
          cases hnode with
          | file bytes modified =>
              refine ⟨_, rfl, fun c => ?_⟩
              simp [FileNode.isFileAt_file_iff, entryAt]
          | @directory es' hnames' hnodup' hnodes' =>
              have hle : directoriesIn es' + 1 ≤ directoriesIn es :=
                FileNode.directories_le_directoriesIn hmem
              exact ih (.directory hnames' hnodup' hnodes') (by omega)

/-- **Walks.** A walk through a plain tree meets its files; their paths are made of the names on the
way. -/
theorem walk_plain {t : FileTree} {path : String} {es : List (String × FileNode)}
    (h : t.node path = .ok (.directory es)) (hplain : Plain (.directory es)) (follow : Bool) :
    ∃ found, t.walk follow path = .ok found
      ∧ ∀ c, c ∈ found ↔ ∃ names, IsFileAt (.directory es) names
        ∧ c = ⟨entryPath path ("/".intercalate names), "/".intercalate names⟩ := by
  obtain ⟨place, hplace, hat⟩ := Except.exists_of_bind h
  have hnode : t.root.at? place = some (.directory es) := by
    cases hroot : t.root.at? place with
    | none => rw [hroot] at hat; exact nomatch hat
    | some node => rw [hroot] at hat; rw [Except.ok.inj hat]
  have hbound : directoriesIn es < t.depthBound := by
    have hle : directoriesIn es + 1 ≤ t.root.directories := FileNode.directories_le_of_at? hnode
    have hsquare := Nat.le_mul_self (t.root.directories + 1)
    unfold depthBound
    omega
  obtain ⟨found, hfound, hmem⟩ := t.filesBelow_plain follow hplain hbound
  refine ⟨found, ?_, fun c => ?_⟩
  · unfold walk
    rw [hplace]
    dsimp only
    rw [hnode]
    exact hfound
  · rw [hmem]
    refine exists_congr fun names => and_congr_right fun hfile => ?_
    have hne : names ≠ [] := by
      rintro rfl
      exact FileNode.not_isFileAt_nil hfile
    rw [entryAt_eq hne (hfile.isName hplain)]

end ContentGraph.FileTree
