import ContentGraph.Proofs.Component.Resolution
import Mathlib.Data.List.Basic

/-!
# Files that are looked for

To link a module name, files are looked for one after another until one is there (`probes`); nothing
else of the file tree matters for the links (`linkedFile?_of_probes`). Main statement: where the name
denotes a directory below the root, all paths that are looked at lie below the root, and the index
file of the directory is linked if none of the files before it is there (`probes_below_root`). The
root itself has the empty path, to which the index files are joined as if they stood at the top of
the file system, so they are not found (`rootIndex_missed`).
-/

namespace ContentGraph.Component

open ContentGraph.Path

/-! ## Paths -/

/-- The path of a file below a root. -/
def placed (root : String) (file : List Char) : String := String.ofList (join root.toList file)

/-- Holds for paths that lead down from a root along names. -/
def IsBelow (root path : String) : Prop :=
  ∃ names, names ≠ [] ∧ (∀ name ∈ names, IsName name) ∧ path = placed root (joinSlash names)

/-- The paths up to the first that leads to a file. -/
def lookedAt (tree : FileTree) : List String → List String
  | [] => []
  | path :: rest => path :: if tree.isFile path then [] else lookedAt tree rest

/-- The paths that are looked at to link a module name in a file. -/
def probes (tree : FileTree) (root importer specifier : String) : List String :=
  match resolveRelative importer.toList specifier.toList with
  | some base => lookedAt tree ((moduleFiles base).map (placed root))
  | none => []

/-- The files that a resolved module name may mean before the index files of a directory. -/
def namedFiles (base : List Char) : List (List Char) :=
  (if (extension? base).any moduleExtensions.contains then [base] else [])
    ++ moduleExtensions.map fun e => base ++ '.' :: e

/-- The preferred index file of a directory. -/
def indexFile (place : List (List Char)) : List Char := joinSlash (place ++ ["index.tsx".toList])

theorem moduleFiles_eq (base : List Char) :
    moduleFiles base = namedFiles base ++ moduleExtensions.map fun e => base ++ "/index.".toList ++ e := by
  have hknown : moduleExtensions.contains = fun e => decide (e ∈ moduleExtensions) :=
    funext fun e => List.contains_eq_mem e moduleExtensions
  unfold moduleFiles namedFiles
  rw [hknown]

theorem linkedFile?_of_resolved {importer specifier : String} {base : List Char}
    (h : resolveRelative importer.toList specifier.toList = some base) (tree : FileTree)
    (root : String) :
    linkedFile? tree root importer specifier
      = ((moduleFiles base).find? fun file => tree.isFile (placed root file)).map String.ofList := by
  unfold linkedFile?
  rw [h]
  rfl

theorem probes_of_resolved {importer specifier : String} {base : List Char}
    (h : resolveRelative importer.toList specifier.toList = some base) (tree : FileTree)
    (root : String) :
    probes tree root importer specifier = lookedAt tree ((moduleFiles base).map (placed root)) := by
  unfold probes
  rw [h]

theorem mem_of_mem_lookedAt {tree : FileTree} {path : String} {paths : List String}
    (h : path ∈ lookedAt tree paths) : path ∈ paths := by
  induction paths with
  | nil => exact h
  | cons first paths ih =>
      rcases List.mem_cons.1 h with rfl | h
      · exact List.mem_cons_self
      · split at h
        · exact absurd h List.not_mem_nil
        · exact List.mem_cons_of_mem _ (ih h)

/-- Which file is the first hangs on the paths up to it. -/
theorem find?_of_lookedAt {tree tree' : FileTree} {root : String} {files : List (List Char)}
    (h : ∀ path ∈ lookedAt tree (files.map (placed root)), tree'.isFile path = tree.isFile path) :
    (files.find? fun file => tree'.isFile (placed root file))
      = files.find? fun file => tree.isFile (placed root file) := by
  induction files with
  | nil => rfl
  | cons file files ih =>
      have hfile : tree'.isFile (placed root file) = tree.isFile (placed root file) :=
        h _ List.mem_cons_self
      rw [List.find?_cons, List.find?_cons, hfile]
      cases hthere : tree.isFile (placed root file) with
      | true => rfl
      | false =>
          refine ih fun path hpath => h path (List.mem_cons_of_mem _ ?_)
          rw [hthere]
          exact hpath

/-- What a module name means hangs on nothing but the files that are looked for. -/
theorem linkedFile?_of_probes {tree tree' : FileTree} {root importer specifier : String}
    (h : ∀ path ∈ probes tree root importer specifier, tree'.isFile path = tree.isFile path) :
    linkedFile? tree' root importer specifier = linkedFile? tree root importer specifier := by
  cases hbase : resolveRelative importer.toList specifier.toList with
  | none => simp only [linkedFile?, hbase, Option.bind_none]
  | some base =>
      rw [probes_of_resolved hbase] at h
      rw [linkedFile?_of_resolved hbase, linkedFile?_of_resolved hbase, find?_of_lookedAt h]

/-! ## Below the root -/

section Names

variable {place : List (List Char)}

/-- The extensions of modules may be added to names. -/
theorem moduleExtension_cases {e : List Char} (h : e ∈ moduleExtensions) :
    2 ≤ e.length ∧ '/' ∉ e := by
  revert e
  decide

/-- The files that a module name may mean lie below the root when it denotes a directory there. -/
theorem exists_names_of_mem_moduleFiles (hne : place ≠ []) (hplace : ∀ name ∈ place, IsName name)
    {file : List Char} (h : file ∈ moduleFiles (joinSlash place)) :
    ∃ names, names ≠ [] ∧ (∀ name ∈ names, IsName name) ∧ file = joinSlash names := by
  rw [moduleFiles_eq] at h
  unfold namedFiles at h
  rcases List.mem_append.1 h with h | h
  · rcases List.mem_append.1 h with h | h
    · -- the name itself
      split at h
      · obtain rfl := List.mem_singleton.1 h
        exact ⟨place, hne, hplace, rfl⟩
      · exact absurd h List.not_mem_nil
    · -- the last name with an extension
      obtain ⟨e, he, rfl⟩ := List.mem_map.1 h
      obtain ⟨hlong, hslash⟩ := moduleExtension_cases he
      obtain ⟨front, last, rfl⟩ := (List.eq_nil_or_concat' place).resolve_left hne
      obtain ⟨hfront, hlast⟩ := List.forall_mem_append.1 hplace
      have hname := (List.forall_mem_singleton.1 hlast).withExtension hlong hslash
      exact ⟨front ++ [last ++ '.' :: e], List.append_ne_nil_of_right_ne_nil _ (List.cons_ne_nil _ _),
        List.forall_mem_append.2 ⟨hfront, List.forall_mem_singleton.2 hname⟩,
        joinSlash_concat_append front last _⟩
  · -- an index file in the directory
    obtain ⟨e, he, rfl⟩ := List.mem_map.1 h
    obtain ⟨hlong, hslash⟩ := moduleExtension_cases he
    have hindex : IsName "index".toList := by decide
    refine ⟨place ++ ["index".toList ++ '.' :: e],
      List.append_ne_nil_of_right_ne_nil _ (List.cons_ne_nil _ _),
      List.forall_mem_append.2
        ⟨hplace, List.forall_mem_singleton.2 (hindex.withExtension hlong hslash)⟩, ?_⟩
    rw [joinSlash_concat hne, List.append_assoc]
    rfl

end Names

/-! ## Links -/

theorem mem_foldl_addLink {own id : String} {ids links : List String} :
    id ∈ ids.foldl (addLink own) links ↔ id ∈ links ∨ id ≠ own ∧ id ∈ ids := by
  induction ids generalizing links with
  | nil => simp
  | cons next ids ih =>
      have hnext : id ∈ addLink own links next ↔ id ∈ links ∨ id ≠ own ∧ id = next := by
        unfold addLink
        split
        · next h =>
          refine ⟨.inl, fun hid => hid.elim (fun hid => hid) fun ⟨hne, heq⟩ => ?_⟩
          exact h.elim (fun hown => absurd (heq.trans hown) hne) fun hmem => heq ▸ hmem
        · next h =>
          rw [List.mem_append, List.mem_singleton]
          have hown : next ≠ own := fun heq => h (.inl heq)
          exact or_congr_right ⟨fun heq => ⟨heq ▸ hown, heq⟩, fun hid => hid.2⟩
      rw [List.foldl_cons, ih, hnext, List.mem_cons, or_assoc, ← and_or_left]

/-- Linked are the files that the imports mean, but for the file itself. -/
theorem mem_linksOf {tree : FileTree} {root importer id : String} {imports : List String} :
    id ∈ linksOf tree root importer imports
      ↔ id ≠ componentId importer
        ∧ ∃ s ∈ imports, ∃ file, linkedFile? tree root importer s = some file
          ∧ componentId file = id := by
  unfold linksOf
  rw [mem_foldl_addLink, List.mem_filterMap]
  simp only [List.not_mem_nil, false_or, Option.map_eq_some_iff]

/-- The index file of a directory is what a module name means if none of the files before it is
there. -/
theorem linkedFile?_indexFile {importer specifier : String} {place : List (List Char)}
    (hplace : place ≠ [])
    (h : resolveRelative importer.toList specifier.toList = some (joinSlash place))
    {tree : FileTree} {root : String}
    (hbefore : ∀ file ∈ namedFiles (joinSlash place), tree.isFile (placed root file) = false)
    (hindex : tree.isFile (placed root (indexFile place)) = true) :
    linkedFile? tree root importer specifier = some (String.ofList (indexFile place)) := by
  have hpath : joinSlash place ++ "/index.".toList ++ ['t', 's', 'x'] = indexFile place := by
    unfold indexFile
    rw [joinSlash_concat hplace, List.append_assoc]
    rfl
  have hnone : ((namedFiles (joinSlash place)).find? fun file => tree.isFile (placed root file)) = none :=
    List.find?_eq_none.2 fun file hfile => ne_true_of_eq_false (hbefore file hfile)
  rw [linkedFile?_of_resolved h, moduleFiles_eq, List.find?_append, hnone, Option.none_or]
  unfold moduleExtensions
  rw [List.map_cons, hpath, List.find?_cons, hindex]
  rfl

/-- **Probes.** A relative module name that never leads above the root denotes a place, and which
file it means hangs on nothing but the paths that are looked at. If the place is a directory below
the root, these paths lie below the root, and the index file of the directory is linked where none
of the files before it is there. If it is the root itself, four files without a name are looked
for in it, and then the index files at the top of the file system. -/
theorem probes_below_root {importer specifier : String}
    (himporter : ∀ piece ∈ splitOn '/' importer.toList, IsName piece)
    (hrelative : IsRelative specifier.toList)
    (hclimbs : ¬Climbs (directoryOf importer.toList).length (splitOn '/' specifier.toList))
    (tree : FileTree) (root : String) :
    ∃ place,
      NormalForm (directoryOf importer.toList ++ splitOn '/' specifier.toList) place
      ∧ (∀ tree' : FileTree, (∀ path ∈ probes tree root importer specifier,
          tree'.isFile path = tree.isFile path) →
        linkedFile? tree' root importer specifier = linkedFile? tree root importer specifier)
      ∧ (place ≠ [] →
        (∀ path ∈ probes tree root importer specifier, IsBelow root path)
        ∧ ∀ imports, specifier ∈ imports →
          tree.isFile (placed root (indexFile place)) = true →
          (∀ file ∈ namedFiles (joinSlash place), tree.isFile (placed root file) = false) →
          componentId (String.ofList (indexFile place)) ≠ componentId importer →
          componentId (String.ofList (indexFile place)) ∈ linksOf tree root importer imports)
      ∧ (place = [] → probes tree root importer specifier
        = lookedAt tree ([".tsx", ".jsx", ".ts", ".js"].map (fun file => placed root file.toList)
          ++ ["/index.tsx", "/index.jsx", "/index.ts", "/index.js"])) := by
  have hresolved : resolveRelative importer.toList specifier.toList ≠ none := by
    rw [Ne, resolveRelative_eq_none_iff]
    rintro (h | h)
    · exact h hrelative
    · exact hclimbs h
  obtain ⟨base, hbase⟩ := Option.ne_none_iff_exists'.1 hresolved
  obtain ⟨-, place, hform, rfl⟩ := (resolveRelative_eq_some_iff himporter).1 hbase
  refine ⟨place, hform, fun tree' => linkedFile?_of_probes, fun hplace => ⟨?_, ?_⟩, ?_⟩
  · intro path hpath
    rw [probes_of_resolved hbase] at hpath
    obtain ⟨file, hfile, rfl⟩ := List.mem_map.1 (mem_of_mem_lookedAt hpath)
    obtain ⟨names, hne, hnames, rfl⟩ := exists_names_of_mem_moduleFiles hplace hform.isName hfile
    exact ⟨names, hne, hnames, rfl⟩
  · intro imports hmem hindex hbefore hother
    refine mem_linksOf.2 ⟨hother, specifier, hmem, _, ?_, rfl⟩
    exact linkedFile?_indexFile hplace hbase hbefore hindex
  · rintro rfl
    rw [probes_of_resolved hbase]
    rfl

/-- A tree with an index file in a directory and one in the root above it. -/
def indexedTree : FileTree where
  root := .directory [("src", .directory [
    ("Home.tsx", .file [] 0),
    ("index.tsx", .file [] 0),
    ("ui", .directory [("index.tsx", .file [] 0)])])]

/-- From the root the index file of a directory is linked. -/
theorem probes_below_root_uiIndex :
    (∀ piece ∈ splitOn '/' "Home.tsx".toList, IsName piece) ∧ IsRelative "./ui".toList
      ∧ ¬Climbs (directoryOf "Home.tsx".toList).length (splitOn '/' "./ui".toList)
      ∧ (∀ path ∈ probes indexedTree "src" "Home.tsx" "./ui", IsBelow "src" path)
      ∧ "react_ui_index_tsx" ∈ linksOf indexedTree "src" "Home.tsx" ["react", "./ui"] := by
  have himporter : ∀ piece ∈ splitOn '/' "Home.tsx".toList, IsName piece := by decide
  have hrelative : IsRelative "./ui".toList := .inl (by decide)
  have hclimbs : ¬Climbs (directoryOf "Home.tsx".toList).length (splitOn '/' "./ui".toList) := by
    decide
  obtain ⟨place, hform, -, hbelow, -⟩ :=
    probes_below_root himporter hrelative hclimbs indexedTree "src"
  obtain rfl : ["ui".toList] = place := by
    have hplace := hform.stepsFrom?_eq
    exact List.reverse_injective (Option.some.inj hplace)
  obtain ⟨hprobes, hindex⟩ := hbelow (List.cons_ne_nil _ _)
  exact ⟨himporter, hrelative, hclimbs, hprobes,
    hindex ["react", "./ui"] (by decide) (by decide +kernel) (by decide +kernel) (by decide +kernel)⟩

/-- No path that starts at the top of the file system lies below a root that does not. -/
theorem not_isBelow_of_isAbsolute {root path : String} (hroot : isAbsolute root.toList = false)
    (hpath : isAbsolute path.toList = true) : ¬IsBelow root path := by
  rintro ⟨names, -, hnames, rfl⟩
  have hrest := isAbsolute_joinSlash hnames
  unfold placed at hpath
  rw [String.toList_ofList] at hpath
  revert hpath
  unfold join
  rw [hrest, if_neg Bool.false_ne_true]
  cases hs : root.toList with
  | nil => exact fun h => Bool.false_ne_true (hrest.symm.trans h)
  | cons c s =>
      rw [hs] at hroot
      have hhead (t : List Char) : isAbsolute (c :: s ++ t) = isAbsolute (c :: s) := rfl
      split
      · exact fun h => Bool.false_ne_true (hroot.symm.trans ((hhead _).symm.trans h))
      · exact fun h => Bool.false_ne_true (hroot.symm.trans ((hhead _).symm.trans h))

/-- A file in the root that names the root does not find its index file: that is looked for at the
top of the file system. -/
theorem rootIndex_missed :
    (¬∀ (tree : FileTree) (root importer specifier : String),
      (∀ piece ∈ splitOn '/' importer.toList, IsName piece) → IsRelative specifier.toList →
      ¬Climbs (directoryOf importer.toList).length (splitOn '/' specifier.toList) →
      ∀ path ∈ probes tree root importer specifier, IsBelow root path)
    ∧ ¬∀ (tree : FileTree) (root importer specifier : String) (place : List (List Char)),
      (∀ piece ∈ splitOn '/' importer.toList, IsName piece) → IsRelative specifier.toList →
      NormalForm (directoryOf importer.toList ++ splitOn '/' specifier.toList) place →
      tree.isFile (placed root (indexFile place)) = true →
      (∀ file ∈ namedFiles (joinSlash place), tree.isFile (placed root file) = false) →
      componentId (String.ofList (indexFile place)) ≠ componentId importer →
      ∀ imports, specifier ∈ imports →
        componentId (String.ofList (indexFile place)) ∈ linksOf tree root importer imports := by
  have himporter : ∀ piece ∈ splitOn '/' "Home.tsx".toList, IsName piece := by decide
  have hrelative : IsRelative "./".toList := .inl (by decide)
  constructor
  · intro h
    have hclimbs : ¬Climbs (directoryOf "Home.tsx".toList).length (splitOn '/' "./".toList) := by
      decide
    have hbelow := h indexedTree "src" "Home.tsx" "./" himporter hrelative hclimbs "/index.tsx"
      (by decide +kernel)
    exact not_isBelow_of_isAbsolute (by decide) (by decide) hbelow
  · intro h
    have hform : NormalForm (directoryOf "Home.tsx".toList ++ splitOn '/' "./".toList) [] :=
      ⟨.head (.stay [] (.inr rfl) [[]]) (.single (.stay [] (.inl rfl) [])), List.forall_mem_nil _⟩
    have hlinked := h indexedTree "src" "Home.tsx" "./" [] himporter hrelative hform
      (by decide +kernel) (by decide +kernel) (by decide +kernel) ["./"] (List.mem_singleton_self _)
    revert hlinked
    decide +kernel

end ContentGraph.Component
