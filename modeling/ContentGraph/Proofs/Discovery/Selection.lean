import ContentGraph.Proofs.Discovery.Order
import ContentGraph.Proofs.FileTree.Walking
import ContentGraph.Proofs.Text.Encoding

/-!
# Which files are discovered

In a tree without links a discovery lists the files that a pattern to include matches and none to
exclude, each once, in the order of the bytes of their relative paths. What it lists depends on
where files are and on which patterns there are, not on the order of either (`discover_selected`).
-/

namespace ContentGraph

/-! ## Patterns -/

namespace Glob

/-- Holds for patterns that can be read. -/
def IsReadable (pattern : String) : Prop := ∃ ts, parse pattern = .ok ts

/-- Holds when a pattern can be read and matches a path. -/
def Matches (pattern path : String) : Prop :=
  ∃ ts, parse pattern = .ok ts ∧ isMatch ts path = true

theorem matches_iff {pattern path : String} {ts : List Token} (h : parse pattern = .ok ts) :
    Matches pattern path ↔ isMatch ts path = true := by
  constructor
  · rintro ⟨ts', hts', hmatch⟩
    rw [h] at hts'
    rwa [Except.ok.inj hts']
  · intro hmatch
    exact ⟨ts, h, hmatch⟩

instance (pattern path : String) : Decidable (Matches pattern path) :=
  match h : parse pattern with
  | .ok ts => decidable_of_iff (isMatch ts path = true) (matches_iff h).symm
  | .error _ => isFalse fun ⟨_, hts, _⟩ => nomatch h.symm.trans hts

instance (pattern : String) : Decidable (IsReadable pattern) :=
  match h : parse pattern with
  | .ok ts => isTrue ⟨ts, h⟩
  | .error _ => isFalse fun ⟨_, hts⟩ => nomatch h.symm.trans hts

end Glob

/-- Holds for relative paths that the patterns of a corpus choose. -/
def Corpus.Selects (corpus : Corpus) (path : String) : Prop :=
  (∃ pattern ∈ corpus.includes, Glob.Matches pattern path)
    ∧ ∀ pattern ∈ corpus.excludes, ¬Glob.Matches pattern path

instance (corpus : Corpus) (path : String) : Decidable (corpus.Selects path) :=
  inferInstanceAs (Decidable (_ ∧ _))

end ContentGraph

namespace ContentGraph.Discovery

open FileNode (IsFileAt Plain Reordered)
open FileTree (entryPath)

theorem readPattern_eq_ok {pattern : String} {ts : List Glob.Token}
    (h : Glob.parse pattern = .ok ts) : readPattern pattern = .ok ts := by
  unfold readPattern
  rw [h]

/-- Patterns that can each be read are read to tokens that match as they do. -/
theorem exists_readPatterns {patterns : List String}
    (h : ∀ pattern ∈ patterns, Glob.IsReadable pattern) :
    ∃ tss, readPatterns patterns = .ok tss ∧ ∀ path, tss.any (Glob.isMatch · path) = true
      ↔ ∃ pattern ∈ patterns, Glob.Matches pattern path := by
  have hread : ∀ pattern ∈ patterns, ∃ ts, readPattern pattern = .ok ts
      ∧ ∀ path, Glob.isMatch ts path = true ↔ Glob.Matches pattern path := by
    intro pattern hpattern
    obtain ⟨ts, hts⟩ := h pattern hpattern
    exact ⟨ts, readPattern_eq_ok hts, fun path => (Glob.matches_iff hts).symm⟩
  obtain ⟨tss, htss, hall⟩ := Except.exists_mapM hread
  refine ⟨tss, htss, fun path => ?_⟩
  clear h hread htss
  induction hall with
  | nil => simp
  | cons hts _ ih => rw [List.any_cons, Bool.or_eq_true, hts path, ih, List.exists_mem_cons_iff]

/-! ## Files -/

/-- Holds for the files below a directory that a corpus selects; the path of each is its relative
path behind the root. -/
def IsSelected (corpus : Corpus) (dir : FileNode) (c : Candidate) : Prop :=
  (∃ names, IsFileAt dir names ∧ c.relative = "/".intercalate names)
    ∧ c.path = entryPath corpus.root c.relative ∧ corpus.Selects c.relative

/-- Files in order are determined by which there are. -/
theorem Ordered.eq_of_mem_iff {files files' : List Candidate} (h : Ordered files)
    (h' : Ordered files') (hmem : ∀ c, c ∈ files ↔ c ∈ files') : files = files' := by
  have : Std.Irrefl fun c d : Candidate => c.relative < d.relative :=
    ⟨fun c => String.lt_irrefl c.relative⟩
  have : Std.Antisymm fun c d : Candidate => c.relative < d.relative :=
    ⟨fun c d hcd hdc => absurd (String.lt_trans hcd hdc) (String.lt_irrefl c.relative)⟩
  exact List.Pairwise.eq_of_mem_iff h h' hmem

variable {tree : FileTree} {corpus : Corpus} {es : List (String × FileNode)}

theorem discover_isSelected (hroot : tree.node corpus.root = .ok (.directory es))
    (hplain : Plain (.directory es))
    (hincludes : ∀ pattern ∈ corpus.includes, Glob.IsReadable pattern)
    (hexcludes : ∀ pattern ∈ corpus.excludes, Glob.IsReadable pattern) :
    ∃ files, discover tree corpus = .ok files
      ∧ ∀ c, c ∈ files ↔ IsSelected corpus (.directory es) c := by
  have hdirectory : tree.isDirectory corpus.root = true := by
    unfold FileTree.isDirectory
    rw [hroot]
  obtain ⟨includes, hreadIncludes, hincluded⟩ := exists_readPatterns hincludes
  obtain ⟨excludes, hreadExcludes, hexcluded⟩ := exists_readPatterns hexcludes
  obtain ⟨entries, hwalk, hentries⟩ := FileTree.walk_plain hroot hplain corpus.followLinks
  have hwanted (path : String) : isWanted includes excludes path = true ↔ corpus.Selects path := by
    unfold isWanted Corpus.Selects
    rw [Bool.and_eq_true, hincluded path, Bool.not_eq_true', Bool.eq_false_iff, Ne, hexcluded path]
    simp only [not_exists, not_and]
  have hmem (c : Candidate) :
      c ∈ entries.filter (fun c => isWanted includes excludes c.relative)
        ↔ IsSelected corpus (.directory es) c := by
    rw [List.mem_filter, hentries, hwanted]
    constructor
    · rintro ⟨⟨names, hfile, rfl⟩, hselects⟩
      exact ⟨⟨names, hfile, rfl⟩, rfl, hselects⟩
    · rintro ⟨⟨names, hfile, hrelative⟩, hpath, hselects⟩
      refine ⟨⟨names, hfile, ?_⟩, hselects⟩
      rw [← hrelative, ← hpath]
  have hdiscover : discover tree corpus
      = .ok ((entries.filter fun c => isWanted includes excludes c.relative).foldl
        (fun out c => insert c out) []) := by
    unfold discover
    rw [hdirectory, hreadIncludes, hreadExcludes, hwalk]
    rfl
  refine ⟨_, hdiscover, fun c => ⟨fun hc => ?_, fun hc => ?_⟩⟩
  · exact (hmem c).1 ((mem_of_mem_insertAll hc).resolve_right List.not_mem_nil)
  · -- a file of this relative path is listed, and its path is made from that
    obtain ⟨d, hd, hrelative⟩ := exists_mem_insertAll [] ((hmem c).2 hc)
    have hselected := (hmem d).1 ((mem_of_mem_insertAll hd).resolve_right List.not_mem_nil)
    have heq : d = c := by
      have hpath : d.path = c.path := by rw [hselected.2.1, hc.2.1, hrelative]
      cases c
      cases d
      congr
    exact heq ▸ hd

/-- **Discovery.** Where no links are and all patterns can be read, files are found: those that a
pattern to include matches and none to exclude, in strictly increasing order of the bytes of their
relative paths, each under the root joined with its relative path. The order in which directories
list their entries does not matter, nor do the order and the number of the patterns. -/
theorem discover_selected (hroot : tree.node corpus.root = .ok (.directory es))
    (hplain : Plain (.directory es))
    (hincludes : ∀ pattern ∈ corpus.includes, Glob.IsReadable pattern)
    (hexcludes : ∀ pattern ∈ corpus.excludes, Glob.IsReadable pattern) :
    ∃ files, discover tree corpus = .ok files
      ∧ files.Pairwise (fun c d =>
        Utf8.encode c.relative.toList < Utf8.encode d.relative.toList)
      ∧ (∀ c, c ∈ files ↔ (∃ names, IsFileAt (.directory es) names
          ∧ c.relative = "/".intercalate names)
        ∧ c.path = entryPath corpus.root c.relative ∧ corpus.Selects c.relative)
      ∧ ∀ (tree' : FileTree) (corpus' : Corpus) (es' : List (String × FileNode)),
        corpus'.root = corpus.root → tree'.node corpus'.root = .ok (.directory es') →
        Reordered (.directory es) (.directory es') →
        (∀ pattern, pattern ∈ corpus'.includes ↔ pattern ∈ corpus.includes) →
        (∀ pattern, pattern ∈ corpus'.excludes ↔ pattern ∈ corpus.excludes) →
        discover tree' corpus' = .ok files := by
  obtain ⟨files, hfiles, hmem⟩ := discover_isSelected hroot hplain hincludes hexcludes
  have hordered := ordered_of_discover hfiles
  refine ⟨files, hfiles, hordered.imp fun h => Utf8.encode_lt_iff.2 h, hmem, ?_⟩
  intro tree' corpus' es' hroot' hnode' hreordered hincludes' hexcludes'
  obtain ⟨files', hfiles', hmem'⟩ := discover_isSelected hnode' (hreordered.plain hplain)
    (fun pattern h => hincludes pattern ((hincludes' pattern).1 h))
    (fun pattern h => hexcludes pattern ((hexcludes' pattern).1 h))
  have hselected (c : Candidate) :
      IsSelected corpus' (.directory es') c ↔ IsSelected corpus (.directory es) c := by
    unfold IsSelected Corpus.Selects
    simp only [hreordered.isFileAt_iff hplain, hroot', hincludes', hexcludes']
  have heq : files' = files := by
    refine (ordered_of_discover hfiles').eq_of_mem_iff hordered fun c => ?_
    rw [hmem' c, hselected c, hmem c]
  rw [hfiles', heq]

/-- A directory of components and a note. -/
def shop : List (String × FileNode) :=
  [("b.tsx", .file [] 0), ("a", .directory [("c.tsx", .file [] 0), ("note.md", .file [] 0)])]

/-- The other order of entries and a pattern given twice change nothing. -/
theorem discover_shop :
    ∃ files, discover ⟨.directory [("app", .directory shop)], []⟩
        ⟨"app", ["**/*.tsx", "a/*"], ["**/*.md"], false⟩ = .ok files
      ∧ ⟨"app/a/c.tsx", "a/c.tsx"⟩ ∈ files
      ∧ discover ⟨.directory [("app", .directory shop.reverse)], []⟩
        ⟨"app", ["a/*", "**/*.tsx", "a/*"], ["**/*.md"], false⟩ = .ok files := by
  have hplain : Plain (.directory shop) := by
    refine .directory (by decide) (by decide) (List.forall_mem_cons.2
      ⟨.file [] 0, List.forall_mem_singleton.2 (.directory (by decide) (by decide) ?_)⟩)
    exact List.forall_mem_cons.2 ⟨.file [] 0, List.forall_mem_singleton.2 (.file [] 0)⟩
  obtain ⟨files, hfiles, -, hmem, hother⟩ :=
    @discover_selected ⟨.directory [("app", .directory shop)], []⟩
      ⟨"app", ["**/*.tsx", "a/*"], ["**/*.md"], false⟩ shop rfl hplain (by decide +kernel)
      (by decide +kernel)
  have hfile : IsFileAt (.directory shop) ["a", "c.tsx"] := ⟨[], 0, rfl⟩
  refine ⟨files, hfiles, (hmem _).2 ⟨⟨_, hfile, rfl⟩, rfl, by decide +kernel⟩, ?_⟩
  exact hother _ _ shop.reverse rfl rfl (.entries shop.reverse_perm.symm) (by simp) (by simp)

end ContentGraph.Discovery
