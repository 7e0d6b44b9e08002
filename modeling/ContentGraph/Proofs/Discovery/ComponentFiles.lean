import ContentGraph.Proofs.Discovery.Selection
import ContentGraph.Proofs.Glob.Directories

/-!
# Component files

The patterns for components choose the files whose name ends in one of two extensions, wherever
they are, except below directories of five names (`isWanted_components`).
-/

namespace ContentGraph.Discovery

/-- Names of directories whose files are not looked for. -/
def generatedNames : List String := ["node_modules", "build", "dist", ".next", "out"]

theorem readPatterns_components (root : String) :
    readPatterns (Corpus.components root).includes
      = .ok [Glob.withExtensions "tsx".toList "jsx".toList] := by
  have hpattern : (Corpus.components root).includes = [String.ofList
      ("**/*.\x7b".toList ++ ("tsx".toList ++ ',' :: ("jsx".toList ++ ['\x7d'])))] := rfl
  have hread := Glob.parse_withExtensions (a := "tsx".toList) (b := "jsx".toList)
    (by decide) (by decide)
  rw [hpattern]
  exact Except.mapM_of_forall₂ (.cons (readPattern_eq_ok hread) .nil)

theorem readPatterns_generatedDirectories :
    readPatterns generatedDirectories
      = .ok (generatedNames.map fun name => Glob.inDirectory name.toList) := by
  have hpatterns : generatedDirectories = generatedNames.map fun name =>
      String.ofList ("**/".toList ++ name.toList ++ "/**".toList) := rfl
  have hletters : ∀ name ∈ generatedNames, name.toList.all Glob.isLiteral = true := by decide
  rw [hpatterns]
  refine Except.mapM_of_forall₂ ?_
  rw [List.forall₂_map_left_iff, List.forall₂_map_right_iff, List.forall₂_same]
  intro name hname
  exact readPattern_eq_ok (Glob.parse_inDirectory (hletters name hname))

/-- A path lies in a directory exactly when the name of that is one of its segments before the
last. -/
theorem isMatch_inDirectory_intercalate {dirs : List String} {name dir : String}
    (h : ∀ segment ∈ dirs ++ [name], '/' ∉ segment.toList) (hdir : '/' ∉ dir.toList) :
    Glob.isMatch (Glob.inDirectory dir.toList) ("/".intercalate (dirs ++ [name])) = true
      ↔ dir ∈ dirs := by
  have hcut : Path.splitOn '/' ("/".intercalate (dirs ++ [name])).toList
      = dirs.map String.toList ++ [name.toList] := by
    rw [Path.toList_intercalate, List.map_append]
    refine Path.splitOn_joinSlash (by simp) fun piece hpiece => ?_
    rw [← List.map_append] at hpiece
    obtain ⟨segment, hsegment, rfl⟩ := List.mem_map.1 hpiece
    exact h segment hsegment
  rw [Glob.isMatch_inDirectory hdir, hcut, List.dropLast_concat,
    List.mem_map_of_injective fun _ _ => String.toList_inj.1]

/-- **Component files.** The patterns for components can be read. They choose the files whose name
ends in one of the two extensions and that lie in no directory of one of the five names; the name
of the file itself may be one of them. -/
theorem isWanted_components {root name : String} {dirs : List String}
    (h : ∀ segment ∈ dirs ++ [name], '/' ∉ segment.toList) :
    ∃ includes excludes, readPatterns (Corpus.components root).includes = .ok includes
      ∧ readPatterns (Corpus.components root).excludes = .ok excludes
      ∧ (isWanted includes excludes ("/".intercalate (dirs ++ [name])) = true
        ↔ (".tsx".toList <:+ name.toList ∨ ".jsx".toList <:+ name.toList)
          ∧ ∀ dir ∈ dirs, dir ∉ ["node_modules", "build", "dist", ".next", "out"]) := by
  refine ⟨_, _, readPatterns_components root, readPatterns_generatedDirectories, ?_⟩
  have hends {s : List Char} (hs : '/' ∉ s) :
      s <:+ ("/".intercalate (dirs ++ [name])).toList ↔ s <:+ name.toList := by
    rw [Path.toList_intercalate, List.map_append]
    exact Path.suffix_joinSlash_concat_iff hs
  have hextension : Glob.isMatch (Glob.withExtensions "tsx".toList "jsx".toList)
      ("/".intercalate (dirs ++ [name])) = true
        ↔ ".tsx".toList <:+ name.toList ∨ ".jsx".toList <:+ name.toList := by
    rw [Glob.isMatch_withExtensions (by decide) (by decide)]
    exact or_congr (hends (by decide)) (hends (by decide))
  have hnames : ∀ dir ∈ generatedNames, '/' ∉ dir.toList := by decide
  have hdirectories : ((generatedNames.map fun dir => Glob.inDirectory dir.toList).any
      (Glob.isMatch · ("/".intercalate (dirs ++ [name])))) = false
        ↔ ∀ dir ∈ dirs, dir ∉ generatedNames := by
    rw [List.any_map, List.any_eq_false]
    constructor
    · intro hnone dir hdir hgenerated
      have hmatch := (isMatch_inDirectory_intercalate h (hnames dir hgenerated)).2 hdir
      exact hnone dir hgenerated hmatch
    · intro hnone dir hgenerated hmatch
      have hdir := (isMatch_inDirectory_intercalate h (hnames dir hgenerated)).1 hmatch
      exact hnone dir hdir hgenerated
  unfold isWanted
  rw [Bool.and_eq_true, Bool.not_eq_true', List.any_cons, List.any_nil, Bool.or_false, hextension,
    hdirectories]
  rfl

/-- A directory whose name contains one of the five, and a file that is named like one, are no
hindrance. -/
theorem isWanted_lookalikes :
    ∃ includes excludes, readPatterns (Corpus.components "app").includes = .ok includes
      ∧ readPatterns (Corpus.components "app").excludes = .ok excludes
      ∧ isWanted includes excludes "src/build-tools/out.tsx" = true := by
  obtain ⟨includes, excludes, hincludes, hexcludes, hwanted⟩ :=
    @isWanted_components "app" "out.tsx" ["src", "build-tools"] (by decide)
  exact ⟨includes, excludes, hincludes, hexcludes, hwanted.2 (by decide)⟩

end ContentGraph.Discovery
