import ContentGraph.Component.Link
import ContentGraph.Proofs.Path.Pieces
import Mathlib.Algebra.Ring.Int.Defs
import Mathlib.Data.List.Infix
import Mathlib.Logic.Relation

/-!
# Resolved module names

A relative module name continues the directory of the importing file. What it means is told by
rewriting: pieces that lead nowhere are dropped, and a name goes together with two dots behind it,
until only names are left (`NormalForm`). Main statement: a module name is resolved to its normal
form, and only a name that is not relative, or that leads above the root at some point, is not
resolved (`resolveRelative_exact`). So a file is found by the names that lead up to a common
directory and down to it (`wayTo`).
-/

namespace ContentGraph.Component

open ContentGraph.Path

/-! ## Normal forms -/

/-- Pieces of a path with some taken away that do not matter. -/
inductive Shortens : List (List Char) → List (List Char) → Prop
  /-- Nothing and one dot lead nowhere. -/
  | stay (front : List (List Char)) {piece : List Char} (h : piece = [] ∨ piece = ['.'])
      (rest : List (List Char)) : Shortens (front ++ piece :: rest) (front ++ rest)
  /-- Two dots lead out of the directory that is named before them. -/
  | back (front : List (List Char)) {name : List Char} (h : IsName name)
      (rest : List (List Char)) : Shortens (front ++ name :: ['.', '.'] :: rest) (front ++ rest)

/-- Names that are left of pieces. -/
structure NormalForm (pieces names : List (List Char)) : Prop where
  shortens : Relation.ReflTransGen Shortens pieces names
  isName : ∀ name ∈ names, IsName name

/-- How far a piece leads down. -/
def descent (piece : List Char) : Int :=
  if piece = [] ∨ piece = ['.'] then 0 else if piece = ['.', '.'] then -1 else 1

/-- Holds when some of the first pieces lead above the root from a directory of a depth. -/
def Climbs (depth : Nat) (pieces : List (List Char)) : Prop :=
  ∃ front, front <+: pieces ∧ depth + (front.map descent).sum < 0

instance (depth : Nat) (pieces : List (List Char)) : Decidable (Climbs depth pieces) :=
  decidable_of_iff (∃ front ∈ pieces.inits, depth + (front.map descent).sum < 0) <|
    exists_congr fun front => and_congr_left' (List.mem_inits front pieces)

/-- Holds for module names that start from the directory of the file. -/
def IsRelative (specifier : List Char) : Prop :=
  "./".toList <+: specifier ∨ "../".toList <+: specifier

/-- The module name that leads up so many directories and down along names. -/
def wayTo (up : Nat) (names : List (List Char)) : List Char :=
  (if up = 0 then "./".toList else (List.replicate up "../".toList).flatten) ++ joinSlash names

theorem isRelative_iff {specifier : List Char} :
    isRelative specifier = true ↔ IsRelative specifier := by
  unfold isRelative IsRelative
  rw [Bool.or_eq_true, List.isPrefixOf_iff_prefix, List.isPrefixOf_iff_prefix]
  exact Iff.rfl

/-! ## Steps -/

section Steps

variable {dir dir' pieces names : List (List Char)} {piece : List Char}

theorem stepFrom?_stay (h : piece = [] ∨ piece = ['.']) : stepFrom? dir piece = some dir := if_pos h

theorem stepFrom?_name (h : IsName piece) : stepFrom? dir piece = some (piece :: dir) := by
  unfold stepFrom?
  rw [if_neg (not_or.2 ⟨h.ne_nil, h.ne_dot⟩), if_neg h.ne_dots]

theorem stepFrom?_back (name : List Char) : stepFrom? (name :: dir) ['.', '.'] = some dir := rfl

theorem descent_name (h : IsName piece) : descent piece = 1 := by
  unfold descent
  rw [if_neg (not_or.2 ⟨h.ne_nil, h.ne_dot⟩), if_neg h.ne_dots]

/-- A piece without slashes leads nowhere, leads up or is a name. -/
theorem piece_cases (h : '/' ∉ piece) :
    (piece = [] ∨ piece = ['.']) ∨ piece = ['.', '.'] ∨ IsName piece := by
  by_cases hstay : piece = [] ∨ piece = ['.']
  · exact .inl hstay
  · by_cases hup : piece = ['.', '.']
    · exact .inr (.inl hup)
    · obtain ⟨hnil, hdot⟩ := not_or.1 hstay
      exact .inr (.inr ⟨hnil, hdot, hup, h⟩)

theorem stepsFrom?_append (dir front rest : List (List Char)) :
    stepsFrom? dir (front ++ rest) = (stepsFrom? dir front).bind fun dir => stepsFrom? dir rest := by
  induction front generalizing dir with
  | nil => rfl
  | cons piece front ih =>
      show ((stepFrom? dir piece).bind fun dir => stepsFrom? dir (front ++ rest)) = _
      simp only [ih]
      exact (Option.bind_assoc _ _ _).symm

/-- Names lead down. -/
theorem stepsFrom?_names (h : ∀ name ∈ names, IsName name) (dir : List (List Char)) :
    stepsFrom? dir names = some (names.reverse ++ dir) := by
  induction names generalizing dir with
  | nil => rfl
  | cons name names ih =>
      obtain ⟨hname, hnames⟩ := List.forall_mem_cons.1 h
      show ((stepFrom? dir name).bind fun dir => stepsFrom? dir names) = _
      rw [stepFrom?_name hname, Option.bind_some, ih hnames, List.reverse_cons, List.append_assoc]
      rfl

/-- What does not matter leads to the same place. -/
theorem stepsFrom?_of_shortens {pieces' : List (List Char)} (h : Shortens pieces pieces')
    (dir : List (List Char)) : stepsFrom? dir pieces = stepsFrom? dir pieces' := by
  cases h with
  | stay front h rest =>
      rw [stepsFrom?_append, stepsFrom?_append]
      refine congrArg _ (funext fun dir => ?_)
      show ((stepFrom? dir _).bind fun dir => stepsFrom? dir rest) = _
      rw [stepFrom?_stay h, Option.bind_some]
  | back front h rest =>
      rw [stepsFrom?_append, stepsFrom?_append]
      refine congrArg _ (funext fun dir => ?_)
      show ((stepFrom? dir _).bind fun dir => (stepFrom? dir _).bind fun dir => stepsFrom? dir rest) = _
      rw [stepFrom?_name h, Option.bind_some, stepFrom?_back, Option.bind_some]

/-- Pieces lead to their normal form. -/
theorem NormalForm.stepsFrom?_eq (h : NormalForm pieces names) :
    stepsFrom? [] pieces = some names.reverse := by
  have hsame : stepsFrom? [] pieces = stepsFrom? [] names := by
    have hshortens := h.shortens
    clear h
    induction hshortens with
    | refl => rfl
    | tail _ hstep ih => exact ih.trans (stepsFrom?_of_shortens hstep [])
  rw [hsame, stepsFrom?_names h.isName, List.append_nil]

/-- The place where steps from a directory lead is the normal form of the directory and the
pieces. -/
theorem normalForm_of_stepsFrom? (hdir : ∀ name ∈ dir, IsName name)
    (hpieces : ∀ piece ∈ pieces, '/' ∉ piece) (h : stepsFrom? dir pieces = some dir') :
    NormalForm (dir.reverse ++ pieces) dir'.reverse := by
  induction pieces generalizing dir with
  | nil =>
      obtain rfl := Option.some.inj h
      rw [List.append_nil]
      exact ⟨.refl, fun name hname => hdir name (List.mem_reverse.1 hname)⟩
  | cons piece pieces ih =>
      obtain ⟨hpiece, hrest⟩ := List.forall_mem_cons.1 hpieces
      obtain ⟨next, hstep, hsteps⟩ := Option.bind_eq_some_iff.1 h
      obtain hstay | rfl | hname := piece_cases hpiece
      · obtain rfl := Option.some.inj ((stepFrom?_stay hstay).symm.trans hstep)
        have hform := ih hdir hrest hsteps
        exact ⟨.head (.stay _ hstay _) hform.shortens, hform.isName⟩
      · cases dir with
        | nil => exact nomatch hstep
        | cons name up =>
            obtain ⟨hname, hup⟩ := List.forall_mem_cons.1 hdir
            obtain rfl := Option.some.inj hstep
            have hform := ih hup hrest hsteps
            rw [List.reverse_cons, List.append_assoc]
            exact ⟨.head (.back _ hname _) hform.shortens, hform.isName⟩
      · obtain rfl := Option.some.inj ((stepFrom?_name hname).symm.trans hstep)
        have hform := ih (List.forall_mem_cons.2 ⟨hname, hdir⟩) hrest hsteps
        rwa [List.reverse_cons, List.append_assoc] at hform

/-- The first piece leads above the root, or what is behind it does from where it leads. -/
theorem climbs_cons {depth : Nat} {piece : List Char} :
    Climbs depth (piece :: pieces)
      ↔ ∃ front, front <+: pieces ∧ depth + (descent piece + (front.map descent).sum) < 0 := by
  unfold Climbs
  constructor
  · rintro ⟨front, hfront, hclimb⟩
    obtain rfl | ⟨front, rfl, hrest⟩ := List.prefix_cons_iff.1 hfront
    · simp only [List.map_nil, List.sum_nil] at hclimb
      omega
    · exact ⟨front, hrest, by simpa only [List.map_cons, List.sum_cons] using hclimb⟩
  · rintro ⟨front, hfront, hclimb⟩
    exact ⟨piece :: front, List.prefix_cons_iff.2 (.inr ⟨front, rfl, hfront⟩),
      by simpa only [List.map_cons, List.sum_cons] using hclimb⟩

/-- Steps lead nowhere when some of the first pieces lead above the root. -/
theorem stepsFrom?_eq_none_iff (hpieces : ∀ piece ∈ pieces, '/' ∉ piece) :
    stepsFrom? dir pieces = none ↔ Climbs dir.length pieces := by
  induction pieces generalizing dir with
  | nil =>
      refine iff_of_false (Option.some_ne_none dir) ?_
      rintro ⟨front, hfront, hclimb⟩
      rw [List.prefix_nil.1 hfront, List.map_nil, List.sum_nil] at hclimb
      omega
  | cons piece pieces ih =>
      obtain ⟨hpiece, hrest⟩ := List.forall_mem_cons.1 hpieces
      rw [climbs_cons]
      show ((stepFrom? dir piece).bind fun dir => stepsFrom? dir pieces) = none ↔ _
      obtain hstay | rfl | hname := piece_cases hpiece
      · have hlevel : descent piece = 0 := if_pos hstay
        rw [stepFrom?_stay hstay, Option.bind_some, ih hrest, hlevel]
        simp only [Int.zero_add]
        exact Iff.rfl
      · have hlevel : descent ['.', '.'] = -1 := rfl
        rw [hlevel]
        cases dir with
        | nil => exact iff_of_true rfl ⟨[], List.nil_prefix, by decide⟩
        | cons name up =>
            rw [stepFrom?_back, Option.bind_some, ih hrest]
            refine exists_congr fun front => and_congr_right fun _ => ?_
            rw [List.length_cons]
            omega
      · rw [stepFrom?_name hname, Option.bind_some, ih hrest, descent_name hname]
        refine exists_congr fun front => and_congr_right fun _ => ?_
        rw [List.length_cons]
        omega

end Steps

/-! ## Resolution -/

section Resolution

variable {importer : List Char}

/-- The names of the directory of a file. -/
def directoryOf (importer : List Char) : List (List Char) := (splitOn '/' importer).dropLast

theorem isName_of_mem_directoryOf (h : ∀ piece ∈ splitOn '/' importer, IsName piece) :
    ∀ name ∈ directoryOf importer, IsName name :=
  fun name hname => h name (List.dropLast_subset _ hname)

theorem resolveRelative_eq (importer : List Char) {specifier : List Char}
    (h : IsRelative specifier) :
    resolveRelative importer specifier
      = (stepsFrom? (directoryOf importer).reverse (splitOn '/' specifier)).map
        fun names => joinSlash names.reverse := by
  unfold resolveRelative directoryOf
  rw [if_pos (isRelative_iff.2 h), List.tail_reverse]

theorem resolveRelative_of_not_relative (importer : List Char) {specifier : List Char}
    (h : ¬IsRelative specifier) : resolveRelative importer specifier = none :=
  if_neg (mt isRelative_iff.1 h)

/-- Nothing but a way above the root keeps a relative name from being resolved. -/
theorem resolveRelative_eq_none_iff {specifier : List Char} :
    resolveRelative importer specifier = none
      ↔ ¬IsRelative specifier
        ∨ Climbs (directoryOf importer).length (splitOn '/' specifier) := by
  by_cases h : IsRelative specifier
  · rw [resolveRelative_eq importer h, Option.map_eq_none_iff,
      stepsFrom?_eq_none_iff fun _ => not_mem_of_mem_splitOn, List.length_reverse]
    exact (or_iff_right (not_not_intro h)).symm
  · exact iff_of_true (resolveRelative_of_not_relative importer h) (.inl h)

/-- A relative name is resolved to the normal form of the way that it tells. -/
theorem resolveRelative_eq_some_iff (himporter : ∀ piece ∈ splitOn '/' importer, IsName piece)
    {specifier path : List Char} :
    resolveRelative importer specifier = some path
      ↔ IsRelative specifier
        ∧ ∃ names, NormalForm (directoryOf importer ++ splitOn '/' specifier) names
          ∧ path = joinSlash names := by
  have hdir := isName_of_mem_directoryOf himporter
  by_cases h : IsRelative specifier
  · rw [resolveRelative_eq importer h, Option.map_eq_some_iff]
    constructor
    · rintro ⟨place, hsteps, rfl⟩
      have hform := normalForm_of_stepsFrom? (fun name hname => hdir name (List.mem_reverse.1 hname))
        (fun _ => not_mem_of_mem_splitOn) hsteps
      rw [List.reverse_reverse] at hform
      exact ⟨h, _, hform, rfl⟩
    · rintro ⟨-, names, hform, rfl⟩
      have hsteps := hform.stepsFrom?_eq
      rw [stepsFrom?_append, stepsFrom?_names hdir, List.append_nil, Option.bind_some] at hsteps
      exact ⟨names.reverse, hsteps, by rw [List.reverse_reverse]⟩
  · rw [resolveRelative_of_not_relative importer h]
    exact iff_of_false (Option.some_ne_none path).symm fun hrelative => h hrelative.1

/-- What a name is resolved to is the root or a path of names. -/
theorem names_of_resolveRelative (himporter : ∀ piece ∈ splitOn '/' importer, IsName piece)
    {specifier path : List Char} (h : resolveRelative importer specifier = some path) :
    ∃ names, path = joinSlash names ∧ ∀ name ∈ names, IsName name := by
  obtain ⟨-, names, hform, rfl⟩ := (resolveRelative_eq_some_iff himporter).1 h
  exact ⟨names, rfl, hform.isName⟩

/-! ## Ways -/

theorem isRelative_wayTo (up : Nat) (names : List (List Char)) : IsRelative (wayTo up names) := by
  unfold wayTo
  cases up with
  | zero => exact .inl (List.prefix_append _ _)
  | succ up =>
      rw [if_neg (Nat.succ_ne_zero up), List.replicate_succ, List.flatten_cons, List.append_assoc]
      exact .inr (List.prefix_append _ _)

/-- The pieces of a way lead up and then along what the names are joined to. -/
theorem splitOn_wayTo (up : Nat) (names : List (List Char)) :
    splitOn '/' (wayTo up names)
      = (if up = 0 then [['.']] else List.replicate up ['.', '.'])
        ++ splitOn '/' (joinSlash names) := by
  have hdots (s : List Char) : ∀ up : Nat,
      splitOn '/' ((List.replicate up "../".toList).flatten ++ s)
        = List.replicate up ['.', '.'] ++ splitOn '/' s := by
    intro up
    induction up with
    | zero => rfl
    | succ up ih =>
        rw [List.replicate_succ, List.flatten_cons, List.append_assoc]
        show splitOn '/' (['.', '.'] ++ '/' :: (_ ++ s)) = _
        rw [splitOn_append_slash (by decide), ih]
        rfl
  unfold wayTo
  by_cases hup : up = 0
  · rw [if_pos hup, if_pos hup]
    have hdot : '/' ∉ ['.'] := by decide
    exact splitOn_append_slash hdot _
  · rw [if_neg hup, if_neg hup]
    exact hdots _ up

theorem stepsFrom?_up (below dir : List (List Char)) :
    stepsFrom? (below ++ dir) (List.replicate below.length ['.', '.']) = some dir := by
  induction below with
  | nil => rfl
  | cons name below ih => exact ih

theorem stepsFrom?_joined {names : List (List Char)} (h : ∀ name ∈ names, IsName name)
    (dir : List (List Char)) :
    stepsFrom? dir (splitOn '/' (joinSlash names)) = some (names.reverse ++ dir) := by
  by_cases hne : names = []
  · subst hne
    rfl
  · rw [splitOn_joinSlash hne fun name hname => (h name hname).noSlash, stepsFrom?_names h]

/-- The way up to a common directory and down along names leads there. -/
theorem resolveRelative_wayTo {common below names : List (List Char)}
    (hdir : directoryOf importer = common ++ below) (hnames : ∀ name ∈ names, IsName name) :
    resolveRelative importer (wayTo below.length names) = some (joinSlash (common ++ names)) := by
  rw [resolveRelative_eq importer (isRelative_wayTo _ _), splitOn_wayTo, stepsFrom?_append, hdir,
    List.reverse_append]
  have hup : stepsFrom? (below.reverse ++ common.reverse)
      (if below.length = 0 then [['.']] else List.replicate below.length ['.', '.'])
        = some common.reverse := by
    by_cases hbelow : below.length = 0
    · rw [if_pos hbelow, List.eq_nil_of_length_eq_zero hbelow]
      rfl
    · rw [if_neg hbelow]
      have hsteps := stepsFrom?_up below.reverse common.reverse
      rwa [List.length_reverse] at hsteps
  rw [hup, Option.bind_some, stepsFrom?_joined hnames, Option.map_some, List.reverse_append,
    List.reverse_reverse, List.reverse_reverse]

/-- **Resolution.** A module name in a file is not resolved just when it is not relative or leads
above the root at some point, even if it comes back. Otherwise it is resolved to the normal form of
the file's directory with the pieces of the name behind it, which is the root or a path of names.
The way from the file to any place, up to a directory that both are in and down along names, is
resolved to that place. -/
theorem resolveRelative_exact (himporter : ∀ piece ∈ splitOn '/' importer, IsName piece) :
    (∀ specifier,
      (resolveRelative importer specifier = none
        ↔ ¬IsRelative specifier
          ∨ Climbs (directoryOf importer).length (splitOn '/' specifier))
      ∧ (∀ path, resolveRelative importer specifier = some path
        ↔ IsRelative specifier
          ∧ ∃ names, NormalForm (directoryOf importer ++ splitOn '/' specifier) names
            ∧ path = joinSlash names)
      ∧ ∀ path, resolveRelative importer specifier = some path →
        path = [] ∨ ∀ piece ∈ splitOn '/' path, IsName piece)
    ∧ ∀ common below names, directoryOf importer = common ++ below →
      (∀ name ∈ names, IsName name) →
      resolveRelative importer (wayTo below.length names) = some (joinSlash (common ++ names)) := by
  refine ⟨fun specifier => ⟨resolveRelative_eq_none_iff,
    fun path => resolveRelative_eq_some_iff himporter, fun path hpath => ?_⟩,
    fun common below names hdir hnames => resolveRelative_wayTo hdir hnames⟩
  obtain ⟨names, rfl, hnames⟩ := names_of_resolveRelative himporter hpath
  exact joinSlash_names hnames

/-- From a file in a directory one name wanders and comes back, one leaves the root on its way, and
one tells the way. -/
theorem resolveRelative_exact_sectionsHero :
    (∀ piece ∈ splitOn '/' "sections/Hero.tsx".toList, IsName piece)
      ∧ resolveRelative "sections/Hero.tsx".toList "../ui/./forms//../Button".toList
        = some "ui/Button".toList
      ∧ resolveRelative "sections/Hero.tsx".toList "../../sections/Title".toList = none
      ∧ resolveRelative "sections/Hero.tsx".toList "../ui/Button".toList
        = some "ui/Button".toList := by
  have himporter : ∀ piece ∈ splitOn '/' "sections/Hero.tsx".toList, IsName piece := by decide
  obtain ⟨hresolved, hway⟩ := resolveRelative_exact himporter
  refine ⟨himporter, ?_, ?_, hway [] ["sections".toList] ["ui".toList, "Button".toList] rfl (by decide)⟩
  · refine ((hresolved _).2.1 _).2 ⟨.inr (by decide), ["ui".toList, "Button".toList], ⟨?_, by decide⟩, rfl⟩
    have hsections : IsName "sections".toList := by decide
    have hforms : IsName "forms".toList := by decide
    refine .head (.back [] hsections _) ?_
    refine .head (.stay ["ui".toList] (.inr rfl) _) ?_
    refine .head (.stay ["ui".toList, "forms".toList] (.inl rfl) _) ?_
    exact .single (.back ["ui".toList] hforms _)
  · exact (hresolved _).1.2 (.inr ⟨[['.', '.'], ['.', '.']], by decide, by decide⟩)

end Resolution

end ContentGraph.Component
