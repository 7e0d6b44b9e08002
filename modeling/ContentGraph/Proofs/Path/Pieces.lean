import ContentGraph.Path.Basic

/-!
# Pieces of paths

A path is cut at its slashes, and pieces without slashes that are joined are cut again
(`splitOn_joinSlash`). Pieces that stand for a file or a directory are names (`IsName`).
-/

namespace ContentGraph.Path

/-- Holds for pieces that are names of files or directories: they are neither empty nor dots. -/
structure IsName (piece : List Char) : Prop where
  ne_nil : piece ≠ []
  ne_dot : piece ≠ ['.']
  ne_dots : piece ≠ ['.', '.']
  noSlash : '/' ∉ piece

instance (piece : List Char) : Decidable (IsName piece) :=
  decidable_of_iff (piece ≠ [] ∧ piece ≠ ['.'] ∧ piece ≠ ['.', '.'] ∧ '/' ∉ piece)
    ⟨fun ⟨hnil, hdot, hdots, hslash⟩ => ⟨hnil, hdot, hdots, hslash⟩,
      fun h => ⟨h.ne_nil, h.ne_dot, h.ne_dots, h.noSlash⟩⟩

/-- A name stays one when an extension is added. -/
theorem IsName.withExtension {name extension : List Char} (h : IsName name)
    (hlong : 2 ≤ extension.length) (hslash : '/' ∉ extension) :
    IsName (name ++ '.' :: extension) := by
  have hlength : 4 ≤ (name ++ '.' :: extension).length := by
    have := List.length_pos_iff.2 h.ne_nil
    rw [List.length_append, List.length_cons]
    omega
  have hne {s : List Char} (hs : s.length < 4) : name ++ '.' :: extension ≠ s := by
    rintro rfl
    omega
  refine ⟨hne (by decide), hne (by decide), hne (by decide), fun hmem => ?_⟩
  rcases List.mem_append.1 hmem with hmem | hmem
  · exact h.noSlash hmem
  · rcases List.mem_cons.1 hmem with hdot | hmem
    · exact absurd hdot (by decide)
    · exact hslash hmem

/-! ## Cutting -/

/-- A path is cut as lists are. -/
theorem splitOn_eq {α : Type} [DecidableEq α] (mark : α) (s : List α) :
    splitOn mark s = s.splitOn mark := by
  induction s with
  | nil => exact (List.splitOn_nil mark).symm
  | cons c s ih =>
      unfold splitOn
      rw [List.splitOn_cons_eq_if_modifyHead, ih]
      by_cases hc : c = mark
      · rw [if_pos hc, if_pos (beq_iff_eq.2 hc)]
      · rw [if_neg hc, if_neg (mt beq_iff_eq.1 hc)]
        cases h : s.splitOn mark with
        | nil => exact absurd h (List.splitOn_ne_nil mark s)
        | cons piece rest => rfl

/-- A piece is not cut further. -/
theorem not_mem_of_mem_splitOn {α : Type} [DecidableEq α] {mark : α} {s piece : List α}
    (h : piece ∈ splitOn mark s) : mark ∉ piece := by
  induction s generalizing piece with
  | nil =>
      obtain rfl := List.mem_singleton.1 h
      exact List.not_mem_nil
  | cons c s ih =>
      unfold splitOn at h
      split at h
      · rcases List.mem_cons.1 h with rfl | h
        · exact List.not_mem_nil
        · exact ih h
      · next hc =>
        have hne : mark ≠ c := fun heq => hc heq.symm
        split at h
        · next first rest hcut =>
          rw [hcut] at ih
          rcases List.mem_cons.1 h with rfl | h
          · exact List.not_mem_cons_of_ne_of_not_mem hne (ih List.mem_cons_self)
          · exact ih (List.mem_cons_of_mem _ h)
        · obtain rfl := List.mem_singleton.1 h
          exact List.not_mem_cons_of_ne_of_not_mem hne List.not_mem_nil

/-- Up to a slash stands the first piece. -/
theorem splitOn_append_slash {piece : List Char} (h : '/' ∉ piece) (s : List Char) :
    splitOn '/' (piece ++ '/' :: s) = piece :: splitOn '/' s := by
  rw [splitOn_eq, splitOn_eq]
  exact List.splitOn_append_cons_self_of_not_mem h s

/-- A piece before the last one stands before a mark, in front or behind a mark. -/
theorem exists_of_mem_dropLast {α : Type} (mark : α) {piece : List α} {pieces : List (List α)}
    (h : piece ∈ pieces.dropLast) :
    ∃ u v, [mark].intercalate pieces = u ++ (piece ++ mark :: v)
      ∧ (u = [] ∨ ∃ p, u = p ++ [mark]) := by
  induction pieces with
  | nil => cases h
  | cons first rest ih =>
      cases rest with
      | nil => cases h
      | cons second rest =>
          rw [List.dropLast_cons_of_ne_nil (List.cons_ne_nil _ _)] at h
          rw [List.intercalate_cons_cons]
          rcases List.mem_cons.1 h with rfl | h
          · exact ⟨[], [mark].intercalate (second :: rest), by simp, .inl rfl⟩
          · obtain ⟨u, v, hrest, hu⟩ := ih h
            refine ⟨first ++ mark :: u, v, by rw [hrest]; simp, .inr ?_⟩
            rcases hu with rfl | ⟨p, rfl⟩
            · exact ⟨first, rfl⟩
            · exact ⟨first ++ mark :: p, by simp⟩

theorem mem_dropLast_splitOn_iff {α : Type} [DecidableEq α] {mark : α} {piece s : List α}
    (h : mark ∉ piece) :
    piece ∈ (splitOn mark s).dropLast
      ↔ ∃ u v, s = u ++ (piece ++ mark :: v) ∧ (u = [] ∨ ∃ p, u = p ++ [mark]) := by
  rw [splitOn_eq]
  constructor
  · intro hmem
    have := exists_of_mem_dropLast mark hmem
    rwa [List.intercalate_splitOn] at this
  · rintro ⟨u, v, rfl, hu⟩
    have hcut : (piece ++ mark :: v).splitOn mark = piece :: v.splitOn mark :=
      List.splitOn_append_cons_self_of_not_mem h v
    have hlast (front : List (List α)) :
        piece ∈ (front ++ piece :: v.splitOn mark).dropLast := by
      rw [List.dropLast_append_of_ne_nil (List.cons_ne_nil _ _),
        List.dropLast_cons_of_ne_nil (List.splitOn_ne_nil _ _)]
      exact List.mem_append_right _ List.mem_cons_self
    rcases hu with rfl | ⟨p, rfl⟩
    · rw [List.nil_append, hcut]
      exact hlast []
    · rw [List.append_assoc, List.singleton_append, List.splitOn_append_cons_self, hcut]
      exact hlast _

/-! ## Joining -/

theorem joinSlash_singleton (piece : List Char) : joinSlash [piece] = piece := by
  simp [joinSlash]

theorem joinSlash_cons_cons (piece next : List Char) (rest : List (List Char)) :
    joinSlash (piece :: next :: rest) = piece ++ '/' :: joinSlash (next :: rest) := by
  simp [joinSlash]

/-- Pieces are joined to the first one, each behind a slash. -/
theorem joinSlash_cons (piece : List Char) (rest : List (List Char)) :
    joinSlash (piece :: rest) = piece ++ rest.flatMap ('/' :: ·) := by
  induction rest generalizing piece with
  | nil => rw [joinSlash_singleton, List.flatMap_nil, List.append_nil]
  | cons next rest ih => rw [joinSlash_cons_cons, ih next, List.flatMap_cons, List.cons_append]

/-- A piece is joined behind others with a slash before it. -/
theorem joinSlash_concat {pieces : List (List Char)} (h : pieces ≠ []) (piece : List Char) :
    joinSlash (pieces ++ [piece]) = joinSlash pieces ++ '/' :: piece := by
  induction pieces with
  | nil => exact absurd rfl h
  | cons first rest ih =>
      cases rest with
      | nil =>
          rw [List.singleton_append, joinSlash_cons_cons, joinSlash_singleton, joinSlash_singleton]
      | cons second rest =>
          rw [List.cons_append, List.cons_append, joinSlash_cons_cons, joinSlash_cons_cons,
            ← List.cons_append, ih (List.cons_ne_nil _ _), List.append_assoc]
          rfl

/-- What is added to a path is added to its last name. -/
theorem joinSlash_concat_append (place : List (List Char)) (last s : List Char) :
    joinSlash (place ++ [last]) ++ s = joinSlash (place ++ [last ++ s]) := by
  by_cases hplace : place = []
  · subst hplace
    rw [List.nil_append, List.nil_append, joinSlash_singleton, joinSlash_singleton]
  · rw [joinSlash_concat hplace, joinSlash_concat hplace, List.append_assoc, List.cons_append]

/-- What has no slash and ends a path ends its last piece. -/
theorem suffix_joinSlash_concat_iff {pieces : List (List Char)} {last s : List Char}
    (h : '/' ∉ s) : s <:+ joinSlash (pieces ++ [last]) ↔ s <:+ last := by
  by_cases hpieces : pieces = []
  · rw [hpieces, List.nil_append, joinSlash_singleton]
  · rw [joinSlash_concat hpieces]
    have hlast : '/' :: last <:+ joinSlash pieces ++ '/' :: last := List.suffix_append _ _
    constructor
    · intro hs
      rcases List.suffix_or_suffix_of_suffix hs hlast with hs | hs
      · rcases List.suffix_cons_iff.1 hs with rfl | hs
        · exact absurd List.mem_cons_self h
        · exact hs
      · exact absurd (hs.subset List.mem_cons_self) h
    · intro hs
      exact (hs.trans (List.suffix_cons _ _)).trans hlast

/-- Texts are joined as their characters are. -/
theorem toList_intercalate (names : List String) :
    ("/".intercalate names).toList = joinSlash (names.map String.toList) :=
  String.toList_intercalate

/-- Pieces that are joined are cut again. -/
theorem splitOn_joinSlash {pieces : List (List Char)} (hne : pieces ≠ [])
    (h : ∀ piece ∈ pieces, '/' ∉ piece) : splitOn '/' (joinSlash pieces) = pieces := by
  rw [splitOn_eq]
  exact List.splitOn_intercalate '/' h hne

/-- Joined names are the root or a path of names. -/
theorem joinSlash_names {names : List (List Char)} (h : ∀ name ∈ names, IsName name) :
    joinSlash names = [] ∨ ∀ piece ∈ splitOn '/' (joinSlash names), IsName piece := by
  by_cases hne : names = []
  · exact .inl (by rw [hne]; rfl)
  · rw [splitOn_joinSlash hne fun name hname => (h name hname).noSlash]
    exact .inr h

/-- A path of names does not start at the top of the file system. -/
theorem isAbsolute_joinSlash {names : List (List Char)} (h : ∀ name ∈ names, IsName name) :
    isAbsolute (joinSlash names) = false := by
  cases names with
  | nil => rfl
  | cons first rest =>
      obtain ⟨c, s, rfl⟩ := List.exists_cons_of_ne_nil (h first List.mem_cons_self).ne_nil
      have hc : c ≠ '/' := fun heq =>
        (h (c :: s) List.mem_cons_self).noSlash (heq ▸ List.mem_cons_self)
      have hhead : (joinSlash ((c :: s) :: rest)).head? = some c := by
        cases rest with
        | nil => rw [joinSlash_singleton]; rfl
        | cons second rest => rw [joinSlash_cons_cons]; rfl
      simp [isAbsolute, hhead, hc]

theorem IsName.isAbsolute {name : List Char} (h : IsName name) : isAbsolute name = false := by
  have := isAbsolute_joinSlash fun piece hpiece => (List.mem_singleton.1 hpiece).symm ▸ h
  rwa [joinSlash_singleton] at this

/-- What a base puts in front of relative paths is the same for all of them. -/
theorem exists_join (base : List Char) :
    ∃ front, ∀ path, isAbsolute path = false → join base path = front ++ path := by
  by_cases hbase : base.isEmpty || base.getLast? == some '/'
  · refine ⟨base, fun path hpath => ?_⟩
    unfold join
    rw [if_neg (Bool.eq_false_iff.1 hpath), if_pos hbase]
  · refine ⟨base ++ ['/'], fun path hpath => ?_⟩
    unfold join
    rw [if_neg (Bool.eq_false_iff.1 hpath), if_neg hbase, List.append_assoc]
    rfl

end ContentGraph.Path
