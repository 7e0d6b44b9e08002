import ContentGraph.Discovery
import ContentGraph.Proofs.Except

/-!
# The order of discovered files

Files are added one by one in the order of their relative paths, so that a discovery lists no
relative path twice (`ordered_of_discover`) and each one that was added (`exists_mem_insertAll`).
-/

namespace ContentGraph.Discovery

/-- Files in strictly increasing order of their relative paths. -/
def Ordered (files : List Candidate) : Prop := files.Pairwise fun c d => c.relative < d.relative

/-! ## One file more -/

theorem mem_insert {c d : Candidate} {files : List Candidate} (h : d ∈ insert c files) :
    d = c ∨ d ∈ files := by
  induction files with
  | nil => exact .inl (List.mem_singleton.1 h)
  | cons e rest ih =>
      unfold insert at h
      split at h
      · exact List.mem_cons.1 h
      · split at h
        · exact .inr h
        · rcases List.mem_cons.1 h with rfl | h
          · exact .inr List.mem_cons_self
          · exact (ih h).imp_right (List.mem_cons_of_mem _)

theorem ordered_insert {c : Candidate} {files : List Candidate} (h : Ordered files) :
    Ordered (insert c files) := by
  induction files with
  | nil => exact List.pairwise_singleton _ _
  | cons d rest ih =>
      obtain ⟨hd, hrest⟩ := List.pairwise_cons.1 h
      unfold insert
      split
      · next hlt =>
        refine List.pairwise_cons.2 ⟨fun e he => ?_, h⟩
        rcases List.mem_cons.1 he with rfl | he
        · exact hlt
        · exact String.lt_trans hlt (hd e he)
      · next hge =>
        split
        · exact h
        · next hne =>
          have hlt : d.relative < c.relative :=
            Std.lt_of_le_of_ne (String.not_lt.1 hge) fun heq => hne heq.symm
          refine List.pairwise_cons.2 ⟨fun e he => ?_, ih hrest⟩
          rcases mem_insert he with rfl | he
          · exact hlt
          · exact hd e he

theorem mem_insert_of_mem {c d : Candidate} {files : List Candidate} (h : d ∈ files) :
    d ∈ insert c files := by
  induction files with
  | nil => cases h
  | cons e rest ih =>
      unfold insert
      split
      · exact List.mem_cons_of_mem _ h
      · split
        · exact h
        · rcases List.mem_cons.1 h with rfl | h
          · exact List.mem_cons_self
          · exact List.mem_cons_of_mem _ (ih h)

/-- A file is added, or there is one of its relative path. -/
theorem exists_mem_insert (c : Candidate) (files : List Candidate) :
    ∃ d ∈ insert c files, d.relative = c.relative := by
  induction files with
  | nil => exact ⟨c, List.mem_singleton.2 rfl, rfl⟩
  | cons e rest ih =>
      unfold insert
      split
      · exact ⟨c, List.mem_cons_self, rfl⟩
      · split
        · next heq => exact ⟨e, List.mem_cons_self, heq.symm⟩
        · obtain ⟨d, hd, heq⟩ := ih
          exact ⟨d, List.mem_cons_of_mem _ hd, heq⟩

/-! ## All files -/

section InsertAll

variable {entries out : List Candidate}

theorem ordered_insertAll (h : Ordered out) :
    Ordered (entries.foldl (fun out c => insert c out) out) := by
  induction entries generalizing out with
  | nil => exact h
  | cons c entries ih => exact ih (ordered_insert h)

theorem mem_of_mem_insertAll {d : Candidate}
    (h : d ∈ entries.foldl (fun out c => insert c out) out) : d ∈ entries ∨ d ∈ out := by
  induction entries generalizing out with
  | nil => exact .inr h
  | cons c entries ih =>
      rcases ih h with h | h
      · exact .inl (List.mem_cons_of_mem _ h)
      · rcases mem_insert h with rfl | h
        · exact .inl List.mem_cons_self
        · exact .inr h

theorem mem_insertAll_of_mem {d : Candidate} (entries : List Candidate) (h : d ∈ out) :
    d ∈ entries.foldl (fun out c => insert c out) out := by
  induction entries generalizing out with
  | nil => exact h
  | cons c entries ih => exact ih (mem_insert_of_mem h)

/-- Of each relative path that is added there is a file. -/
theorem exists_mem_insertAll (out : List Candidate) {c : Candidate} (h : c ∈ entries) :
    ∃ d ∈ entries.foldl (fun out c => insert c out) out, d.relative = c.relative := by
  induction entries generalizing out with
  | nil => cases h
  | cons e entries ih =>
      rcases List.mem_cons.1 h with rfl | h
      · obtain ⟨d, hd, heq⟩ := exists_mem_insert c out
        exact ⟨d, mem_insertAll_of_mem entries hd, heq⟩
      · exact ih (insert e out) h

end InsertAll

/-- **Discovery.** No two files that are found have one relative path. -/
theorem ordered_of_discover {tree : FileTree} {corpus : Corpus} {files : List Candidate}
    (h : discover tree corpus = .ok files) : Ordered files := by
  unfold discover at h
  split at h
  · exact nomatch h
  · obtain ⟨includes, -, h⟩ := Except.exists_of_bind h
    obtain ⟨excludes, -, h⟩ := Except.exists_of_bind h
    split at h
    · exact nomatch h
    · next entries _ =>
      obtain rfl := Except.ok.inj h
      exact ordered_insertAll .nil

end ContentGraph.Discovery
