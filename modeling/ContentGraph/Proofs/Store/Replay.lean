import ContentGraph.Proofs.Store.View

/-!
# What changes add up to

The effect of many changes told at once: under an id stands what was ingested last
(`replay_assetEffect`), the log has grown by what was logged (`replay_errorEffect`), and edges that
are replaced asset by asset are those of the last replacement (`mem_foldl_relink`).
-/

namespace ContentGraph

open Store (Change)

theorem replay_append {κ : Type} (effect : Millis → Change → κ → κ)
    (L L' : List (Millis × Change)) (k : κ) :
    replay effect (L ++ L') k = replay effect L' (replay effect L k) := List.foldl_append

/-- Changes without effect, one after another, have none. -/
theorem replay_of_forall {κ : Type} {effect : Millis → Change → κ → κ}
    {L : List (Millis × Change)} {k : κ} (h : ∀ p ∈ L, effect p.1 p.2 k = k) :
    replay effect L k = k := by
  induction L with
  | nil => rfl
  | cons p L ih =>
      obtain ⟨hp, hL⟩ := List.forall_mem_cons.1 h
      show replay effect L (effect p.1 p.2 k) = k
      rw [hp]
      exact ih hL

/-- The effect on the contents is that on each part. -/
theorem replay_contents (L : List (Millis × Change)) (k : Contents) :
    replay Contents.effect L k
      = ⟨replay assetEffect L k.assets, replay edgeEffect L k.edges,
        replay errorEffect L k.errors⟩ := by
  induction L generalizing k with
  | nil => rfl
  | cons p L ih => exact ih (Contents.effect p.1 p.2 k)

/-! ## Last ones -/

/-- The last of a list for which something holds. -/
def lastWith {α : Type} (p : α → Bool) (xs : List α) : Option α := (xs.filter p).getLast?

theorem lastWith_cons {α : Type} (p : α → Bool) (x : α) (xs : List α) :
    lastWith p (x :: xs) = (lastWith p xs).or (if p x = true then some x else none) := by
  unfold lastWith
  by_cases hp : p x = true
  · rw [List.filter_cons_of_pos hp, List.getLast?_cons, if_pos hp]
    cases (xs.filter p).getLast? <;> rfl
  · rw [List.filter_cons_of_neg hp, if_neg hp, Option.or_none]

theorem lastWith_map {α β : Type} (p : β → Bool) (f : α → β) (xs : List α) :
    lastWith p (xs.map f) = (lastWith (fun x => p (f x)) xs).map f := by
  unfold lastWith
  rw [List.filter_map, List.getLast?_map]
  rfl

theorem lastWith_eq_none_iff {α : Type} {p : α → Bool} {xs : List α} :
    lastWith p xs = none ↔ ∀ x ∈ xs, ¬p x = true := by
  unfold lastWith
  rw [List.getLast?_eq_none_iff, List.filter_eq_nil_iff]

/-! ## Assets -/

/-- An asset that was ingested, with the time. -/
def ingested? : Millis × Change → Option (Millis × Asset)
  | (now, .ingest a) => some (now, a)
  | _ => none

/-- What is read under an id when assets have been ingested over what was read before. -/
def readLast (ingests : List (Millis × Asset)) (k : AssetsSeen) : AssetsSeen := fun id =>
  match lastWith (fun p => decide (p.2.id = id)) ingests with
  | some (now, a) => (a.readBack now).map some
  | none => k id

theorem readLast_cons (p : Millis × Asset) (ingests : List (Millis × Asset)) (k : AssetsSeen) :
    readLast (p :: ingests) k = readLast ingests (assetEffect p.1 (.ingest p.2) k) := by
  obtain ⟨now, a⟩ := p
  funext id
  unfold readLast
  rw [lastWith_cons]
  cases lastWith (fun p => decide (p.2.id = id)) ingests with
  | some _ => rfl
  | none =>
      -- nothing later covers the first ingestion
      by_cases hid : a.id = id
      · rw [if_pos (decide_eq_true hid)]
        exact (if_pos hid.symm).symm
      · rw [if_neg fun h => hid (of_decide_eq_true h)]
        exact (if_neg fun h => hid h.symm).symm

/-- **Assets.** Where nothing is removed, under each id stands what was ingested last. -/
theorem replay_assetEffect {L : List (Millis × Change)} (k : AssetsSeen)
    (h : ∀ p ∈ L, ∀ id, p.2 ≠ .remove id) :
    replay assetEffect L k = readLast (L.filterMap ingested?) k := by
  induction L generalizing k with
  | nil => rfl
  | cons p L ih =>
      obtain ⟨now, c⟩ := p
      obtain ⟨hc, hL⟩ := List.forall_mem_cons.1 h
      show replay assetEffect L (assetEffect now c k) = _
      rw [ih _ hL]
      cases c with
      | ingest a => exact (readLast_cons (now, a) _ k).symm
      | remove id => exact absurd rfl (hc id)
      | record _ _ => rfl
      | relate _ => rfl
      | clear _ _ => rfl
      | logError _ _ => rfl

/-! ## The log -/

/-- What was logged. -/
def logged? : Millis × Change → Option LoggedError
  | (now, .logError platform message) => some ⟨platform, message, now⟩
  | _ => none

/-- **Log.** The log grows by what is logged. -/
theorem replay_errorEffect (L : List (Millis × Change)) (errors : List LoggedError) :
    replay errorEffect L errors = errors ++ L.filterMap logged? := by
  induction L generalizing errors with
  | nil => exact (List.append_nil errors).symm
  | cons p L ih =>
      obtain ⟨now, c⟩ := p
      show replay errorEffect L (errorEffect now c errors) = _
      rw [ih]
      cases c with
      | logError platform message =>
          show (errors ++ [_]) ++ _ = errors ++ (_ :: _)
          rw [List.append_assoc]
          rfl
      | _ => rfl

/-! ## Edges -/

/-- Holds for the import edges that leave an asset. -/
def Edge.isImportOf (origin : String) (e : Edge) : Bool := e.origin == origin && e.kind == importKind

/-- Adds an import edge, unless it is there. -/
def addImport (origin : String) (edges : List Edge) (target : String) : List Edge :=
  edgeEffect 0 (.relate ⟨origin, target, importKind⟩) edges

/-- Replaces the import edges of an asset by those to targets that hold. -/
def relink (holds : String → Bool) (edges : List Edge) (entry : String × List String) : List Edge :=
  (entry.2.filter holds).foldl (addImport entry.1) (edgeEffect 0 (.clear entry.1 importKind) edges)

theorem isImportOf_iff {origin : String} {e : Edge} :
    e.isImportOf origin = true ↔ e.origin = origin ∧ e.kind = importKind := by
  unfold Edge.isImportOf
  rw [Bool.and_eq_true, beq_iff_eq, beq_iff_eq]

theorem mem_relate (now : Millis) {edges : List Edge} {e e' : Edge} :
    e ∈ edgeEffect now (.relate e') edges ↔ e ∈ edges ∨ e = e' := by
  show e ∈ (if e' ∈ edges then edges else edges ++ [e']) ↔ _
  split
  · next hmem => exact ⟨.inl, fun h => h.elim (fun he => he) fun he => he ▸ hmem⟩
  · rw [List.mem_append, List.mem_singleton]

theorem mem_addImport {origin target : String} {edges : List Edge} {e : Edge} :
    e ∈ addImport origin edges target ↔ e ∈ edges ∨ e = ⟨origin, target, importKind⟩ := mem_relate 0

theorem mem_foldl_addImport {origin : String} {targets : List String} {edges : List Edge}
    {e : Edge} :
    e ∈ targets.foldl (addImport origin) edges
      ↔ e ∈ edges ∨ (e.isImportOf origin = true ∧ e.target ∈ targets) := by
  induction targets generalizing edges with
  | nil => simp only [List.foldl_nil, List.not_mem_nil, and_false, or_false]
  | cons target targets ih =>
      rw [List.foldl_cons, ih, mem_addImport, List.mem_cons, isImportOf_iff, or_assoc]
      constructor
      · rintro (h | rfl | ⟨h, ht⟩)
        · exact .inl h
        · exact .inr ⟨⟨rfl, rfl⟩, .inl rfl⟩
        · exact .inr ⟨h, .inr ht⟩
      · rintro (h | ⟨h, rfl | ht⟩)
        · exact .inl h
        · obtain ⟨o, t, k⟩ := e
          obtain ⟨rfl, rfl⟩ := h
          exact .inr (.inl rfl)
        · exact .inr (.inr ⟨h, ht⟩)

/-- The import edges of an asset whose edges were replaced are the new ones; other edges stay. -/
theorem mem_relink {holds : String → Bool} {edges : List Edge} {entry : String × List String}
    {e : Edge} :
    e ∈ relink holds edges entry ↔
      if e.isImportOf entry.1 = true then e.target ∈ entry.2 ∧ holds e.target = true
      else e ∈ edges := by
  have hclear : e ∈ edgeEffect 0 (.clear entry.1 importKind) edges
      ↔ e ∈ edges ∧ ¬e.isImportOf entry.1 = true := by
    show e ∈ edges.filter (fun e => !e.isImportOf entry.1) ↔ _
    rw [List.mem_filter, Bool.not_eq_true', Bool.not_eq_true]
  unfold relink
  rw [mem_foldl_addImport, hclear, List.mem_filter]
  by_cases he : e.isImportOf entry.1 = true
  · simp only [he, not_true_eq_false, and_false, true_and, false_or, if_true]
  · simp only [he, not_false_eq_true, and_true, Bool.false_eq_true, false_and, or_false, if_false]

/-- **Edges.** When the import edges of assets are replaced one after another, those of an asset are
the ones of its last replacement. -/
theorem mem_foldl_relink {holds : String → Bool} {entries : List (String × List String)}
    {edges : List Edge} {e : Edge} :
    e ∈ entries.foldl (relink holds) edges ↔
      match lastWith (fun entry => e.isImportOf entry.1) entries with
      | some entry => e.target ∈ entry.2 ∧ holds e.target = true
      | none => e ∈ edges := by
  induction entries generalizing edges with
  | nil => rfl
  | cons entry entries ih =>
      rw [List.foldl_cons, ih, lastWith_cons]
      -- a later replacement hides this one
      cases lastWith (fun entry => e.isImportOf entry.1) entries with
      | some _ => rfl
      | none =>
          show e ∈ relink holds edges entry ↔ _
          rw [mem_relink]
          by_cases he : e.isImportOf entry.1 = true
          · rw [if_pos he, if_pos he]
            rfl
          · rw [if_neg he, if_neg he]
            rfl

/-- Replacing the import edges of an asset keeps the others, in their order. -/
theorem filter_relink {holds : String → Bool} {entry : String × List String} {p : Edge → Bool}
    (h : ∀ e : Edge, e.isImportOf entry.1 = true → p e = false) (edges : List Edge) :
    (relink holds edges entry).filter p = edges.filter p := by
  have hclear : (edgeEffect 0 (.clear entry.1 importKind) edges).filter p = edges.filter p := by
    show (edges.filter fun e => !e.isImportOf entry.1).filter p = _
    rw [List.filter_filter]
    refine List.filter_congr fun e _ => ?_
    cases he : e.isImportOf entry.1 with
    | true => rw [h e he, Bool.false_and]
    | false => rw [Bool.not_false, Bool.and_true]
  have hadd : ∀ (targets : List String) (edges : List Edge),
      (targets.foldl (addImport entry.1) edges).filter p = edges.filter p := by
    intro targets
    induction targets with
    | nil => intro edges; rfl
    | cons target targets ih =>
        intro edges
        rw [List.foldl_cons, ih]
        show (if _ ∈ edges then edges else edges ++ [_]).filter p = _
        split
        · rfl
        · -- an edge that is added is an import edge of the asset
          have hnew : ¬p ⟨entry.1, target, importKind⟩ = true := by
            rw [h _ (isImportOf_iff.2 ⟨rfl, rfl⟩)]
            exact Bool.false_ne_true
          rw [List.filter_append, List.filter_cons_of_neg hnew]
          exact List.append_nil _
  unfold relink
  rw [hadd, hclear]

theorem filter_foldl_relink {holds : String → Bool} {entries : List (String × List String)}
    {p : Edge → Bool} (h : ∀ entry ∈ entries, ∀ e : Edge, e.isImportOf entry.1 = true → p e = false)
    (edges : List Edge) : (entries.foldl (relink holds) edges).filter p = edges.filter p := by
  induction entries generalizing edges with
  | nil => rfl
  | cons entry entries ih =>
      obtain ⟨hentry, hentries⟩ := List.forall_mem_cons.1 h
      rw [List.foldl_cons, ih hentries, filter_relink hentry]

end ContentGraph
