import ContentGraph.Proofs.Run.Prefixes
import ContentGraph.Proofs.Store.Sight

/-!
# What the outcome of a pass accounts for

Every step of a pass may fail: listing, extracting, and each change of the store. Main statement:
whatever fails, the outcome counts what was done, tells every error, and agrees with the ledger
(`accounts_of_run`). What files add to the counts is kept by each of their turns
(`FileTally.of_turn`), and edges only add errors of their own (`LinkTally.of_turn`).
-/

namespace ContentGraph

open Discovery (Candidate)
open Routine (Yields)
open Store (Backend Change)

/-- Holds for changes that ingest an asset. -/
def Store.Change.isIngest : Change → Bool
  | .ingest _ => true
  | _ => false

/-- Holds for changes of the ledger. -/
def Store.Change.isRecord : Change → Bool
  | .record _ _ => true
  | _ => false

/-- Only a ledger that can be read is ever told anything. -/
theorem Sight.readable_of_over {σ : Type} [Backend σ] (sight : Sight σ) {source : Extractor}
    {tree : FileTree} {T : Transcript} {s s' : σ} (h : Routine.Over source tree s T s')
    {t : Millis} {platform : String} {fields : Fields}
    (hmem : .changed t (.record platform fields) (.ok ()) ∈ T) :
    ∃ e, sight.ledger.seen s platform = .ok e := by
  induction h with
  | refl => exact absurd hmem List.not_mem_nil
  | @snoc T x s₁ s₂ hbefore hx ih =>
      rcases List.mem_append.1 hmem with hmem | hmem
      · exact ih hmem
      · cases List.mem_singleton.1 hmem
        cases hx with
        | changed hchange =>
            obtain ⟨e, he⟩ := sight.readable hchange
            cases hstart : sight.ledger.seen s platform with
            | ok old => exact ⟨old, rfl⟩
            | error fault =>
                -- what cannot be read at the start could not be read when it was told
                rw [sight.ledger.seen_of_over hbefore, replay_of_unreadable hstart] at he
                exact nomatch he

namespace Pass

variable {platform : String}

/-! ## The wording of errors -/

/-- Holds for messages that begin with a text. -/
def startsWith (start message : String) : Bool := start.toList.isPrefixOf message.toList

/-- Holds for the errors of files. -/
def isFileError : String → Bool := startsWith "Error processing"

/-- Holds for the errors of passes that fail. -/
def isFailure : String → Bool := startsWith "Extraction failed: "

/-- Whether a message begins with a text is seen in its first part, if that is long enough. -/
theorem startsWith_append (start first rest : String) :
    startsWith start (first ++ rest) = start.toList.isPrefixOf (first.toList ++ rest.toList) := by
  unfold startsWith
  rw [String.toList_append]

theorem isFileError_fileError (file : Candidate) (cause : String) :
    isFileError (fileError file cause) = true := by
  unfold isFileError fileError
  rw [String.append_assoc, String.append_assoc, startsWith_append]
  rfl

theorem isFailure_of_isFileError {message : String} (h : isFileError message = true) :
    isFailure message = false := by
  unfold isFileError startsWith at h
  obtain ⟨rest, hrest⟩ := List.isPrefixOf_iff_prefix.1 h
  unfold isFailure startsWith
  rw [← hrest]
  rfl

/-- Holds for the errors of edges. -/
def isLinkError : String → Bool := startsWith "Error linking "

theorem isLinkError_linkError (origin target cause : String) :
    isLinkError (linkError origin target cause) = true := by
  unfold isLinkError linkError
  rw [String.append_assoc, String.append_assoc, String.append_assoc, String.append_assoc,
    startsWith_append]
  rfl

theorem isLinkError_clearError (origin cause : String) :
    isLinkError (clearError origin cause) = true := by
  unfold isLinkError clearError
  rw [String.append_assoc, String.append_assoc, startsWith_append]
  rfl

/-- The error of an edge is neither one of a file nor one of the pass. -/
theorem not_fileError_of_isLinkError {message : String} (h : isLinkError message = true) :
    isFileError message = false ∧ isFailure message = false := by
  unfold isLinkError startsWith at h
  obtain ⟨rest, hrest⟩ := List.isPrefixOf_iff_prefix.1 h
  unfold isFileError isFailure startsWith
  rw [← hrest]
  exact ⟨rfl, rfl⟩

theorem isFileError_failure (cause : String) : isFileError (failure cause) = false := by
  unfold isFileError failure
  rw [startsWith_append]
  rfl

/-! ## Files -/

/-- What files have added to the counts: each is processed or has an error. -/
structure FileTally (total : Nat) (seen : List Candidate) (T : Transcript) (p : Progress) :
    Prop where
  total : p.report.totalFiles = total
  bounded : p.report.extractedComponents ≤ p.report.processedFiles
  processed : p.report.processedFiles + p.report.errors.length = seen.length
  errors : ∀ message ∈ p.report.errors, isFileError message = true
  ingests : p.report.extractedComponents = T.made.countP fun q => q.2.isIngest
  records : ∀ q ∈ T.made, q.2.isRecord = false

/-- Logging an error neither ingests nor records, whether or not it fails. -/
theorem made_logError (now : Millis) (message : String) (o : Except Store.Fault Unit) :
    (Transcript.made [.changed now (.logError platform message) o]).countP (fun q => q.2.isIngest)
        = 0
      ∧ ∀ q ∈ Transcript.made [.changed now (.logError platform message) o],
        q.2.isRecord = false := by
  cases o with
  | ok _ => exact ⟨rfl, List.forall_mem_singleton.2 rfl⟩
  | error e => exact ⟨rfl, fun _ h => absurd h List.not_mem_nil⟩

/-- A file that ends in an error. -/
theorem FileTally.error {total : Nat} {seen : List Candidate} {T T' : Transcript} {p : Progress}
    (h : FileTally total seen T p) (file : Candidate) {message : String}
    (hmessage : isFileError message = true)
    (hT : T'.made.countP (fun q => q.2.isIngest) = 0 ∧ ∀ q ∈ T'.made, q.2.isRecord = false) :
    FileTally total (seen ++ [file]) (T ++ T') { p with report := p.report.withError message } where
  total := h.total
  bounded := h.bounded
  processed := by
    show p.report.processedFiles + (p.report.errors ++ [message]).length = _
    rw [List.length_append, List.length_append, ← Nat.add_assoc, h.processed]
    rfl
  errors := List.forall_mem_append.2 ⟨h.errors, List.forall_mem_singleton.2 hmessage⟩
  ingests := by
    rw [Transcript.made_append, List.countP_append, hT.1]
    exact h.ingests
  records := by
    rw [Transcript.made_append]
    exact List.forall_mem_append.2 ⟨h.records, hT.2⟩

/-- **Files.** A turn of a file keeps the tally. -/
theorem FileTally.of_turn {total : Nat} {seen : List Candidate} {T T' : Transcript}
    {p p' : Progress} {file : Candidate} (h : FileTally total seen T p)
    (hturn : FileTurn platform p file T' p') : FileTally total (seen ++ [file]) (T ++ T') p' := by
  cases hturn with
  | unread => exact h.error file (isFileError_fileError _ _) (made_logError _ _ _)
  | unstored => exact h.error file (isFileError_fileError _ _) (made_logError _ _ _)
  | empty =>
      refine ⟨h.total, Nat.le_succ_of_le h.bounded, ?_, h.errors, ?_, ?_⟩
      · show p.report.processedFiles + 1 + p.report.errors.length = _
        rw [List.length_append, ← h.processed, Nat.add_right_comm]
        rfl
      · rw [Transcript.made_append]
        exact h.ingests.trans (congrArg _ (List.append_nil _).symm)
      · rw [Transcript.made_append]
        exact List.forall_mem_append.2 ⟨h.records, fun _ h => absurd h List.not_mem_nil⟩
  | stored =>
      refine ⟨h.total, Nat.succ_le_succ h.bounded, ?_, h.errors, ?_, ?_⟩
      · show p.report.processedFiles + 1 + p.report.errors.length = _
        rw [List.length_append, ← h.processed, Nat.add_right_comm]
        rfl
      · rw [Transcript.made_append, List.countP_append, ← h.ingests]
        rfl
      · rw [Transcript.made_append]
        exact List.forall_mem_append.2 ⟨h.records, List.forall_mem_singleton.2 rfl⟩

theorem FileTally.of_files {files : List Candidate} {p : Progress} {T : Transcript}
    (h : Yields (files.foldlM (processFile platform) { report.totalFiles := files.length }) T p) :
    FileTally files.length files T p := by
  refine Yields.foldlM_induction (P := FileTally files.length) ?_ ?_ h
  · exact ⟨rfl, Nat.le_refl 0, rfl, fun _ h => absurd h List.not_mem_nil, rfl,
      fun _ h => absurd h List.not_mem_nil⟩
  · exact fun _ _ _ _ _ _ hb hturn => hb.of_turn (yields_processFile hturn)

/-! ## Edges -/

/-- What edges have added to a report: errors of their own. -/
structure LinkTally (r : RunReport) (T : Transcript) (r' : RunReport) : Prop where
  report : ∃ more, r' = { r with errors := r.errors ++ more }
    ∧ ∀ message ∈ more, isLinkError message = true
  kinds : ∀ q ∈ T.made, q.2.isIngest = false ∧ q.2.isRecord = false

theorem LinkTally.refl (r : RunReport) {T : Transcript}
    (hT : ∀ q ∈ T.made, q.2.isIngest = false ∧ q.2.isRecord = false) : LinkTally r T r :=
  ⟨⟨[], by rw [List.append_nil], fun _ h => absurd h List.not_mem_nil⟩, hT⟩

theorem LinkTally.trans {r r' r'' : RunReport} {T T' : Transcript} (h : LinkTally r T r')
    (h' : LinkTally r' T' r'') : LinkTally r (T ++ T') r'' := by
  obtain ⟨⟨more, rfl, hmore⟩, hkinds⟩ := h
  obtain ⟨⟨more', rfl, hmore'⟩, hkinds'⟩ := h'
  refine ⟨⟨more ++ more', ?_, List.forall_mem_append.2 ⟨hmore, hmore'⟩⟩, ?_⟩
  · rw [← List.append_assoc]
  · rw [Transcript.made_append]
    exact List.forall_mem_append.2 ⟨hkinds, hkinds'⟩

/-- A change of edges that fails, with the error that is noted. -/
theorem LinkTally.error (r : RunReport) {c : Change} {e : Store.Fault} {message : String}
    (hmessage : isLinkError message = true) (t now : Millis) (o : Except Store.Fault Unit) :
    LinkTally r [.changed t c (.error e), .changed now (.logError platform message) o]
      (r.withError message) := by
  refine ⟨⟨[message], rfl, List.forall_mem_singleton.2 hmessage⟩, ?_⟩
  cases o with
  | ok _ => exact List.forall_mem_singleton.2 ⟨rfl, rfl⟩
  | error e => exact fun _ h => absurd h List.not_mem_nil

theorem LinkTally.of_linkTurn {origin target : String} {r r' : RunReport} {T : Transcript}
    (h : LinkTurn platform origin r target T r') : LinkTally r T r' := by
  cases h with
  | linked => exact .refl r (List.forall_mem_singleton.2 ⟨rfl, rfl⟩)
  | unlinked => exact .error r (isLinkError_linkError _ _ _) _ _ _

/-- **Edges.** The edges of an asset keep the counts. -/
theorem LinkTally.of_turn {holds : String → Bool} {entry : String × List String}
    {r r' : RunReport} {T : Transcript} (h : OriginTurn platform holds r entry T r') :
    LinkTally r T r' := by
  cases h with
  | uncleared => exact .error r (isLinkError_clearError _ _) _ _ _
  | @cleared t T r' links =>
      have hclear : LinkTally r [.changed t (.clear entry.1 importKind) (.ok ())] r :=
        .refl r (List.forall_mem_singleton.2 ⟨rfl, rfl⟩)
      refine hclear.trans (Yields.foldlM_induction (P := fun _ => LinkTally r) ?_ ?_ links)
      · exact .refl r fun _ h => absurd h List.not_mem_nil
      · exact fun _ _ _ _ _ _ hb hturn => hb.trans (.of_linkTurn (yields_linkTo hturn))

theorem LinkTally.of_links {holds : String → Bool} {entries : List (String × List String)}
    {r r' : RunReport} {T : Transcript}
    (h : Yields (entries.foldlM (linkFrom platform holds) r) T r') : LinkTally r T r' := by
  refine Yields.foldlM_induction (P := fun _ => LinkTally r) ?_ ?_ h
  · exact .refl r fun _ h => absurd h List.not_mem_nil
  · exact fun _ _ _ _ _ _ hb hturn => hb.trans (.of_turn (yields_linkFrom hturn))

/-! ## The ledger -/

/-- Without a change of the ledger what is read of it stays. -/
theorem replay_ledgerReadEffect {reread : Json → Option Json} {L : List (Millis × Change)}
    (h : ∀ q ∈ L, q.2.isRecord = false) (k : LedgerRead) :
    replay (ledgerReadEffect reread) L k = k := by
  refine replay_of_forall fun q hq => ledgerReadEffect_of_untouched reread q.1 q.2 k ?_
  rw [← h q hq]
  cases q.2 <;> rfl

/-- The keys that a pass writes to the ledger. -/
def ledgerKeys : List String :=
  ["lastExtraction", "totalFiles", "processedFiles", "extractedComponents", "errors", "duration"]

/-- What the ledger tells after a pass that it told something before. -/
structure Told (now : Millis) (r : RunReport) (old new : Fields) : Prop where
  lastExtraction : new.get? "lastExtraction" = some (.string now.iso)
  totalFiles : new.get? "totalFiles" = some (.ofNat r.totalFiles)
  processedFiles : new.get? "processedFiles" = some (.ofNat r.processedFiles)
  extractedComponents : new.get? "extractedComponents" = some (.ofNat r.extractedComponents)
  errors : new.get? "errors" = some (.ofNat r.errors.length)
  duration : new.get? "duration" = some (.ofNat r.duration)
  kept : ∀ key ∉ ledgerKeys, new.get? key = old.get? key

theorem told_merge (now : Millis) (r : RunReport) (old : Fields) :
    Told now r old (LedgerEntry.merge old (ledgerFields now r)) := by
  have hsorted : Fields.Sorted (ledgerFields now r) := Fields.sorted_ofList _
  have hmerge := LedgerEntry.get?_merge old hsorted
  have hwritten {key : String} {v : Json} (hkey : key ∉ LedgerEntry.reserved)
      (hv : Fields.get? key (ledgerFields now r) = some v) :
      Fields.get? key (LedgerEntry.merge old (ledgerFields now r)) = some v := by
    rw [hmerge, if_neg hkey, hv]
    rfl
  exact {
    lastExtraction := hwritten (by decide) ((Fields.get?_ofList _ _).trans rfl)
    totalFiles := hwritten (by decide) ((Fields.get?_ofList _ _).trans rfl)
    processedFiles := hwritten (by decide) ((Fields.get?_ofList _ _).trans rfl)
    extractedComponents := hwritten (by decide) ((Fields.get?_ofList _ _).trans rfl)
    errors := hwritten (by decide) ((Fields.get?_ofList _ _).trans rfl)
    duration := hwritten (by decide) ((Fields.get?_ofList _ _).trans rfl)
    kept := fun key hkey => by
      have hnone : Fields.get? key (ledgerFields now r) = none := by
        refine (Fields.get?_ofList _ _).trans ?_
        rw [lastWith_eq_none_iff.2 fun p hp hpk => ?_]
        · rfl
        · have hmem : p.1 ∈ ledgerKeys := List.mem_map_of_mem (f := Prod.fst) hp
          exact hkey (of_decide_eq_true hpk ▸ hmem)
      rw [hmerge, hnone]
      exact ite_self _ }

/-! ## Passes -/

/-- What is counted before the end of a pass: each file is processed or has an error. -/
structure Counted (total : Nat) (T : Transcript) (r : RunReport) : Prop where
  total : r.totalFiles = total
  bounded : r.extractedComponents ≤ r.processedFiles
  processed : r.processedFiles + r.errors.countP isFileError = r.totalFiles
  errors : ∀ message ∈ r.errors, isFailure message = false
  ingests : r.extractedComponents = T.made.countP fun q => q.2.isIngest
  records : ∀ q ∈ T.made, q.2.isRecord = false

theorem counted_of_tallies {files : List Candidate} {T₁ T₂ : Transcript} {p : Progress}
    {r : RunReport} (h₁ : FileTally files.length files T₁ p) (h₂ : LinkTally p.report T₂ r) :
    Counted files.length (T₁ ++ T₂) r := by
  obtain ⟨⟨more, rfl, hmore⟩, hkinds⟩ := h₂
  have hfiles : p.report.errors.countP isFileError = p.report.errors.length :=
    List.countP_eq_length.2 h₁.errors
  -- the errors of edges count neither as errors of files nor as failures
  have hedges : more.countP isFileError = 0 := List.countP_eq_zero.2 fun message hmem => by
    rw [(not_fileError_of_isLinkError (hmore message hmem)).1]
    exact Bool.false_ne_true
  refine ⟨h₁.total, h₁.bounded, ?_, ?_, ?_, ?_⟩
  · show p.report.processedFiles + (p.report.errors ++ more).countP isFileError
      = p.report.totalFiles
    rw [List.countP_append, hfiles, hedges, h₁.total]
    exact h₁.processed
  · exact List.forall_mem_append.2
      ⟨fun message hmem => isFailure_of_isFileError (h₁.errors message hmem),
        fun message hmem => (not_fileError_of_isLinkError (hmore message hmem)).2⟩
  · have hnone : T₂.made.countP (fun q => q.2.isIngest) = 0 :=
      List.countP_eq_zero.2 fun q hq => by
        rw [(hkinds q hq).1]
        exact Bool.false_ne_true
    rw [Transcript.made_append, List.countP_append, hnone]
    exact h₁.ingests
  · rw [Transcript.made_append]
    exact List.forall_mem_append.2 ⟨h₁.records, fun q hq => (hkinds q hq).2⟩

/-- The accounts of a pass: how its outcome, its transcript and what is read of the ledgers `before`
and `after` it agree. -/
structure Accounts (reread : Json → Option Json) (platform : String)
    (listing : Except Discovery.Fault (List Candidate)) (T : Transcript) (o : RunOutcome)
    (before after : LedgerRead) : Prop where
  total : ∀ files, listing = .ok files → o.report.totalFiles = files.length
  extracted_le : o.report.extractedComponents ≤ o.report.processedFiles
  processed_le : o.report.processedFiles ≤ o.report.totalFiles
  /-- The files that were not processed have an error each. -/
  unprocessed : o.report.totalFiles - o.report.processedFiles
    = o.report.errors.countP isFileError
  /-- The extracted components are the assets that were ingested. -/
  ingests : o.report.extractedComponents = T.made.countP fun q => q.2.isIngest
  /-- A pass completes if its files were listed and the ledger was written. -/
  completed : o.status = .completed
    ↔ (∃ files, listing = .ok files) ∧ ∃ q ∈ T.made, q.2.isRecord = true
  /-- Otherwise it fails, and the last error tells why. -/
  failed : o.status ≠ .completed → o.status = .failed ∧ ∃ errors cause,
    o.report.errors = errors ++ [failure cause] ∧ ∀ message ∈ errors, isFailure message = false
  /-- The ledger of a pass that completes could be read before. It is told the counts, and what is
  read of it is what is read of that. -/
  recorded : o.status = .completed → ∃ now t old told, .read now ∈ T ∧ before platform = .ok old
    ∧ Told now o.report ((old.map (·.fields)).getD []) told
    ∧ after platform = readEntry reread platform t told
    ∧ ∀ other, other ≠ platform → after other = before other
  unrecorded : o.status ≠ .completed → after = before
  /-- Without a listing nothing is asked of the store. -/
  unlisted : (∃ e, listing = .error e) → ∀ now c r, .changed now c r ∉ T

/-- A pass whose files cannot be listed. -/
theorem accounts_unlisted (reread : Json → Option Json) (platform : String) (started now : Millis)
    (e : Discovery.Fault) (k : LedgerRead) :
    Accounts reread platform (.error e) [.read started, .listed (.error e), .read now]
      (failed started now e.message {}) k k where
  total := nofun
  extracted_le := Nat.le_refl 0
  processed_le := Nat.le_refl 0
  unprocessed := by
    show 0 = List.countP isFileError [failure e.message]
    rw [List.countP_singleton, isFileError_failure]
    rfl
  ingests := rfl
  completed := ⟨nofun, fun ⟨⟨_, hfiles⟩, _⟩ => nomatch hfiles⟩
  failed _ := ⟨rfl, [], e.message, rfl, fun _ h => absurd h List.not_mem_nil⟩
  recorded := nofun
  unrecorded _ := rfl
  unlisted _ _ _ _ hmem := by simp at hmem

variable {reread : Json → Option Json} {files : List Candidate} {T W : Transcript} {r : RunReport}
  {k : LedgerRead}

/-- A pass whose last change is that of the ledger, which could be read. -/
theorem Counted.recorded (h : Counted files.length T r) {now t : Millis} {duration : Nat}
    (hmade : W.made = T.made ++ [(t, .record platform (ledgerFields now { r with duration }))])
    (hread : .read now ∈ W) {old : Option LedgerEntry} (hold : k platform = .ok old) :
    Accounts reread platform (.ok files) W ⟨true, { r with duration }⟩ k
      (replay (ledgerReadEffect reread) W.made k) := by
  have hprocessed := h.processed
  -- only the last change touches the ledger
  have hafter : replay (ledgerReadEffect reread) W.made k
      = ledgerReadEffect reread t (.record platform (ledgerFields now { r with duration })) k := by
    rw [hmade, replay_append, replay_ledgerReadEffect h.records]
    rfl
  have hentry := ledgerReadEffect_record reread t platform (ledgerFields now { r with duration }) k
  rw [hold] at hentry
  rw [hafter]
  refine ⟨fun _ h' => Except.ok.inj h' ▸ h.total, h.bounded, ?_, ?_, ?_, ?_,
    fun h => absurd rfl h, fun _ => ⟨now, t, old, _, hread, hold, ?_, hentry, fun other h => if_neg h⟩,
    fun h => absurd rfl h, nofun⟩
  · exact Nat.le.intro hprocessed
  · show r.totalFiles - r.processedFiles = r.errors.countP isFileError
    omega
  · rw [hmade, List.countP_append]
    exact h.ingests
  · rw [hmade]
    exact ⟨fun _ => ⟨⟨files, rfl⟩, _, List.mem_append_right _ List.mem_cons_self, rfl⟩,
      fun _ => rfl⟩
  · exact told_merge now _ _

/-- A pass that cannot update the ledger. -/
theorem Counted.unrecorded (h : Counted files.length T r) (started now : Millis) (cause : String)
    (duration : Nat) (hmade : W.made = T.made) :
    Accounts reread platform (.ok files) W (failed started now cause { r with duration }) k
      (replay (ledgerReadEffect reread) W.made k) := by
  have hprocessed := h.processed
  have herrors : (r.errors ++ [failure cause]).countP isFileError
      = r.errors.countP isFileError := by
    rw [List.countP_append, List.countP_singleton, isFileError_failure]
    rfl
  rw [hmade, replay_ledgerReadEffect h.records]
  refine ⟨fun _ h' => Except.ok.inj h' ▸ h.total, h.bounded, ?_, ?_, ?_, ?_,
    fun _ => ⟨rfl, r.errors, cause, rfl, h.errors⟩, nofun, fun _ => rfl, nofun⟩
  · exact Nat.le.intro hprocessed
  · show r.totalFiles - r.processedFiles = (r.errors ++ [failure cause]).countP isFileError
    rw [herrors]
    omega
  · rw [hmade]
    exact h.ingests
  · -- it did not complete, and no change of the ledger was made
    rw [hmade]
    refine ⟨nofun, fun ⟨_, q, hq, hrecord⟩ => ?_⟩
    rw [h.records q hq] at hrecord
    exact absurd hrecord Bool.false_ne_true

/-- Whatever course a pass takes, its outcome accounts for it. -/
theorem PassCourse.accounts {o : RunOutcome} (h : PassCourse platform T o)
    {listing : Except Discovery.Fault (List Candidate)}
    (hlisting : ∀ files, .listed files ∈ T → files = listing) (reread : Json → Option Json)
    (hreadable : ∀ t fields, .changed t (.record platform fields) (.ok ()) ∈ T →
      ∃ old, k platform = .ok old) :
    Accounts reread platform listing T o k (replay (ledgerReadEffect reread) T.made k) := by
  cases h with
  | @unlisted started e now =>
      obtain rfl := hlisting (.error e) (List.mem_cons_of_mem _ List.mem_cons_self)
      exact accounts_unlisted reread platform started now e k
  | @listed started files T₁ p T₂ r T₃ _ turns links last =>
      obtain rfl := hlisting (.ok files) (List.mem_cons_of_mem _ List.mem_cons_self)
      have hcounted := counted_of_tallies (FileTally.of_files turns) (LinkTally.of_links links)
      have hmade : Transcript.made (.read started :: .listed (.ok files) :: (T₁ ++ (T₂ ++ T₃)))
          = Transcript.made (T₁ ++ T₂) ++ T₃.made := by
        rw [← Transcript.made_append, List.append_assoc]
        rfl
      cases last with
      | @recorded now t =>
          obtain ⟨old, hold⟩ := hreadable t
            (ledgerFields now { r with duration := elapsed started now }) (by simp)
          exact hcounted.recorded hmade (by simp) hold
      | unrecorded =>
          exact hcounted.unrecorded started _ _ _ (hmade.trans (List.append_nil _))

/-- The first of two assets cannot be stored, and that error cannot be logged. -/
example :
    let source : Extractor := {
      platform := "docs", source := "docs", discover := fun _ => .ok [⟨"/a", "a"⟩, ⟨"/b", "b"⟩]
      extract := fun _ _ file =>
        .ok (some ⟨⟨file.relative, "", "", .asset, "docs", .untyped []⟩, []⟩) }
    let store : Flaky MemoryStore := ⟨{}, fun n => if n < 2 then some .unopened else none⟩
    ((routine "docs").run source {} (fun n => n) store).1 = ⟨true, {
      totalFiles := 2, processedFiles := 1, extractedComponents := 1
      errors := [fileError ⟨"/a", "a"⟩ Store.Fault.unopened.message], duration := 8 }⟩ := by
  rfl

end Pass

end ContentGraph
