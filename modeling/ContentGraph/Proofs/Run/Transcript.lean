import ContentGraph.Run.Routine

/-!
# Transcripts of routines

What a routine asked for and what it was answered, in order. A routine *yields* a result over a
transcript when it asks for just that and is answered so, whoever answers (`Yields`). Main
statements: a run yields its result over its own transcript (`yields_transcript`); what runs one
after the other yields over the parts of the transcript (`Yields.andThen`); and what each turn of a
loop keeps holds at its end (`Yields.foldlM_induction`).
-/

namespace ContentGraph

open Discovery (Candidate)
open Store (Change)

/-- Something that a routine asked for, with the answer. -/
inductive Exchange
  | read (now : Millis)
  | listed (files : Except Discovery.Fault (List Candidate))
  | extracted (file : Candidate) (outcome : Except SourceFault (Option Extraction))
  | changed (now : Millis) (change : Change) (outcome : Except Store.Fault Unit)

namespace Exchange

/-- The change that was made, with its time. -/
def made? : Exchange → Option (Millis × Change)
  | .changed now c (.ok ()) => some (now, c)
  | _ => none

/-- What a file yielded. -/
def extraction? : Exchange → Option Extraction
  | .extracted _ (.ok x) => x
  | _ => none

end Exchange

/-- What was asked for and answered, in order. -/
abbrev Transcript := List Exchange

namespace Transcript

/-- The changes that were made. -/
def made (T : Transcript) : List (Millis × Change) := T.filterMap Exchange.made?

/-- What the files yielded. -/
def extractions (T : Transcript) : List Extraction := T.filterMap Exchange.extraction?

@[simp] theorem made_append (T T' : Transcript) : made (T ++ T') = made T ++ made T' :=
  List.filterMap_append

@[simp] theorem extractions_append (T T' : Transcript) :
    extractions (T ++ T') = extractions T ++ extractions T' := List.filterMap_append

/-- Holds when no change fails. -/
def NoFault (T : Transcript) : Prop := ∀ now c e, Exchange.changed now c (.error e) ∉ T

theorem NoFault.cons {T : Transcript} {x : Exchange} (h : NoFault T)
    (hx : ∀ {now c e}, x ≠ .changed now c (.error e)) : NoFault (x :: T) :=
  fun now c e hmem => (List.mem_cons.1 hmem).elim (fun heq => hx heq.symm) (h now c e)

theorem NoFault.of_cons {T : Transcript} {x : Exchange} (h : NoFault (x :: T)) : NoFault T :=
  fun now c e hmem => h now c e (List.mem_cons_of_mem _ hmem)

theorem NoFault.left {T T' : Transcript} (h : NoFault (T ++ T')) : NoFault T :=
  fun now c e hmem => h now c e (List.mem_append_left _ hmem)

theorem NoFault.right {T T' : Transcript} (h : NoFault (T ++ T')) : NoFault T' :=
  fun now c e hmem => h now c e (List.mem_append_right _ hmem)

/-- Where no change fails, each is made. -/
theorem NoFault.eq_ok {T : Transcript} (h : NoFault T) {now : Millis} {c : Change}
    {o : Except Store.Fault Unit} (hmem : Exchange.changed now c o ∈ T) : o = .ok () := by
  cases o with
  | ok _ => rfl
  | error e => exact absurd hmem (h now c e)

end Transcript

namespace Routine

variable {σ α β γ : Type}

/-- The transcript of a run; `time` is the clock at each step. -/
def transcript [Store.Backend σ] (source : Extractor) (tree : FileTree) :
    Routine α → (Nat → Millis) → σ → Transcript
  | .done _, _, _ => []
  | .clock next, time, s =>
    .read (time 0) :: transcript source tree (next (time 0)) (time ∘ (· + 1)) s
  | .discover next, time, s =>
    let files := source.discover tree
    .listed files :: transcript source tree (next files) (time ∘ (· + 1)) s
  | .extract file next, time, s =>
    let outcome := source.extract tree (time 0) file
    .extracted file outcome :: transcript source tree (next outcome) (time ∘ (· + 1)) s
  | .change c next, time, s =>
    let (r, s) := Store.Backend.change (time 0) c s
    .changed (time 0) c r :: transcript source tree (next r) (time ∘ (· + 1)) s

/-- Holds when a routine asks for what stands in a transcript and, so answered, has a result. -/
inductive Yields : Routine α → Transcript → α → Prop
  | done (x : α) : Yields (.done x) [] x
  | clock {next : Millis → Routine α} {now : Millis} {T : Transcript} {x : α}
      (h : Yields (next now) T x) : Yields (.clock next) (.read now :: T) x
  | discover {next : Except Discovery.Fault (List Candidate) → Routine α}
      {files : Except Discovery.Fault (List Candidate)} {T : Transcript} {x : α}
      (h : Yields (next files) T x) : Yields (.discover next) (.listed files :: T) x
  | extract {file : Candidate} {next : Except SourceFault (Option Extraction) → Routine α}
      {outcome : Except SourceFault (Option Extraction)} {T : Transcript} {x : α}
      (h : Yields (next outcome) T x) : Yields (.extract file next) (.extracted file outcome :: T) x
  | change {c : Change} {next : Except Store.Fault Unit → Routine α} {now : Millis}
      {r : Except Store.Fault Unit} {T : Transcript} {x : α} (h : Yields (next r) T x) :
      Yields (.change c next) (.changed now c r :: T) x

/-- **Runs.** A run yields its result over its transcript. -/
theorem yields_transcript [Store.Backend σ] (source : Extractor) (tree : FileTree)
    (r : Routine α) (time : Nat → Millis) (s : σ) :
    Yields r (r.transcript source tree time s) (r.run source tree time s).1 := by
  induction r generalizing time s with
  | done x => exact .done x
  | clock next ih => exact .clock (ih _ _ _)
  | discover next ih => exact .discover (ih _ _ _)
  | extract file next ih => exact .extract (ih _ _ _)
  | change c next ih => exact .change (ih _ _ _)

/-- A result that is there is yielded without asking. -/
theorem Yields.of_pure {x y : α} {T : Transcript} (h : Yields (pure x : Routine α) T y) :
    T = [] ∧ y = x := by
  cases h with
  | done => exact ⟨rfl, rfl⟩

/-! Each question stands in the transcript with its answer. -/

theorem Yields.of_readClock {T : Transcript} {now : Millis} (h : Yields readClock T now) :
    T = [.read now] := by
  cases h with
  | clock h => obtain ⟨rfl, rfl⟩ := h.of_pure; rfl

theorem Yields.of_listFiles {T : Transcript} {files : Except Discovery.Fault (List Candidate)}
    (h : Yields listFiles T files) : T = [.listed files] := by
  cases h with
  | discover h => obtain ⟨rfl, rfl⟩ := h.of_pure; rfl

theorem Yields.of_extractFrom {file : Candidate} {T : Transcript}
    {outcome : Except SourceFault (Option Extraction)} (h : Yields (extractFrom file) T outcome) :
    T = [.extracted file outcome] := by
  cases h with
  | extract h => obtain ⟨rfl, rfl⟩ := h.of_pure; rfl

theorem Yields.of_make {c : Change} {T : Transcript} {o : Except Store.Fault Unit}
    (h : Yields (make c) T o) : ∃ now, T = [.changed now c o] := by
  cases h with
  | change h => obtain ⟨rfl, rfl⟩ := h.of_pure; exact ⟨_, rfl⟩

/-- **Sequences.** What goes on with a result yields over the rest of the transcript. -/
theorem Yields.andThen {r : Routine α} {f : α → Routine β} {T : Transcript} {y : β}
    (h : Yields (r >>= f) T y) :
    ∃ T₁ T₂ x, T = T₁ ++ T₂ ∧ Yields r T₁ x ∧ Yields (f x) T₂ y := by
  induction r generalizing T with
  | done x => exact ⟨[], T, x, rfl, .done x, h⟩
  | clock next ih =>
      cases h with
      | clock h =>
          obtain ⟨T₁, T₂, x, rfl, h₁, h₂⟩ := ih _ h
          exact ⟨_, T₂, x, rfl, .clock h₁, h₂⟩
  | discover next ih =>
      cases h with
      | discover h =>
          obtain ⟨T₁, T₂, x, rfl, h₁, h₂⟩ := ih _ h
          exact ⟨_, T₂, x, rfl, .discover h₁, h₂⟩
  | extract file next ih =>
      cases h with
      | extract h =>
          obtain ⟨T₁, T₂, x, rfl, h₁, h₂⟩ := ih _ h
          exact ⟨_, T₂, x, rfl, .extract h₁, h₂⟩
  | change c next ih =>
      cases h with
      | change h =>
          obtain ⟨T₁, T₂, x, rfl, h₁, h₂⟩ := ih _ h
          exact ⟨_, T₂, x, rfl, .change h₁, h₂⟩

/-- **Loops.** What holds before a loop and is kept by each turn holds after it. -/
theorem Yields.foldlM_induction {step : β → γ → Routine β} {P : List γ → Transcript → β → Prop}
    {b b' : β} {xs : List γ} {T : Transcript} (start : P [] [] b)
    (turn : ∀ seen x T T' b b', P seen T b → Yields (step b x) T' b' →
      P (seen ++ [x]) (T ++ T') b')
    (h : Yields (xs.foldlM step b) T b') : P xs T b' := by
  -- The turns that are left are taken from where the ones before have led.
  have rest : ∀ xs seen T₀ b T, P seen T₀ b → Yields (xs.foldlM step b) T b' →
      P (seen ++ xs) (T₀ ++ T) b' := by
    intro xs
    induction xs with
    | nil =>
        intro seen T₀ b T hb h
        obtain ⟨rfl, rfl⟩ := h.of_pure
        rw [List.append_nil, List.append_nil]
        exact hb
    | cons x xs ih =>
        intro seen T₀ b T hb h
        rw [List.foldlM_cons] at h
        obtain ⟨T₁, T₂, c, rfl, h₁, h₂⟩ := h.andThen
        have hc := ih (seen ++ [x]) (T₀ ++ T₁) c T₂ (turn _ _ _ _ _ _ hb h₁) h₂
        rwa [List.append_assoc, List.append_assoc] at hc
  exact rest xs [] [] b T start h

end Routine

end ContentGraph
