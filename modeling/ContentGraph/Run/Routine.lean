import ContentGraph.Extraction
import ContentGraph.Store.Backend

/-!
# Routines

A routine asks for one thing at a time and goes on with the answer: the clock, the files of a
corpus, what a file yields, or a change of a store. So a run can be stopped between any two of its
steps, and its steps can stand between those of others.
-/

namespace ContentGraph

open Discovery (Candidate)

/-- What remains to be done until there is a result. -/
inductive Routine (α : Type)
  | done (result : α)
  | clock (next : Millis → Routine α)
  | discover (next : Except Discovery.Fault (List Candidate) → Routine α)
  | extract (file : Candidate) (next : Except SourceFault (Option Extraction) → Routine α)
  | change (change : Store.Change) (next : Except Store.Fault Unit → Routine α)

namespace Routine

/-- Goes on with the result of a routine. -/
def andThen {α β : Type} : Routine α → (α → Routine β) → Routine β
  | .done x, f => f x
  | .clock next, f => .clock fun t => (next t).andThen f
  | .discover next, f => .discover fun files => (next files).andThen f
  | .extract file next, f => .extract file fun x => (next x).andThen f
  | .change c next, f => .change c fun r => (next r).andThen f

instance : Monad Routine where
  pure := .done
  bind := andThen

/-! ## Asking -/

/-- Reads the clock. -/
def readClock : Routine Millis := .clock .done

/-- Lists the files of the corpus. -/
def listFiles : Routine (Except Discovery.Fault (List Candidate)) := .discover .done

/-- Extracts from a file. -/
def extractFrom (file : Candidate) : Routine (Except SourceFault (Option Extraction)) :=
  .extract file .done

/-- Changes the store. -/
def make (c : Store.Change) : Routine (Except Store.Fault Unit) := .change c .done

/-! ## Answering -/

variable {σ α : Type} [Store.Backend σ]

/-- Answers the next thing that a routine asks for, at a time. -/
def step (source : Extractor) (tree : FileTree) (now : Millis) : Routine α → σ → Routine α × σ
  | .done x, s => (.done x, s)
  | .clock next, s => (next now, s)
  | .discover next, s => (next (source.discover tree), s)
  | .extract file next, s => (next (source.extract tree now file), s)
  | .change c next, s =>
    let (r, s) := Store.Backend.change now c s
    (next r, s)

/-- Answers all that a routine asks for; `time` is the clock at each step. -/
def run (source : Extractor) (tree : FileTree) : Routine α → (Nat → Millis) → σ → α × σ
  | .done x, _, s => (x, s)
  | .clock next, time, s => run source tree (next (time 0)) (time ∘ (· + 1)) s
  | .discover next, time, s =>
    run source tree (next (source.discover tree)) (time ∘ (· + 1)) s
  | .extract file next, time, s =>
    run source tree (next (source.extract tree (time 0) file)) (time ∘ (· + 1)) s
  | .change c next, time, s =>
    let (r, s) := Store.Backend.change (time 0) c s
    run source tree (next r) (time ∘ (· + 1)) s

/-- Answers what a routine asks for until it is done or wants to extract without a permit. Every
extraction takes one; `none` stands for as many as are wanted. -/
def proceed (source : Extractor) (tree : FileTree) (now : Millis) :
    Routine α → Option Nat → σ → (Routine α × Option Nat) × σ
  | .done x, permits, s => ((.done x, permits), s)
  | .clock next, permits, s => proceed source tree now (next now) permits s
  | .discover next, permits, s =>
    proceed source tree now (next (source.discover tree)) permits s
  | .extract file next, some 0, s => ((.extract file next, some 0), s)
  | .extract file next, permits, s =>
    proceed source tree now (next (source.extract tree now file)) (permits.map (· - 1)) s
  | .change c next, permits, s =>
    let (r, s) := Store.Backend.change now c s
    proceed source tree now (next r) permits s

end Routine

end ContentGraph
