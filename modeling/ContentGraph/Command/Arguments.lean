import ContentGraph.Asset.Filters
import ContentGraph.Text.Digit
import ContentGraph.Word

/-!
# Arguments of the command line

A verb, what it is about, and options. An option is written `--name value` or `--name=value`, once
at most; behind a bare `--` every word stands for itself. The settings file can be named before or
behind the verb, and behind it counts.
-/

namespace ContentGraph

/-- What a user asks for. -/
inductive Command
  /-- Make the tables of the store. -/
  | init
  /-- Extract from the corpus of a platform, or of all. -/
  | extract (platform : String)
  | search (query : String) (filters : Filters)
  /-- Show an asset. -/
  | get (id : String)
  | remove (id : String)
  /-- Show the health of the store and the ledgers of a platform or of all. -/
  | status (platform : Option String)
  | serve
deriving Repr, DecidableEq

namespace Command

/-- A command and the path of the settings file. -/
structure Invocation where
  settings : String
  command : Command
deriving Repr, DecidableEq

/-- Why there is no command to carry out. -/
inductive Stop
  /-- The arguments make no sense. -/
  | misuse
  | help
  | version
deriving Repr, DecidableEq

/-- The path of the settings file where none is named. -/
def defaultSettings : String := "./config/kh.toml"

/-- The size of a page where none is given. -/
def defaultLimit : Nat := 10

/-! ## Words -/

/-- The words behind a verb. -/
structure Words where
  plain : List String := []
  options : List (String × String) := []
deriving Repr, DecidableEq

/-- The value of an option. -/
def Words.option? (name : String) (w : Words) : Option String := w.options.lookup name

/-- Adds an option that is not there. The path of the settings file is not empty. -/
def Words.add (name value : String) (w : Words) : Except Stop Words :=
  if (w.option? name).isSome || (name = "config" && value.isEmpty) then .error .misuse
  else .ok { w with options := w.options ++ [(name, value)] }

/-- Holds for words that are read as options. -/
def isOption (word : String) : Bool :=
  match word.toList with
  | '-' :: _ :: _ => true
  | _ => false

/-- What a word is. -/
inductive Word
  | plain
  /-- A long option, with the value behind its equals sign. -/
  | long (name : String) (value : Option String)
  /-- A short option, or several of them in one word; the first is told. -/
  | short (letter : Char)
deriving Repr, DecidableEq

/-- Classifies a word. -/
def Word.ofString (word : String) : Word :=
  match word.toList with
  | '-' :: '-' :: s =>
    let name := String.ofList (s.takeWhile (· != '='))
    match s.dropWhile (· != '=') with
    | _ :: value => .long name (some (String.ofList value))
    | [] => .long name none
  | '-' :: letter :: _ => .short letter
  | _ => .plain

/-- Reads a long option, whose value may be the word behind it. -/
def readLong (known : List String) (name : String) (value : Option String) (rest : List String)
    (w : Words) : Except Stop (Words × List String) :=
  if name = "help" then .error (if value.isSome then .misuse else .help)
  else if name ∈ known then
    match value, rest with
    | some v, rest => do return (← w.add name v, rest)
    | none, v :: rest => do
      if isOption v then .error .misuse else return (← w.add name v, rest)
    | none, [] => .error .misuse
  else .error .misuse

/-- Reads the words behind a verb, of which there are at most `fuel`. -/
def readWords (known : List String) : Nat → List String → Words → Except Stop Words
  | 0, _, w => .ok w
  | _, [], w => .ok w
  | fuel + 1, word :: rest, w =>
    if word = "--" then .ok { w with plain := w.plain ++ rest }
    else
      match Word.ofString word with
      | .plain => readWords known fuel rest { w with plain := w.plain ++ [word] }
      | .long name value => do
        let (w, rest) ← readLong known name value rest w
        readWords known fuel rest w
      | .short letter => .error (if letter = 'h' then .help else .misuse)

/-- Reads the words before a verb and tells the verb and the words behind it. -/
def readFront : Nat → List String → Words → Except Stop (Words × String × List String)
  | 0, _, _ => .error .misuse
  | _, [], _ => .error .misuse
  | fuel + 1, word :: rest, w =>
    match Word.ofString word with
    | .plain => .ok (w, word, rest)
    | .long "version" none => .error .version
    | .long name value => do
      let (w, rest) ← readLong ["config"] name value rest w
      readFront fuel rest w
    | .short 'V' => .error .version
    | .short letter => .error (if letter = 'h' then .help else .misuse)

/-! ## Values -/

/-- A natural number below 2⁶⁴, before which a plus sign may stand. -/
def readLimit (s : String) : Except Stop Nat :=
  let digits := match s.toList with
    | '+' :: ds => ds
    | ds => ds
  let n := Text.numberOf 10 digits
  if digits.isEmpty || !digits.all Text.isDigit || Word.count 64 ≤ n then .error .misuse else .ok n

/-- A type of asset. -/
def readType (s : String) : Except Stop AssetType :=
  match AssetType.ofName? s with
  | some t => .ok t
  | none => .error .misuse

/-- The filters in the options of a search. -/
def readFilters (w : Words) : Except Stop Filters := do
  let type ← (w.option? "type").mapM readType
  let limit ← (w.option? "limit").mapM readLimit
  return { source := w.option? "source", type, limit := some (limit.getD defaultLimit) }

/-! ## Verbs -/

/-- The options of a verb; none if there is no such verb. -/
def optionsOf? (verb : String) : Option (List String) :=
  if verb = "search" then some ["config", "source", "type", "limit"]
  else if verb ∈ ["init", "extract", "get", "remove", "status", "serve"] then some ["config"]
  else none

/-- The command of a verb. -/
def ofWords (verb : String) (w : Words) : Except Stop Command :=
  match verb, w.plain with
  | "init", [] => .ok .init
  | "extract", [platform] => .ok (.extract platform)
  | "search", [query] => (readFilters w).map (.search query)
  | "get", [id] => .ok (.get id)
  | "remove", [id] => .ok (.remove id)
  | "status", [] => .ok (.status none)
  | "status", [platform] => .ok (.status (some platform))
  | "serve", [] => .ok .serve
  | _, _ => .error .misuse

/-- Reads the arguments of the command line. -/
def parse (args : List String) : Except Stop Invocation := do
  let (front, verb, rest) ← readFront args.length args {}
  if verb = "help" then throw .help
  match optionsOf? verb with
  | none => throw .misuse
  | some known =>
    let w ← readWords known rest.length rest {}
    let command ← ofWords verb w
    let settings := ((w.option? "config").or (front.option? "config")).getD defaultSettings
    return { settings, command }

end Command

end ContentGraph
