import ContentGraph.Command.Arguments
import ContentGraph.Command.Output
import ContentGraph.Run.Pass
import ContentGraph.Search
import ContentGraph.Store.Image
import ContentGraph.Word

/-!
# Carrying commands out

A command works on a store and prints lines; it may fail, and then what was printed before stays.
-/

namespace ContentGraph.Command

/-- What a command printed, and its fault if it failed. -/
structure Output where
  lines : List String := []
  fault : Option String := none
deriving Repr, DecidableEq

/-- A command that fails without printing. -/
def Output.failure (message : String) : Output := { fault := some message }

/-- What is printed first, and then more. -/
def Output.after (lines : List String) (o : Output) : Output := { o with lines := lines ++ o.lines }

variable {σ : Type} [Store.Backend σ]

/-- Searches and prints the matches. -/
def searchAndPrint (query : String) (filters : Filters) (s : σ) : Output × σ :=
  match ContentGraph.search query filters s with
  | (.ok page, s) => ({ lines := pageLines page }, s)
  | (.error e, s) => (.failure e.message, s)

/-- Prints an asset. -/
def printAsset (id : String) (s : σ) : Output × σ :=
  match Store.Backend.asset? id s with
  | (.error e, s) => (.failure e.message, s)
  | (.ok none, s) => (.failure ("asset not found: " ++ id), s)
  | (.ok (some a), s) =>
    match Store.Backend.edges id s with
    | (.error e, s) => (.failure e.message, s)
    | (.ok edges, s) => ({ lines := assetLines a edges }, s)

/-- Takes an asset away and prints whether there was one. -/
def removeAsset (now : Millis) (id : String) (s : σ) : Output × σ :=
  match Store.Backend.asset? id s with
  | (.error e, s) => (.failure e.message, s)
  | (.ok asset, s) =>
    match Store.Backend.change now (.remove id) s with
    | (.error e, s) => (.failure e.message, s)
    | (.ok (), s) =>
      ({ lines := [(if asset.isSome then "removed " else "no asset with id ") ++ id] }, s)

/-- The number of errors that are shown of a platform. -/
def shownErrors : Nat := 5

/-- Prints the ledgers of platforms. -/
def printLedgers : List String → σ → Output × σ
  | [], s => ({}, s)
  | platform :: rest, s =>
    match Store.Backend.ledger? platform s with
    | (.error e, s) => ((Output.failure e.message).after [""], s)
    | (.ok entry, s) =>
      let lines := "" :: ledgerLines platform entry
      match Store.Backend.recentErrors platform shownErrors s with
      | (.error e, s) => ((Output.failure e.message).after lines, s)
      | (.ok errors, s) =>
        let (o, s) := printLedgers rest s
        (o.after (lines ++ errorLines errors), s)

/-- Prints the health of the store and the ledgers of platforms. -/
def printStatus (platforms : List String) (s : σ) : Output × σ :=
  let (report, s) := Store.Backend.health s
  let (o, s) := printLedgers platforms s
  (o.after (healthLines report), s)

/-- Runs extractors one after another; tells the lines and the platforms that failed. -/
def runAll (tree : FileTree) (time : Nat → Millis) : List Extractor → σ →
    (List String × List String) × σ
  | [], s => (([], []), s)
  | e :: rest, s =>
    let (outcome, s) := (Pass.routine e.platform).run e tree time s
    let ((lines, failed), s) := runAll tree time rest s
    ((runLines e.platform outcome ++ lines,
      if outcome.isCompleted then failed else e.platform :: failed), s)

/-- Runs the extractors of a platform, or all. -/
def runExtractors (settings : Settings) (tree : FileTree) (time : Nat → Millis) (platform : String)
    (s : σ) : Output × σ :=
  let configured := settings.extractors
  let selected :=
    if platform = "all" then configured else configured.filter (·.platform = platform)
  if selected.isEmpty then
    let names := if configured.isEmpty then "none" else ", ".intercalate (configured.map (·.platform))
    (.failure ("no extractor configured for platform: '" ++ platform ++ "'. Configured: " ++ names),
      s)
  else
    let ((lines, failed), s) := runAll tree time selected s
    ({ lines
       fault := if failed.isEmpty then none
         else some ("extraction failed for: " ++ ", ".intercalate failed) }, s)

/-- Makes the tables of a store. -/
def makeTables (s : RelationalStore) : Output × RelationalStore :=
  match s.createTables with
  | (.ok (), s) => ({ lines := ["Database initialized successfully."] }, s)
  | (.error e, s) => (.failure e.message, s)

/-! ## Serving -/

/-- What is wrong with an address to listen on: it is a host, a colon and a number below 2¹⁶. -/
def addressFault? (address : String) : Option String :=
  let s := address.toList
  if !s.contains ':' then some "invalid socket address"
  else
    let digits := match (s.reverse.takeWhile (· != ':')).reverse with
      | '+' :: ds => ds
      | ds => ds
    if digits.isEmpty || !digits.all Text.isDigit || Word.count 16 ≤ Text.numberOf 10 digits then
      some "invalid port value"
    else none

/-- Serving needs a listener, which is not part of a command. -/
def serveOn (address : String) : Output :=
  .failure ((addressFault? address).getD ("cannot listen on " ++ address))

/-! ## Programs -/

/-- Carries a command out on a store. -/
def execute (settings : Settings) (tree : FileTree) (time : Nat → Millis) :
    Command → RelationalStore → Output × RelationalStore
  | .init, s => makeTables s
  | .extract platform, s => runExtractors settings tree time platform s
  | .search query filters, s => searchAndPrint query filters s
  | .get id, s => printAsset id s
  | .remove id, s => removeAsset (time 0) id s
  | .status platform, s =>
    printStatus ((platform.map ([·])).getD (settings.extractors.map (·.platform))) s
  | .serve, s => (serveOn settings.address, s)

/-- What a program leaves: its exit code and what it printed. -/
structure Exit where
  code : Nat := 0
  stdout : String := ""
  stderr : String := ""
deriving Repr, DecidableEq

/-- The exit of a command. -/
def Output.exit (o : Output) : Exit :=
  match o.fault with
  | none => { stdout := ofLines o.lines }
  | some message => ⟨1, ofLines o.lines, "Error: " ++ message ++ "\n"⟩

/-- The name of the program and its version. -/
def versionText : String := "kh 0.1.0\n"

/-- How the program is used. -/
def helpText : String := ofLines [
  "Usage: kh [--config <CONFIG>] <COMMAND>",
  "",
  "Commands:",
  "  init               Make the tables of the store",
  "  extract <PLATFORM> Run an extractor, or all",
  "  search <QUERY>     Search the stored assets",
  "  get <ID>           Print an asset",
  "  remove <ID>        Delete an asset and its relationships",
  "  status [PLATFORM]  Show the health of the store and the last runs",
  "  serve              Answer requests over HTTP"]

/-- The settings that an invocation names. -/
def Invocation.load (i : Invocation) (tree : FileTree) : Except Settings.Fault Settings :=
  Settings.load i.settings ((tree.read i.settings).toOption.map (·.1))

/-- The directories whose files a command reads. -/
def sources (settings : Settings) : Command → List String
  | .extract _ => [settings.components, settings.documents].filterMap (·.map (·.root))
  | _ => []

/-- Runs the program on a tree of files, in which the store is kept. -/
def program (tree : FileTree) (time : Nat → Millis) (args : List String) : Exit × FileTree :=
  match parse args with
  | .error .misuse => ({ code := 2 }, tree)
  | .error .help => ({ stdout := helpText }, tree)
  | .error .version => ({ stdout := versionText }, tree)
  | .ok invocation =>
    match invocation.load tree with
    | .error e => ((Output.failure e.message).exit, tree)
    | .ok settings =>
      let (o, s) := execute settings tree time invocation.command (.atPath tree settings.store.path)
      (o.exit, s.save (time 0) settings.store.path tree)

end ContentGraph.Command
