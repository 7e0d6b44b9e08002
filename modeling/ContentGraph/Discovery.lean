import ContentGraph.Corpus
import ContentGraph.FileTree.Walk
import ContentGraph.Glob.Match

/-!
# Discovery

The files of a corpus: those below its root whose relative path matches a pattern to include and
none to exclude, in the order of their relative paths.
-/

namespace ContentGraph.Discovery

/-- A file to extract from; its relative path starts from the root. -/
abbrev Candidate := FileTree.Entry

/-- Why files cannot be listed. -/
inductive Fault
  | missingRoot (root : String)
  | badPattern (pattern : String) (fault : Glob.Fault)
  | walk (fault : FileTree.WalkFault)
deriving Repr, DecidableEq

/-- The wording of a fault. -/
def Fault.message : Fault → String
  | .missingRoot root => "extraction root does not exist: " ++ root
  | .badPattern pattern fault =>
    "invalid glob pattern: error parsing glob '" ++ pattern ++ "': " ++ fault.message
  | .walk fault => "directory walk failed: " ++ fault.message

/-- Reads one pattern. -/
def readPattern (pattern : String) : Except Fault (List Glob.Token) :=
  match Glob.parse pattern with
  | .ok ts => .ok ts
  | .error e => .error (.badPattern pattern e)

/-- Reads patterns; the first that cannot be read is the fault. -/
def readPatterns (patterns : List String) : Except Fault (List (List Glob.Token)) :=
  patterns.mapM readPattern

/-- Holds when a pattern to include matches and none to exclude. -/
def isWanted (includes excludes : List (List Glob.Token)) (relative : String) : Bool :=
  includes.any (Glob.isMatch · relative) && !excludes.any (Glob.isMatch · relative)

/-- Adds a file in the order of relative paths, unless one of the same relative path is there. -/
def insert (c : Candidate) : List Candidate → List Candidate
  | [] => [c]
  | d :: rest =>
    if c.relative < d.relative then c :: d :: rest
    else if c.relative = d.relative then d :: rest
    else d :: insert c rest

/-- The files of a corpus. -/
def discover (tree : FileTree) (corpus : Corpus) : Except Fault (List Candidate) :=
  if !tree.isDirectory corpus.root then .error (.missingRoot corpus.root)
  else do
    let includes ← readPatterns corpus.includes
    let excludes ← readPatterns corpus.excludes
    match tree.walk corpus.followLinks corpus.root with
    | .error e => .error (.walk e)
    | .ok entries =>
      let wanted := entries.filter fun c => isWanted includes excludes c.relative
      return wanted.foldl (fun out c => insert c out) []

end ContentGraph.Discovery
