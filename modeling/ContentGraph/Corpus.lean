/-!
# Corpora

A corpus is the set of files below a root that match patterns: at least one to include and none
to exclude.
-/

namespace ContentGraph

/-- A root and the patterns that choose files below it. -/
structure Corpus where
  root : String
  includes : List String
  excludes : List String
  followLinks : Bool := false
deriving Repr, DecidableEq

/-- Directories that hold installed or generated files. -/
def generatedDirectories : List String :=
  ["**/node_modules/**", "**/build/**", "**/dist/**", "**/.next/**", "**/out/**"]

/-- Component files below a root. -/
def Corpus.components (root : String) : Corpus where
  root
  includes := ["**/*.\x7btsx,jsx\x7d"]
  excludes := generatedDirectories

/-- Documents below a root. -/
def Corpus.documents (root : String) : Corpus where
  root
  includes := ["**/*.md", "**/*.txt"]
  excludes := generatedDirectories

end ContentGraph
