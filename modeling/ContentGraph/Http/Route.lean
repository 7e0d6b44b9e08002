import ContentGraph.Http.Target

/-!
# Routes

The places that the service knows, and the methods that each takes. A route keeps the segment that
names a platform, a run or an asset as it is written.
-/

namespace ContentGraph.Http

/-- A place that the service knows. -/
inductive Route
  | health
  | connection
  | ledger (platform : String)
  | runs (platform : String)
  | platformSearch (platform : String)
  | run (id : String)
  | search
  | asset (id : String)
deriving Repr, DecidableEq

namespace Route

/-- The route of the segments of a path; no name may be empty. -/
def ofSegments? : List String → Option Route
  | ["health"] => some .health
  | ["health", "connection"] => some .connection
  | ["extractions", platform] => if platform = "" then none else some (.ledger platform)
  | ["extractions", platform, "runs"] => if platform = "" then none else some (.runs platform)
  | ["extractions", platform, "search"] =>
    if platform = "" then none else some (.platformSearch platform)
  | ["runs", id] => if id = "" then none else some (.run id)
  | ["search"] => some .search
  | ["assets", id] => if id = "" then none else some (.asset id)
  | _ => none

/-- The route of a target. -/
def ofTarget? (target : String) : Option Route := (segments? (targetPath target)).bind ofSegments?

/-- The methods that a route takes. Where something can be read, its headers alone can be read
too. -/
def methods : Route → List String
  | .health => ["GET", "HEAD"]
  | .connection => ["GET", "HEAD"]
  | .ledger _ => ["GET", "HEAD"]
  | .runs _ => ["POST"]
  | .platformSearch _ => ["POST"]
  | .run _ => ["GET", "HEAD", "DELETE"]
  | .search => ["POST"]
  | .asset _ => ["GET", "HEAD", "DELETE"]

end Route

end ContentGraph.Http
