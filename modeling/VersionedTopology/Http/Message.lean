/-
  VersionedTopology.Http.Message

  Requests and responses as far as the server and its client look at them.
-/

import VersionedTopology.Json.Printer
import VersionedTopology.Text.Blank

namespace VersionedTopology.Http

/-- Header fields by lower case name. -/
abbrev Headers := List (String × String)

/-- A request. The target is the path with the query, coded as it was sent. -/
structure Request where
  method : String
  target : String
  headers : Headers := []
  body : String := ""
deriving DecidableEq, Repr, Inhabited

namespace Request

/-- The target without a fragment. -/
def resource (r : Request) : List Char := r.target.toList.takeWhile (· ≠ '#')

/-- The path of the target. -/
def path (r : Request) : String := String.ofList (r.resource.takeWhile (· ≠ '?'))

/-- The query of the target. -/
def query (r : Request) : String := String.ofList ((r.resource.dropWhile (· ≠ '?')).drop 1)

end Request

/-- What a response carries. -/
inductive Body where
  | empty
  | json (value : Json)
  | text (content : String)
deriving DecidableEq, Repr, Inhabited

/-- The content of a body as it is sent. -/
def Body.content : Body → String
  | empty => ""
  | json j => j.compact
  | text s => s

/-- A response. -/
structure Response where
  status : Nat
  body : Body := .empty
  headers : Headers := []
deriving DecidableEq, Repr, Inhabited

/-- Whether a text can be the value of a header field: no control but the tab. -/
def isHeaderValue (s : String) : Bool :=
  s.toList.all fun c => (32 ≤ c.toNat && c.toNat ≠ 127) || c = '\t'

/-- Whether a value holds visible ASCII, blanks and tabs only. -/
def isPlainValue (s : String) : Bool :=
  s.toList.all fun c => (32 ≤ c.toNat && c.toNat < 127) || c = '\t'

end VersionedTopology.Http
