/-
  VersionedTopology.Http.Cors

  Which web pages may read the server's answers.

  A page names its origin in a request, and the answer says whether that origin
  may read it. Either every origin may, or the listed ones. Entries that cannot
  stand in a header field are passed over; a list without any other entry, like
  no list at all, allows the usual ports of the local host.
-/

import VersionedTopology.Http.Message

namespace VersionedTopology.Http

/-- The origins that may read answers. -/
inductive Origins where
  | all
  | listed (origins : List String)
deriving DecidableEq, Repr, Inhabited

namespace Origins

def localHost : List String :=
  [ "http://localhost:3000", "http://localhost:8080", "http://127.0.0.1:3000",
    "http://127.0.0.1:8080" ]

/-- The origins that a setting stands for. -/
def ofSetting : Option (List String) → Origins
  | none => .listed localHost
  | some ["*"] => .all
  | some origins =>
    let valid := origins.filter isHeaderValue
    .listed (if valid.isEmpty then localHost else valid)

/-- What an answer tells a page of the given origin. -/
def headers (o : Origins) (origin : Option String) : Headers :=
  match o, origin with
  | all, _ => [("access-control-allow-origin", "*")]
  | listed origins, some origin =>
    if origins.contains origin then [("access-control-allow-origin", origin)] else []
  | listed _, none => []

/-- What is told besides when a page asks in advance. -/
def preflight : Origins → Headers
  | all => [("access-control-allow-methods", "*"), ("access-control-allow-headers", "*")]
  | listed _ =>
    [("access-control-allow-methods", "GET,POST,PUT,OPTIONS"),
      ("access-control-allow-headers", "content-type,authorization")]

end Origins

end VersionedTopology.Http
