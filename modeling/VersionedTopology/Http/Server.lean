/-
  VersionedTopology.Http.Server

  The development server: a ledger behind HTTP.

  A request passes the layers from the outside to the inside: the answer to pages
  that ask in advance, the rate limit, the key, and then its route. A route that
  exists tells its methods whenever a request uses another one, also when a layer
  before it refuses the request. All state is the ledger and the number of
  requests that the rate limit has let pass; no time passes.
-/

import VersionedTopology.History.Ledger
import VersionedTopology.Http.ApiKey
import VersionedTopology.Http.Cors
import VersionedTopology.Http.MediaType
import VersionedTopology.Http.Route
import VersionedTopology.Settings.Basic
import VersionedTopology.Text.Unsigned
import VersionedTopology.Wire.ErrorBody
import VersionedTopology.Wire.Request

namespace VersionedTopology.Http

/-- A running server. -/
structure Server where
  settings : ServerSettings
  ledger : Ledger
  /-- Requests that the rate limit has let pass. -/
  passed : Nat := 0
deriving Inhabited

namespace Server

/-- A server without any environment. -/
def new (settings : ServerSettings) : Server :=
  { settings, ledger := { schema := settings.schema } }

/-- Loads snapshots one after another. -/
def seed (s : Server) (snapshots : List Snapshot) : Except Error Server :=
  (snapshots.foldlM Ledger.seed s.ledger).map fun ledger => { s with ledger }

/-! ## Answers -/

def jsonResponse (status : Nat) (j : Json) : Response := { status, body := .json j }

def failure (e : Error) : Response :=
  let (status, body) := ErrorBody.ofError e
  jsonResponse status body.toJson

def answer (f : α → Json) : Except Error α → Response
  | .ok a => jsonResponse 200 (f a)
  | .error e => failure e

/-- Refuses a request with a bare status. -/
def refuse (status : Nat) : Response := { status }

/-! ## Reading requests -/

/-- The only value of a field of the query; it may be missing, but not repeated. -/
def queryField (r : Request) (name : String) : Except Response (Option String) :=
  match (queryPairs r.query).filter fun p => p.1 = name with
  | [] => .ok none
  | [(_, v)] => .ok (some v)
  | _ => .error (refuse 400)

/-- A version in the query, if there is one. -/
def versionField (r : Request) : Except Response (Option VersionNumber) := do
  match ← queryField r "version" with
  | none => .ok none
  | some v =>
    match Text.readUnsigned Text.max64 v with
    | .ok n => .ok (some n)
    | .error _ => .error (refuse 400)

def required (a : Option α) : Except Response α :=
  match a with
  | some a => .ok a
  | none => .error (refuse 400)

/-- How many bytes a body may have. -/
def maxBody : Nat := 2 * 1024 * 1024

/-- The body of a request as a value of a type. -/
def readBody (decoder : Decoder α) (r : Request) : Except Response α :=
  if !((r.headers.lookup "content-type").any announcesJson) then .error (refuse 415)
  else if r.body.utf8ByteSize > maxBody then
    .error ⟨413, .text "Failed to buffer the request body: length limit exceeded", []⟩
  else
    match decoder.ofText r.body with
    | .ok a => .ok a
    | .error (.text _) => .error (refuse 400)
    | .error (.shape _) => .error (refuse 422)

/-! ## Routes -/

/-- The neighbour of a version, as a whole version. -/
def neighbor (l : Ledger) (k : EnvironmentKey) (v : VersionNumber) (d : Direction) : Response :=
  match l.neighbor k v d with
  | .error e => failure e
  | .ok none => jsonResponse 404 (ErrorBody.noNeighbor k v d).toJson
  | .ok (some n) => answer Snapshot.toJson (l.get k (some n))

/-- Reads from an environment. -/
def read (l : Ledger) (k : EnvironmentKey) (r : Request) : Aspect → Except Response Response
  | .versions => do
    let v ← versionField r
    .ok (answer Snapshot.toJson (l.get k v))
  | .neighbor d => do
    let v ← required (← versionField r)
    .ok (neighbor l k v d)
  | .constraints => .ok (answer Constraint.listToJson (l.history k))
  | .diff => do
    let source ← required (← queryField r "source")
    .ok (answer TopologyDiff.toJson (l.diff k.architecture source k.environment))
  | .inSync => do
    let source ← required (← queryField r "source")
    .ok (answer (fun d => InSync.toJson ⟨d.isEmpty⟩)
      (l.diff k.architecture source k.environment))

/-- Starts an environment. -/
def create (l : Ledger) (k : EnvironmentKey) (r : Request) :
    Except Response (Ledger × Response) := do
  let n ← readBody NewEnvironment.decoder r
  match l.create k n.resources n.edges with
  | .ok (s, l) => .ok (l, jsonResponse 201 s.toJson)
  | .error e => .ok (l, failure e)

/-- Makes a version of an environment the current one. -/
def select (l : Ledger) (k : EnvironmentKey) (r : Request) :
    Except Response (Ledger × Response) := do
  let s ← readBody SelectVersion.decoder r
  match l.setCurrent k s.version with
  | .ok l => .ok (l, jsonResponse 200 s.toJson)
  | .error e => .ok (l, failure e)

/-- Solves a batch into a new version. -/
def apply (l : Ledger) (k : EnvironmentKey) (r : Request) :
    Except Response (Ledger × Response) := do
  let request ← readBody ApplyRequest.decoder r
  let (l, result) := l.submit k request
  .ok (l, answer Snapshot.toJson result)

/-- The name of an environment in a path. -/
def keyOf (architecture environment : String) : Except Response EnvironmentKey :=
  match decodeSegment architecture, decodeSegment environment with
  | some a, some e => .ok ⟨a, e⟩
  | _, _ => .error (refuse 400)

/-- Answers a request to a route by one of its methods. -/
def handle (l : Ledger) (r : Request) : Route → Except Response (Ledger × Response)
  | .health => .ok (l, jsonResponse 200 Health.healthy.toJson)
  | .environment a e aspect => do
    let k ← keyOf a e
    match aspect, r.method with
    | .versions, "PUT" => create l k r
    | .versions, "POST" => select l k r
    | .constraints, "POST" => apply l k r
    | _, _ => (read l k r aspect).map fun response => (l, response)

/-- Answers a request behind all layers. -/
def dispatch (s : Server) (r : Request) (route : Option Route) : Server × Response :=
  match route with
  | none => (s, refuse 404)
  | some route =>
    if !route.methods.contains r.method then (s, refuse 405)
    else
      let (ledger, response) :=
        match handle s.ledger r route with
        | .ok answered => answered
        | .error refusal => (s.ledger, refusal)
      ({ s with ledger }, response)

/-! ## Layers -/

/-- The key that a request bears. A value that is not plain counts as none. -/
def bearer (r : Request) : Option String :=
  ((r.headers.lookup "authorization").filter isPlainValue).map fun v =>
    if v.startsWith "Bearer " then (v.drop 7).toString else v

/-- Whether a request may pass the key. The health check always may. -/
def isAuthorized (s : Server) (r : Request) : Bool :=
  match s.settings.apiKey.bind ApiKey.ofText? with
  | none => true
  | some key => r.path = "/health" || (bearer r).any key.accepts

/-- The answer of the layers behind the one for web pages. -/
def guarded (s : Server) (r : Request) (route : Option Route) : Server × Response :=
  let limit := s.settings.rateLimit
  if 0 < limit ∧ limit ≤ s.passed then (s, ⟨429, .text "Too Many Requests", []⟩)
  else
    let s := { s with passed := s.passed + 1 }
    if !s.isAuthorized r then (s, ⟨401, .text "Unauthorized", []⟩)
    else s.dispatch r route

/-- Answers a request. An answer to HEAD has no body. -/
def respond (s : Server) (r : Request) : Server × Response :=
  let route := Route.ofPath? r.path
  let origins := Origins.ofSetting s.settings.corsOrigins
  let allowed := origins.headers (r.headers.lookup "origin")
  let (s, response) :=
    if r.method = "OPTIONS" then (s, { status := 200, headers := origins.preflight })
    else s.guarded r route
  let told :=
    match route with
    | none => []
    | some route =>
      if route.methods.contains r.method then []
      else [("allow", ",".intercalate route.methods)]
  (s, { response with
    body := if r.method = "HEAD" then .empty else response.body
    headers := allowed ++ response.headers ++ told })

end Server

end VersionedTopology.Http
