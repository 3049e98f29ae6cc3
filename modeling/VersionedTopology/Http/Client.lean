/-
  VersionedTopology.Http.Client

  A version store behind HTTP.

  Each call of the engine is one request below the client's base URL. An answer
  with a status of success is read as the value of the call. Every other status
  is a failure: the body tells which, and where it does not, the status. A not
  found without a name gets the name that was asked for.
-/

import VersionedTopology.Backend
import VersionedTopology.Http.Message
import VersionedTopology.Http.Url
import VersionedTopology.Settings.Basic
import VersionedTopology.Text.Base64
import VersionedTopology.Wire.ErrorBody
import VersionedTopology.Wire.Request

namespace VersionedTopology.Http

/-- A client of the server at a base URL. -/
structure Client where
  base : Url
  apiKey : Option String := none
deriving DecidableEq, Repr, Inhabited

/-- A request on its way out. -/
structure Outgoing where
  method : String
  url : Url
  authorization : Option String := none
  body : Option Json := none
deriving DecidableEq, Repr, Inhabited

/-- What came back: nothing, or an answer, whose content may break off. -/
inductive Delivery where
  | failed
  | answered (status : Nat) (content : String) (complete : Bool)
deriving DecidableEq, Repr, Inhabited

namespace Client

/-- The client for the given settings. An empty key is none. -/
def ofSettings (s : ClientSettings) : Except Error Client :=
  match Url.ofText s.baseUrl with
  | .error f => .error (.invalidInput ("invalid base URL '" ++ s.baseUrl ++ "': " ++ f.text))
  | .ok u =>
    if u.isBase then .ok { base := u, apiKey := s.apiKey.filter (· ≠ "") }
    else .error (.invalidInput ("'" ++ u.text ++ "' cannot be used as a base URL"))

/-! ## Requests -/

/-- The URL of an aspect of an environment. -/
def url (c : Client) (k : EnvironmentKey) (tail : List String) : Url :=
  c.base.append (["architecture", k.architecture, "environment", k.environment] ++ tail)

/-- A user with a password, as a header tells it. -/
def basicText (name : String) (password : Option String) : String :=
  "Basic " ++ String.ofList (Text.Base64.encode (Text.bytes (name ++ ":" ++ password.getD "")))

/-- Makes a request ready to be sent, or tells why it cannot be. A user in the URL is told in a
header instead, and goes before the key. -/
def prepare (c : Client) (method : String) (u : Url) (field : Option (String × String))
    (body : Option Json) : Except String Outgoing :=
  let refused (u : Url) : Except String Outgoing :=
    .error ("builder error for url (" ++ u.text ++ ")")
  let bearer := c.apiKey.map fun key => "Bearer " ++ key
  let (u, basic) := match u.credentials? with
    | some (name, password) => (u.withoutUser, some (basicText name password))
    | none => (u, none)
  let full := match field with
    | none => u
    | some (name, value) => u.withField name value
  if !u.hasHost then refused u
  else if !bearer.all isHeaderValue then .error "builder error"
  else if !full.isHttp then refused full
  else .ok { method, url := full, authorization := basic.or bearer, body }

/-- The request of a call. -/
def request (c : Client) : Backend.Call → Except String Outgoing
  | .fetch k v =>
    c.prepare "GET" (c.url k []) (v.map fun v => ("version", toString v)) none
  | .neighbor k v d =>
    c.prepare "GET" (c.url k [d.word]) (some ("version", toString v)) none
  | .select k v => c.prepare "POST" (c.url k []) none (some (SelectVersion.toJson ⟨v⟩))
  | .apply k r => c.prepare "POST" (c.url k ["constraints"]) none (some r.toJson)
  | .constraints k => c.prepare "GET" (c.url k ["constraints"]) none none
  | .diff a s t => c.prepare "GET" (c.url ⟨a, t⟩ ["diff"]) (some ("source", s)) none
  | .inSync a s t => c.prepare "GET" (c.url ⟨a, t⟩ ["insync"]) (some ("source", s)) none

/-! ## Answers -/

/-- The failure that an answer without success stands for. -/
def failure (status : Nat) (content : String) : Error :=
  match ErrorBody.decoder.ofText content with
  | .ok body => body.toError status
  | .error _ =>
    if status = 404 then .notFound "" "" none
    else .transport (Status.text status ++ ": " ++ Text.trim content)

/-- Reads an answer as a value. -/
def read (decoder : Decoder α) (c : Client) (sent : Outgoing) : Delivery → Except Error α
  | .failed =>
    .error (.transport (c.base.text ++ ": error sending request for url (" ++ sent.url.text ++ ")"))
  | .answered status content complete =>
    if Status.isSuccess status then
      match complete, decoder.ofText content with
      | true, .ok a => .ok a
      | _, _ => .error (.transport "malformed response: error decoding response body")
    else if complete then .error (failure status content)
    else
      .error (.transport (Status.text status ++
        ": unreadable error body: error decoding response body"))

/-- Names what was not found, where the answer did not. -/
def nameMissing (k : EnvironmentKey) (v : Option VersionNumber) :
    Except Error α → Except Error α
  | .error (.notFound "" _ _) => .error (k.notFound v)
  | r => r

/-- The answer to a call, from what came back. -/
def interpret (c : Client) (sent : Outgoing) (d : Delivery) : (call : Backend.Call) → call.Answer
  | .fetch k v => nameMissing k v (c.read Snapshot.decoder sent d)
  | .neighbor _ _ _ =>
    match c.read Snapshot.decoder sent d with
    | .ok s => .ok (some s.version)
    | .error (.notFound ..) => .ok none
    | .error e => .error e
  | .select k v =>
    match nameMissing k (some v) (c.read SelectVersion.decoder sent d) with
    | .error e => .error e
    | .ok s =>
      if s.version = v then .ok ()
      else .error (.transport ("selected v" ++ toString v ++ " but server reports v" ++
        toString s.version))
  | .apply k r => nameMissing k (some r.version) (c.read Snapshot.decoder sent d)
  | .constraints k =>
    nameMissing k none (c.read (Decoder.list Constraint.decoder) sent d)
  | .diff _ _ _ => c.read TopologyDiff.decoder sent d
  | .inSync _ _ _ => (c.read InSync.decoder sent d).map InSync.inSync

/-- The failure of a call. -/
def refusal (e : Error) : (call : Backend.Call) → call.Answer
  | .fetch .. => .error e
  | .neighbor .. => .error e
  | .select .. => .error e
  | .apply .. => .error e
  | .constraints .. => .error e
  | .diff .. => .error e
  | .inSync .. => .error e

/-- Asks the server. -/
def ask [Monad m] (exchange : Outgoing → m Delivery) (c : Client) (call : Backend.Call) :
    m call.Answer := do
  match c.request call with
  | .error reason => pure (refusal (.transport (c.base.text ++ ": " ++ reason)) call)
  | .ok sent => return c.interpret sent (← exchange sent) call

end Client

end VersionedTopology.Http
