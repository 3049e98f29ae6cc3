/-
  VersionedTopology.Wire.ErrorBody

  Failures on their way from a server to a client.

  A server answers a failure with a status and a body that names the cause; the
  client builds the failure again from both. Causes that only make sense on the
  server's side come back as transport failures.
-/

import VersionedTopology.Error
import VersionedTopology.History.Pointers
import VersionedTopology.Wire.Graph

namespace VersionedTopology

open Decoder

/-- The body of a failed request. -/
structure ErrorBody where
  error : String
  message : String := ""
  architecture : Option String := none
  environment : Option String := none
  version : Option VersionNumber := none
  serverVersion : Option VersionNumber := none
  clientVersion : Option VersionNumber := none
  errors : List Issue := []
deriving DecidableEq, Repr, Inhabited

/-! ## Status codes -/

namespace Status

/-- The usual reasons of the status codes. -/
def reasons : List (Nat × String) :=
  [ (100, "Continue"), (101, "Switching Protocols"), (102, "Processing"), (103, "Early Hints"),
    (200, "OK"), (201, "Created"), (202, "Accepted"), (203, "Non Authoritative Information"),
    (204, "No Content"), (205, "Reset Content"), (206, "Partial Content"), (207, "Multi-Status"),
    (208, "Already Reported"), (226, "IM Used"), (300, "Multiple Choices"),
    (301, "Moved Permanently"), (302, "Found"), (303, "See Other"), (304, "Not Modified"),
    (305, "Use Proxy"), (307, "Temporary Redirect"), (308, "Permanent Redirect"),
    (400, "Bad Request"), (401, "Unauthorized"), (402, "Payment Required"), (403, "Forbidden"),
    (404, "Not Found"), (405, "Method Not Allowed"), (406, "Not Acceptable"),
    (407, "Proxy Authentication Required"), (408, "Request Timeout"), (409, "Conflict"),
    (410, "Gone"), (411, "Length Required"), (412, "Precondition Failed"),
    (413, "Payload Too Large"), (414, "URI Too Long"), (415, "Unsupported Media Type"),
    (416, "Range Not Satisfiable"), (417, "Expectation Failed"), (418, "I'm a teapot"),
    (421, "Misdirected Request"), (422, "Unprocessable Entity"), (423, "Locked"),
    (424, "Failed Dependency"), (425, "Too Early"), (426, "Upgrade Required"),
    (428, "Precondition Required"), (429, "Too Many Requests"),
    (431, "Request Header Fields Too Large"), (451, "Unavailable For Legal Reasons"),
    (500, "Internal Server Error"), (501, "Not Implemented"), (502, "Bad Gateway"),
    (503, "Service Unavailable"), (504, "Gateway Timeout"), (505, "HTTP Version Not Supported"),
    (506, "Variant Also Negotiates"), (507, "Insufficient Storage"), (508, "Loop Detected"),
    (510, "Not Extended"), (511, "Network Authentication Required") ]

/-- A code with its reason. -/
def text (code : Nat) : String :=
  toString code ++ " " ++ (reasons.lookup code).getD "<unknown status code>"

def isSuccess (code : Nat) : Bool := 200 ≤ code && code < 300

end Status

namespace ErrorBody

def toJson (b : ErrorBody) : Json :=
  .object ([("error", .string b.error), ("message", .string b.message)] ++
    Json.optionalMember "architecture" .string b.architecture ++
    Json.optionalMember "environment" .string b.environment ++
    Json.optionalMember "version" .ofNat b.version ++
    Json.optionalMember "server_version" .ofNat b.serverVersion ++
    Json.optionalMember "client_version" .ofNat b.clientVersion ++
    (if b.errors.isEmpty then [] else [("errors", .array (b.errors.map Issue.toJson))]))

def fields : List (RecordField ErrorBody) :=
  [ field "error" .required string fun error b => { b with error },
    field "message" .defaulted string fun message b => { b with message },
    field "architecture" .defaulted (option string) fun architecture b => { b with architecture },
    field "environment" .defaulted (option string) fun environment b => { b with environment },
    field "version" .defaulted (option unsigned64) fun version b => { b with version },
    field "server_version" .defaulted (option unsigned64) fun serverVersion b =>
      { b with serverVersion },
    field "client_version" .defaulted (option unsigned64) fun clientVersion b =>
      { b with clientVersion },
    field "errors" .defaulted (list Issue.decoder) fun errors b => { b with errors } ]

def decoder : Decoder ErrorBody := record fields { error := "" } false

/-! ## From a failure and back -/

/-- The status and the body that a server answers a failure with. -/
def ofError (e : Error) : Nat × ErrorBody :=
  match e with
  | .notFound a env v =>
    (404, { error := "not_found", message := e.text, architecture := some a,
            environment := some env, version := v })
  | .staleVersion seen server =>
    (409, { error := "stale_version", message := e.text, serverVersion := some server,
            clientVersion := some seen })
  | .config issues => (422, { error := "config", message := e.text, errors := issues })
  | .transport _ => (500, { error := "internal", message := e.text })
  | _ => (400, { error := "bad_request", message := e.text })

/-- The body for a neighbour that does not exist. -/
def noNeighbor (k : EnvironmentKey) (v : VersionNumber) (d : Direction) : ErrorBody :=
  { error := "not_found"
    message := k.text ++ " v" ++ toString v ++ " has no " ++ d.word ++ " version"
    architecture := some k.architecture
    environment := some k.environment
    version := some v }

/-- The failure that a status and a body stand for. -/
def toError (b : ErrorBody) (status : Nat) : Error :=
  let other : Error := .transport (Status.text status ++ ": " ++ b.message)
  if status = 404 then
    .notFound (b.architecture.getD "") (b.environment.getD "") b.version
  else if status = 409 ∧ b.error = "stale_version" then
    match b.serverVersion with
    | some server => .staleVersion (b.clientVersion.getD 0) server
    | none => .transport ("409 without server_version: " ++ b.message)
  else if status = 422 ∧ !b.errors.isEmpty then .config b.errors
  else other

end ErrorBody

end VersionedTopology
