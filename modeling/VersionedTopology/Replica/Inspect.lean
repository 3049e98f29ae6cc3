/-
  VersionedTopology.Replica.Inspect

  A replica in one line, for people who inspect it.

  The line names every part of the replica but its contents: the current version
  by number and the batch by its size. A pending confirmation shows the refused
  constraints in full.
-/

import VersionedTopology.Replica.Basic
import VersionedTopology.Text.Printable

namespace VersionedTopology

namespace Inspect

/-- A name with its parts in braces. -/
def record (name : String) (parts : List (String × String)) : String :=
  name ++ " \x7b " ++ ", ".intercalate (parts.map fun (k, v) => k ++ ": " ++ v) ++ " \x7d"

def option (f : α → String) : Option α → String
  | none => "None"
  | some a => "Some(" ++ f a ++ ")"

def list (items : List String) : String := "[" ++ ", ".intercalate items ++ "]"

def bool (b : Bool) : String := if b then "true" else "false"

mutual

/-- A JSON value by its kind and content. -/
def json : Json → String
  | .null => "Null"
  | .bool b => "Bool(" ++ bool b ++ ")"
  | .number n => "Number(" ++ n.text ++ ")"
  | .string s => "String(" ++ Text.inspect s ++ ")"
  | .array xs => "Array " ++ list (items xs)
  | .object ms => "Object \x7b" ++ ", ".intercalate (members ms) ++ "\x7d"

def items : List Json → List String
  | [] => []
  | x :: xs => json x :: items xs

def members : List (String × Json) → List String
  | [] => []
  | (k, v) :: rest => (Text.inspect k ++ ": " ++ json v) :: members rest

end

def topologyId (id : TopologyId) : String :=
  record "TopologyId" [("provider", Text.inspect id.provider), ("kind", Text.inspect id.kind),
    ("name", Text.inspect id.name)]

def constraint : Constraint → String
  | .property o t p v =>
    record "Resource" [("operator", o.label), ("target", topologyId t),
      ("property", Text.inspect p), ("value", json v)]
  | .edge o s t =>
    record "Edge" [("operator", o.label), ("source", topologyId s), ("target", topologyId t)]
  | .node o n r =>
    record "Global" [("operator", o.label), ("node", topologyId n),
      ("replacement", option topologyId r)]

def confirmation : Confirmation → String
  | .idle => "Idle"
  | .resolving => "Resolving"
  | .pending cs seen server =>
    record "PendingConfirmation" [("constraints", list (cs.map constraint)),
      ("local_version", toString seen), ("remote_version", toString server)]

def number (n : VersionNumber) : String := toString n

end Inspect

/-- The replica in one line. -/
def Replica.inspect (r : Replica) : String :=
  Inspect.record "EnvironmentStore"
    [("key", Inspect.record "EnvironmentKey"
        [("architecture_id", Text.inspect r.key.architecture),
          ("environment_id", Text.inspect r.key.environment)]),
      ("current", Inspect.option Inspect.number (r.current.map fun s => s.version)),
      ("pointers", Inspect.record "HistoryPointers"
        [("previous", Inspect.option Inspect.number r.pointers.previous),
          ("next", Inspect.option Inspect.number r.pointers.next)]),
      ("known_head", toString r.knownHead),
      ("pending", toString r.batch.size),
      ("in_flight", Inspect.bool r.inFlight),
      ("conflict", Inspect.confirmation r.gate.state)]

end VersionedTopology
