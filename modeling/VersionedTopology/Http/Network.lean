/-
  VersionedTopology.Http.Network

  What answers a client's requests.

  At one address there is a server, a script of answers, or nothing at all; at
  any other address nothing answers. Requests that arrive are noted. A script
  that has run out closes the connection. Blanks around the value of a header
  field are lost on the way, and answers that never have content lose theirs.
-/

import VersionedTopology.Http.Client
import VersionedTopology.Http.Server

namespace VersionedTopology.Http

/-- A scripted answer; its content breaks off `missing` bytes before its end. -/
structure Reply where
  status : Nat
  content : String := ""
  missing : Nat := 0
deriving DecidableEq, Repr, Inhabited

/-- What is at the address. -/
inductive Peer where
  | absent
  | server (s : Server)
  | script (replies : List Reply)
deriving Inhabited

/-- The network as a client sees it. -/
structure Network where
  port : Nat
  peer : Peer := .absent
  /-- The requests that arrived, in order. -/
  arrived : List Request := []
deriving Inhabited

namespace Network

/-- A header value without the blanks around it. -/
def trimValue (s : String) : String :=
  let isBlank (c : Char) : Bool := c = ' ' || c = '\t'
  String.ofList ((s.toList.dropWhile isBlank).reverse.dropWhile isBlank).reverse

/-- The request as it arrives. -/
def received (o : Outgoing) : Request :=
  { method := o.method
    target := o.url.target
    headers :=
      (o.authorization.map fun v => ("authorization", trimValue v)).toList ++
        (o.body.map fun _ => ("content-type", "application/json")).toList
    body := (o.body.map Json.compact).getD "" }

/-- Whether a URL leads to the address. -/
def leadsHere (n : Network) (u : Url) : Bool :=
  u.scheme = "http" && u.authority.any fun a =>
    (a.host = "127.0.0.1" || a.host = "localhost") && a.port.getD 80 = n.port

/-- Whether a server cannot listen at a port. Port zero stands for any free one. -/
def isTaken (n : Network) (port : Nat) : Bool := port ≠ 0 && port = n.port

/-- Statuses whose answers have no content. -/
def isBare (status : Nat) : Bool := status = 204 || status = 304

/-- An answer as it is delivered. -/
def deliver (status : Nat) (content : String) (missing : Nat) : Delivery :=
  if isBare status then .answered status "" true else .answered status content (missing = 0)

/-- Carries a request to the address and its answer back. -/
def exchange (o : Outgoing) : StateM Network Delivery := fun n =>
  if !n.leadsHere o.url then (.failed, n)
  else
    let r := received o
    let noted := { n with arrived := n.arrived ++ [r] }
    match n.peer with
    | .absent => (.failed, n)
    | .server s =>
      let (s, response) := s.respond r
      (deliver response.status response.body.content 0, { noted with peer := .server s })
    | .script [] => (.failed, noted)
    | .script (reply :: rest) =>
      (deliver reply.status reply.content reply.missing, { noted with peer := .script rest })

end Network

end VersionedTopology.Http
