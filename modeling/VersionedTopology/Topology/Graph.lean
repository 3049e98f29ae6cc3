/-
  VersionedTopology.Topology.Graph

  The contents of one environment at one point of its history.

  A snapshot holds resources by identifier and edges by their two endpoints. An
  edge is its ordered pair of endpoints; metadata rides along and never tells two
  edges apart, so the edges are a map from endpoint pairs to metadata.
-/

import VersionedTopology.Json.Basic
import VersionedTopology.Topology.Id

namespace VersionedTopology

/-- Numbers of versions, up to `VersionNumber.top`. -/
abbrev VersionNumber := Nat

/-- The greatest version number, `2 ^ 64 - 1`. -/
def VersionNumber.top : VersionNumber := 18446744073709551615

/-- The number after a version; the greatest one stays. -/
def VersionNumber.next (n : VersionNumber) : VersionNumber := if n < top then n + 1 else top

/-- Values of properties by name. -/
abbrev Properties := Std.ExtTreeMap String Json

/-- A node of the graph. `imported` tells that it was adopted rather than authored. -/
structure Resource where
  id : TopologyId
  properties : Properties := ∅
  imported : Bool := false
deriving Inhabited

/-! ## Edges -/

/-- An ordered pair of endpoints. -/
structure Link where
  source : TopologyId
  target : TopologyId
deriving DecidableEq, Repr, Inhabited

namespace Link

/-- The written form, which names the edge in diffs and constraint keys. -/
def text (l : Link) : String := l.source.text ++ " -> " ++ l.target.text

/-- Whether either endpoint is the given node. -/
def touches (l : Link) (id : TopologyId) : Bool := l.source = id || l.target = id

/-- The link with one node renamed at both ends. -/
def rename (l : Link) (old new : TopologyId) : Link :=
  ⟨if l.source = old then new else l.source, if l.target = old then new else l.target⟩

def order : Link → Link → Ordering := compareLex (compareOn source) (compareOn target)

instance : Ord Link := ⟨order⟩

instance : Std.TransOrd Link :=
  inferInstanceAs (Std.TransCmp (compareLex (compareOn source) (compareOn target)))

instance : Std.LawfulEqOrd Link where
  eq_of_compare {a b} h := by
    have h' : compare a.source b.source = .eq ∧ compare a.target b.target = .eq := by
      simpa [compare, order, compareLex_eq_eq, compareOn] using h
    cases a; cases b
    simp only [mk.injEq]
    exact ⟨Std.LawfulEqOrd.eq_of_compare h'.1, Std.LawfulEqOrd.eq_of_compare h'.2⟩

end Link

/-- An edge as it is written: endpoints and optional routing metadata. -/
structure Edge where
  link : Link
  metadata : Option Json := none
deriving DecidableEq, Repr, Inhabited

/-- A set of edges: metadata by endpoints. -/
abbrev EdgeSet := Std.ExtTreeMap Link (Option Json)

namespace EdgeSet

/-- Adds an edge unless one with its endpoints is there. -/
def add (s : EdgeSet) (e : Edge) : EdgeSet := s.insertIfNew e.link e.metadata

/-- The set of listed edges; of edges with equal endpoints the last stays. -/
def collect (edges : List Edge) : EdgeSet :=
  edges.foldl (fun s e => s.insert e.link e.metadata) ∅

/-- The set of listed edges; of edges with equal endpoints the first stays. -/
def gather (edges : List Edge) : EdgeSet := edges.foldl add ∅

/-- The edges in order of their endpoints. -/
def toEdges (s : EdgeSet) : List Edge := s.toList.map fun (l, m) => ⟨l, m⟩

end EdgeSet

/-! ## Problems of a configuration -/

/-- A problem found by validation, possibly tied to a resource or one of its properties. -/
structure Issue where
  resource : Option TopologyId
  property : Option String
  message : String
deriving DecidableEq, Repr, Inhabited

namespace Issue

def ofResource (id : TopologyId) (message : String) : Issue := ⟨some id, none, message⟩

def ofProperty (id : TopologyId) (property message : String) : Issue :=
  ⟨some id, some property, message⟩

/-- The message after what it is about; a property without a resource is not named. -/
def text (i : Issue) : String :=
  match i.resource, i.property with
  | some r, some p => r.text ++ "." ++ p ++ ": " ++ i.message
  | some r, none => r.text ++ ": " ++ i.message
  | none, _ => i.message

end Issue

/-! ## Environments and their snapshots -/

/-- Addresses one environment of one architecture. -/
structure EnvironmentKey where
  architecture : String
  environment : String
deriving DecidableEq, Repr, Inhabited

namespace EnvironmentKey

def text (k : EnvironmentKey) : String := k.architecture ++ "/" ++ k.environment

def order : EnvironmentKey → EnvironmentKey → Ordering :=
  compareLex (compareOn architecture) (compareOn environment)

instance : Ord EnvironmentKey := ⟨order⟩

instance : Std.TransOrd EnvironmentKey :=
  inferInstanceAs (Std.TransCmp (compareLex (compareOn architecture) (compareOn environment)))

instance : Std.LawfulEqOrd EnvironmentKey where
  eq_of_compare {a b} h := by
    have h' : compare a.architecture b.architecture = .eq ∧
        compare a.environment b.environment = .eq := by
      simpa [compare, order, compareLex_eq_eq, compareOn] using h
    cases a; cases b
    simp only [mk.injEq]
    exact ⟨Std.LawfulEqOrd.eq_of_compare h'.1, Std.LawfulEqOrd.eq_of_compare h'.2⟩

end EnvironmentKey

/-- Resources by identifier. -/
abbrev Resources := Std.ExtTreeMap TopologyId Resource

/-- Resources and the edges between them. -/
structure Graph where
  resources : Resources := ∅
  edges : EdgeSet := ∅
deriving Inhabited

/-- One environment's graph at one point of its history. -/
structure Snapshot extends Graph where
  architecture : String
  environment : String
  version : VersionNumber
  issues : List Issue := []
deriving Inhabited

namespace Snapshot

/-- The environment a snapshot belongs to. -/
def key (s : Snapshot) : EnvironmentKey := ⟨s.architecture, s.environment⟩

/-- Stores a resource under its own identifier. -/
def withResource (s : Snapshot) (r : Resource) : Snapshot :=
  { s with resources := s.resources.insert r.id r }

/-- Adds an edge unless one with its endpoints is there. -/
def withEdge (s : Snapshot) (e : Edge) : Snapshot := { s with edges := s.edges.add e }

def resource? (s : Snapshot) (id : TopologyId) : Option Resource := s.resources[id]?

def hasEdge (s : Snapshot) (l : Link) : Bool := s.edges.contains l

end Snapshot

/-- Resources stored under the listed identifiers; of equal ones the last stays. -/
def Resources.collect (rs : List Resource) : Resources :=
  rs.foldl (fun m r => m.insert r.id r) ∅

/-! ## Sameness -/

/-- Whether two maps have the same keys with related values. -/
def sameMap [Ord κ] [Std.TransOrd κ] (related : ν → ν → Bool)
    (a b : Std.ExtTreeMap κ ν) : Bool :=
  a.size = b.size && a.toList.all fun (k, v) =>
    match b[k]? with
    | some w => related v w
    | none => false

def Properties.same (a b : Properties) : Bool := sameMap (fun v w => decide (Json.Same v w)) a b

def Resource.same (a b : Resource) : Bool :=
  a.id = b.id && Properties.same a.properties b.properties && a.imported = b.imported

/-- Equality of snapshots: edges by endpoints, values as JSON. -/
def Snapshot.same (a b : Snapshot) : Bool :=
  a.architecture = b.architecture && a.environment = b.environment && a.version = b.version &&
    sameMap Resource.same a.resources b.resources &&
    sameMap (fun _ _ => true) a.edges b.edges && a.issues = b.issues

end VersionedTopology
