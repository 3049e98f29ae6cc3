/-
  VersionedTopology.Topology.Id

  Identifiers of the nodes of a graph.

  The written form is `provider:kind:name`. The first two colons separate the
  parts, so only the name may hold further colons; no part may be empty. An
  identifier that was not parsed can hold any three strings.
-/

import Std.Data.ExtTreeMap

namespace VersionedTopology

/-- Identifies a resource, or an endpoint of an edge. -/
structure TopologyId where
  provider : String
  kind : String
  name : String
deriving DecidableEq, Repr, Inhabited

/-- Splits at the first colon. -/
def cutColon : List Char → Option (List Char × List Char)
  | [] => none
  | c :: cs => if c = ':' then some ([], cs) else (cutColon cs).map fun (a, b) => (c :: a, b)

namespace TopologyId

/-- The written form. -/
def text (id : TopologyId) : String := id.provider ++ ":" ++ id.kind ++ ":" ++ id.name

/-- Reads a written form. -/
def parse? (s : String) : Option TopologyId :=
  match cutColon s.toList with
  | none => none
  | some (provider, rest) =>
    match cutColon rest with
    | none => none
    | some (kind, name) =>
      if provider.isEmpty || kind.isEmpty || name.isEmpty then none
      else some ⟨String.ofList provider, String.ofList kind, String.ofList name⟩

/-! ## Order: by provider, then kind, then name -/

def order : TopologyId → TopologyId → Ordering :=
  compareLex (compareOn provider) (compareLex (compareOn kind) (compareOn name))

instance : Ord TopologyId := ⟨order⟩

instance : Std.TransOrd TopologyId :=
  inferInstanceAs
    (Std.TransCmp (compareLex (compareOn provider) (compareLex (compareOn kind) (compareOn name))))

instance : Std.LawfulEqOrd TopologyId where
  eq_of_compare {a b} h := by
    have h' : compare a.provider b.provider = .eq ∧ compare a.kind b.kind = .eq ∧
        compare a.name b.name = .eq := by
      simpa [compare, order, compareLex_eq_eq, compareOn] using h
    obtain ⟨hp, hk, hn⟩ := h'
    cases a; cases b
    simp only [mk.injEq]
    exact ⟨Std.LawfulEqOrd.eq_of_compare hp, Std.LawfulEqOrd.eq_of_compare hk,
      Std.LawfulEqOrd.eq_of_compare hn⟩

end TopologyId

end VersionedTopology
