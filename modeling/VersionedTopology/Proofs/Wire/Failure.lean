/-
  VersionedTopology.Proofs.Wire.Failure

  Failures sent and received.

  A server puts a failure into a status and a body, and a client makes a failure of both. For what
  a version store can refuse, the two are inverse: a name or a version that is not found, a version
  that is behind, and issues with the constraints.
-/

import VersionedTopology.Proofs.Wire.Request

namespace VersionedTopology

namespace Json

/-- A value without doubles that nests at most so many brackets. -/
def Fits (n : Nat) (j : Json) : Prop := j.Exact ∧ j.depth ≤ n

instance (n : Nat) : DecidablePred (Fits n) := fun _ => inferInstanceAs (Decidable (_ ∧ _))

theorem Fits.mono {m n : Nat} {j : Json} (h : j.Fits m) (hle : m ≤ n) : j.Fits n :=
  ⟨h.1, Nat.le_trans h.2 hle⟩

@[simp] theorem fits_string (n : Nat) (s : String) : (string s).Fits n := by
  simp [Fits, depth]

@[simp] theorem fits_ofNat (n v : Nat) : (ofNat v).Fits n := by
  simp [Fits, ofNat, depth]

@[simp] theorem fits_array {n : Nat} {xs : List Json} :
    (array xs).Fits (n + 1) ↔ ∀ x ∈ xs, x.Fits n := by
  simp only [Fits, exact_array, depth_array_le, forall_and]

@[simp] theorem fits_object {n : Nat} {ms : List (String × Json)} :
    (object ms).Fits (n + 1) ↔ ∀ m ∈ ms, m.2.Fits n := by
  simp only [Fits, exact_object, depth_object_le, forall_and]

@[simp] theorem fits_optionalMember {α : Type} {n : Nat} {name : String} {f : α → Json}
    {o : Option α} : (∀ m ∈ optionalMember name f o, m.2.Fits n) ↔ ∀ a ∈ o, (f a).Fits n := by
  cases o <;> simp [optionalMember]

end Json

theorem Issue.fits_toJson (i : Issue) : i.toJson.Fits 1 := by
  simp only [toJson, Json.fits_object, List.forall_mem_append, List.forall_mem_singleton,
    Json.fits_optionalMember, TopologyId.toJson, Json.fits_string, implies_true, and_self]

namespace ErrorBody

/-- The body of a failure holds texts and numbers in three brackets. -/
theorem fits_toJson (b : ErrorBody) : b.toJson.Fits 3 := by
  have hissues : (Json.array (b.errors.map Issue.toJson)).Fits 2 := by
    simp [Issue.fits_toJson]
  have herrors : ∀ m ∈ if b.errors.isEmpty then [] else
      [("errors", Json.array (b.errors.map Issue.toJson))], m.2.Fits 2 := by
    split <;> simp [hissues]
  simpa only [toJson, Json.fits_object, List.forall_mem_append, List.forall_mem_cons,
    Json.fits_optionalMember, Json.fits_string, Json.fits_ofNat, implies_true, true_and,
    List.not_mem_nil, false_implies] using herrors

theorem ofText_compact {b : ErrorBody} (h : b.Portable) :
    decoder.ofText b.toJson.compact = .ok b := by
  obtain ⟨hexact, hdepth⟩ := b.fits_toJson.mono (by decide : 3 ≤ Document.maxDepth)
  exact codec.ofText_compact h hexact hdepth

theorem portable_noNeighbor (k : EnvironmentKey) {v : VersionNumber} (hv : v ≤ Number.maxUnsigned)
    (d : Direction) : (noNeighbor k v d).Portable where
  version := by simpa [noNeighbor] using hv
  serverVersion := by simp [noNeighbor]
  clientVersion := by simp [noNeighbor]
  errors := by simp [noNeighbor]

end ErrorBody

/-! ## Refusals of a version store -/

/-- What a version store may fail with when it is asked for a version of an environment. -/
inductive Error.Told (k : EnvironmentKey) (v : Option VersionNumber) : Error → Prop
  /-- The environment, or the version, is not there. -/
  | notFound (hv : ∀ n ∈ v, n ≤ Number.maxUnsigned) : Told k v (k.notFound v)
  | staleVersion {seen server : VersionNumber} (hseen : seen ≤ Number.maxUnsigned)
      (hserver : server ≤ Number.maxUnsigned) : Told k v (.staleVersion seen server)
  | config {issues : List Issue} (hne : issues ≠ []) (hissues : ∀ i ∈ issues, i.Portable) :
      Told k v (.config issues)

namespace ErrorBody

variable {k : EnvironmentKey} {v : Option VersionNumber} {e : Error}

theorem portable_ofError (h : e.Told k v) : (ofError e).2.Portable := by
  cases h with
  | notFound hv => exact ⟨hv, nofun, nofun, nofun⟩
  | staleVersion hseen hserver =>
    exact ⟨nofun, by simpa [ofError] using hserver, by simpa [ofError] using hseen, nofun⟩
  | config hne hissues => exact ⟨nofun, nofun, nofun, hissues⟩

/-- Status and body tell the whole failure. -/
theorem toError_ofError (h : e.Told k v) : (ofError e).2.toError (ofError e).1 = e := by
  cases h with
  | notFound hv => rfl
  | staleVersion hseen hserver => rfl
  | config hne hissues =>
    have hsome : List.isEmpty _ = false := List.isEmpty_eq_false_iff.mpr hne
    simp [ofError, toError, hsome]

/-- Refusals never look like success. -/
theorem isSuccess_ofError (e : Error) : Status.isSuccess (ofError e).1 = false := by
  cases e <;> rfl

end ErrorBody

end VersionedTopology
