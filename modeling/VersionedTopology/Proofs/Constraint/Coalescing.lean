/-
  VersionedTopology.Proofs.Constraint.Coalescing

  A batch that keeps the last constraint of each key.

  Setting a property and demanding a link do not depend on what was there, so of several such
  constraints on one property or link the last one counts, wherever it stands among the others.
  `Settled` says what a list of them makes of a graph by the last ones alone, and a batch loses none
  of these. Metadata are left out: an edge that is taken away and demanded again loses its own,
  while the demand alone leaves them.
-/

import VersionedTopology.Proofs.Constraint.Exchange
import VersionedTopology.Proofs.Replica.Batch

namespace VersionedTopology

/-! ## Constraints that do not depend on what was there -/

namespace Constraint

/-- A property is set, or a link is demanded or forbidden. -/
def Settles : Constraint → Prop
  | property o .. => o = .equals
  | edge .. => True
  | node .. => False

/-- The value that a property is set to. -/
def written (t : TopologyId) (p : String) : Constraint → Option Json
  | property .equals t' p' v => if t' = t ∧ p' = p then some v else none
  | _ => none

/-- Whether a link is to exist, if there is a demand on it. -/
def asked (l : Link) : Constraint → Option Bool
  | edge o s t => if l = ⟨s, t⟩ then some (o = .mustExist) else none
  | _ => none

/-- What a constraint that settles something has to find in a graph. -/
def Finds (schema : Schema) (g : Graph) : Constraint → Prop
  | property _ t p _ => t ∈ g.resources ∧ schema.allows t.kind p = true
  | edge .mustExist s t => s ∈ g.resources ∧ t ∈ g.resources
  | _ => True

variable {c d : Constraint}

theorem IsOn.footprint_eq {l : Link} (h : c.IsOn l) : c.footprint = [l.source, l.target] := by
  cases c with
  | edge o s t => rw [show l = ⟨s, t⟩ from h, footprint]
  | _ => exact h.elim

/-- Constraints with one key set the same property, as identifiers can be told from their written
form. -/
theorem isSome_written_of_key_eq (hc : c.Settles) (hd : d.Settles)
    (hcid : ∀ id ∈ c.footprint, id.Portable) (hdid : ∀ id ∈ d.footprint, id.Portable)
    (h : c.key = d.key) (t : TopologyId) (p : String) :
    (c.written t p).isSome = (d.written t p).isSome := by
  cases c with
  | node => exact hc.elim
  | edge =>
    cases d with
    | edge => rfl
    | _ => simp [key] at h
  | property o a q v =>
    cases d with
    | property o' b q' w =>
      obtain rfl : o = .equals := hc
      obtain rfl : o' = .equals := hd
      simp only [key, ConstraintKey.mk.injEq, Option.some.injEq, true_and] at h
      obtain rfl := TopologyId.text_inj (hcid a (by simp)) (hdid b (by simp)) h.1
      simp only [written, h.2]
      split <;> rfl
    | _ => simp [key] at h

/-- Constraints with one key demand the same link, where a key stands for one link. -/
theorem isSome_asked_of_key_eq (hlink : ∀ l k : Link, c.IsOn l → d.IsOn k → l = k)
    (h : c.key = d.key) (l : Link) : (c.asked l).isSome = (d.asked l).isSome := by
  cases c with
  | property =>
    cases d with
    | property => rfl
    | _ => simp [key] at h
  | node =>
    cases d with
    | node => rfl
    | _ => simp [key] at h
  | edge o s t =>
    cases d with
    | edge o' s' t' =>
      rw [asked, asked, hlink ⟨s, t⟩ ⟨s', t'⟩ rfl rfl]
      split <;> rfl
    | _ => simp [key] at h

end Constraint

/-! ## Graphs by their properties and links -/

/-- A resource without its properties. -/
def Resource.bare (r : Resource) : Resource := { r with properties := ∅ }

namespace Graph

/-- The value of a property of a stored resource. -/
def property? (g : Graph) (t : TopologyId) (p : String) : Option Json :=
  g.resources[t]?.bind (·.properties[p]?)

/-- The resources are told by what they are without properties, and by the properties. -/
theorem resources_ext {g h : Graph}
    (hbare : ∀ id : TopologyId,
      g.resources[id]?.map Resource.bare = h.resources[id]?.map Resource.bare)
    (hproperty : ∀ t p, g.property? t p = h.property? t p) : g.resources = h.resources := by
  refine Std.ExtTreeMap.ext_getElem? fun id => ?_
  specialize hbare id
  have hvalues := hproperty id
  simp only [property?] at hvalues
  cases hg : g.resources[id]? with
  | none =>
    rw [hg, Option.map_none, eq_comm, Option.map_eq_none_iff] at hbare
    rw [hbare]
  | some r =>
    rw [hg, Option.map_some, eq_comm, Option.map_eq_some_iff] at hbare
    obtain ⟨r', hh, hr'⟩ := hbare
    simp only [hg, hh, Option.bind_some] at hvalues
    obtain ⟨i, ps, m⟩ := r
    obtain ⟨i', ps', m'⟩ := r'
    obtain ⟨rfl, -, rfl⟩ := Resource.mk.inj hr'
    obtain rfl : ps = ps' := Std.ExtTreeMap.ext_getElem? hvalues
    exact hh.symm

end Graph

namespace Solve

variable {schema : Schema} {g g' g'' : Graph} {c : Constraint} {cs ds : List Constraint}

/-- What settling constraints make of a graph: the same resources, each property as it was set last,
and each link as it was asked for last. -/
structure Settled (g : Graph) (cs : List Constraint) (g' : Graph) : Prop where
  bare : ∀ id : TopologyId,
    g'.resources[id]?.map Resource.bare = g.resources[id]?.map Resource.bare
  property : ∀ t p, g'.property? t p =
    (cs.filterMap (Constraint.written t p)).getLast?.or (g.property? t p)
  link : ∀ l, g'.edges.contains l =
    (cs.filterMap (Constraint.asked l)).getLast?.getD (g.edges.contains l)

namespace Settled

theorem nil (g : Graph) : Settled g [] g := ⟨fun _ => rfl, fun _ _ => rfl, fun _ => rfl⟩

theorem append (h : Settled g cs g') (h' : Settled g' ds g'') : Settled g (cs ++ ds) g'' := by
  constructor
  · intro id
    rw [h'.bare, h.bare]
  · intro t p
    rw [h'.property, h.property, List.filterMap_append, List.getLast?_append, Option.or_assoc]
  · intro l
    rw [h'.link, h.link, List.filterMap_append, List.getLast?_append, Option.getD_or]

theorem mem_resources (h : Settled g cs g') {id : TopologyId} :
    id ∈ g'.resources ↔ id ∈ g.resources := by
  have hbare := congrArg Option.isSome (h.bare id)
  rw [Option.isSome_map, Option.isSome_map] at hbare
  rw [Std.ExtTreeMap.mem_iff_isSome_getElem?, Std.ExtTreeMap.mem_iff_isSome_getElem?, hbare]

/-- Settling constraints leave what any of them has to find. -/
theorem finds_iff (h : Settled g cs g') : c.Finds schema g' ↔ c.Finds schema g := by
  cases c with
  | property o t p v => simp only [Constraint.Finds, h.mem_resources]
  | edge o s t => cases o <;> simp only [Constraint.Finds, h.mem_resources]
  | node => exact Iff.rfl

/-- Lists that end alike on each property and each link make the same of a graph. -/
theorem matches_of_getLast? (h : Settled g cs g') (h' : Settled g ds g'')
    (hwritten : ∀ t p, (cs.filterMap (Constraint.written t p)).getLast? =
      (ds.filterMap (Constraint.written t p)).getLast?)
    (hasked : ∀ l, (cs.filterMap (Constraint.asked l)).getLast? =
      (ds.filterMap (Constraint.asked l)).getLast?) : g'.Matches g'' := by
  constructor
  · refine Graph.resources_ext (fun id => ?_) fun t p => ?_
    · rw [h.bare, h'.bare]
    · rw [h.property, h'.property, hwritten]
  · intro l
    rw [← Std.ExtTreeMap.contains_iff_mem, ← Std.ExtTreeMap.contains_iff_mem, h.link, h'.link,
      hasked]

end Settled

/-- What is set or asked for is there afterwards, and everything else is as it was. -/
theorem Worked.settled (hc : c.Settles) (hworked : Worked schema g c g') : Settled g [c] g' := by
  cases hworked with
  | property o t p v r new hr hname hnew =>
    -- the new value is what is set, whatever the old one was
    obtain rfl : o = .equals := hc
    obtain rfl : some v = new := Option.some.inj hnew
    constructor
    · intro id
      simp only [store, Std.ExtTreeMap.getElem?_insert, Std.compare_eq_iff_eq]
      split
      · rename_i heq
        rw [← heq, hr]
        rfl
      · rfl
    · intro t' p'
      simp only [Graph.property?, store, Std.ExtTreeMap.getElem?_insert, Std.compare_eq_iff_eq]
      by_cases ht : t = t'
      · subst ht
        by_cases hp : p = p' <;>
          simp [Constraint.written, hp, hr, Properties.getElem?_put]
      · simp [Constraint.written, ht]
    · intro l
      rfl
  | connect s t hs ht =>
    refine ⟨fun _ => rfl, fun _ _ => rfl, fun l => ?_⟩
    by_cases hl : l = ⟨s, t⟩
    · simp [Constraint.asked, EdgeSet.add, hl]
    · simp [Constraint.asked, EdgeSet.add, hl, Ne.symm hl]
  | disconnect s t =>
    refine ⟨fun _ => rfl, fun _ _ => rfl, fun l => ?_⟩
    by_cases hl : l = ⟨s, t⟩
    · simp [Constraint.asked, hl]
    · simp [Constraint.asked, hl, Ne.symm hl]
  | add => exact hc.elim
  | adopt => exact hc.elim
  | remove => exact hc.elim
  | replace => exact hc.elim

/-- A settling constraint is valid exactly when it finds what it has to. -/
theorem exists_worked_iff (hc : c.Settles) : (∃ g', Worked schema g c g') ↔ c.Finds schema g := by
  constructor
  · rintro ⟨g', hworked⟩
    cases hworked with
    | property o t p v r new hr hname hnew =>
      exact ⟨by simp [Std.ExtTreeMap.mem_iff_isSome_getElem?, hr], hname⟩
    | connect s t hs ht => exact ⟨hs, ht⟩
    | _ => trivial
  · intro hfinds
    cases c with
    | property o t p v =>
      obtain rfl : o = .equals := hc
      have hr := Std.ExtTreeMap.getElem?_eq_some_getElem hfinds.1
      exact ⟨_, .property .equals t p v _ _ hr hfinds.2 rfl⟩
    | edge o s t =>
      cases o with
      | mustExist => exact ⟨_, .connect s t hfinds.1 hfinds.2⟩
      | mustNotExist => exact ⟨_, .disconnect s t⟩
    | node => exact hc.elim

theorem Leads.settled (hcs : ∀ c ∈ cs, c.Settles) (h : Leads schema g cs g') :
    Settled g cs g' := by
  -- what the first one makes of the graph is overruled by what the others settle
  induction cs generalizing g with
  | nil => exact leads_nil_iff.mp h ▸ .nil g
  | cons c cs ih =>
    obtain ⟨g₁, hworked, hrest⟩ := leads_cons_iff.mp h
    obtain ⟨hc, hcs⟩ := List.forall_mem_cons.mp hcs
    exact (hworked.settled hc).append (ih hcs hrest)

/-- Settling constraints are accepted exactly when each of them finds in the first graph what it has
to: none of them gives or takes it. -/
theorem exists_leads_iff (hcs : ∀ c ∈ cs, c.Settles) :
    (∃ g', Leads schema g cs g') ↔ ∀ c ∈ cs, c.Finds schema g := by
  induction cs generalizing g with
  | nil => simp [leads_nil_iff]
  | cons c cs ih =>
    obtain ⟨hc, hcs⟩ := List.forall_mem_cons.mp hcs
    rw [List.forall_mem_cons, ← exists_worked_iff hc]
    simp only [leads_cons_iff]
    -- the rest finds after the first one what it would have found before it
    constructor
    · rintro ⟨g', g₁, hworked, hrest⟩
      refine ⟨⟨g₁, hworked⟩, fun d hd => ?_⟩
      exact (hworked.settled hc).finds_iff.mp ((ih hcs).mp ⟨g', hrest⟩ d hd)
    · rintro ⟨⟨g₁, hworked⟩, hfinds⟩
      obtain ⟨g', hrest⟩ :=
        (ih hcs).mpr fun d hd => (hworked.settled hc).finds_iff.mpr (hfinds d hd)
      exact ⟨g', g₁, hworked, hrest⟩

/-- Any of them may be left out, as long as the last ones on each property and link are kept. -/
theorem Leads.matches_of_getLast? (hcs : ∀ c ∈ cs, c.Settles) (h : Leads schema g cs g')
    (hkept : ∀ d ∈ ds, d ∈ cs)
    (hwritten : ∀ t p, (ds.filterMap (Constraint.written t p)).getLast? =
      (cs.filterMap (Constraint.written t p)).getLast?)
    (hasked : ∀ l, (ds.filterMap (Constraint.asked l)).getLast? =
      (cs.filterMap (Constraint.asked l)).getLast?) :
    ∃ g'', Leads schema g ds g'' ∧ g''.Matches g' := by
  have hds : ∀ d ∈ ds, d.Settles := fun d hd => hcs d (hkept d hd)
  have hfinds := (exists_leads_iff hcs).mp ⟨g', h⟩
  obtain ⟨g'', hleads⟩ := (exists_leads_iff hds).mpr fun d hd => hfinds d (hkept d hd)
  exact ⟨g'', hleads, (hleads.settled hds).matches_of_getLast? (h.settled hcs) hwritten hasked⟩

end Solve

/-- **Only the last constraint of each key counts.** Let a list set properties and demand or forbid
links, by identifiers that were parsed, where the key of a demand stands for one link, and let it
have no more keys than a batch can hold. Staged one after another, all are taken; and when the
whole list is accepted, so is what the batch then holds, with the same resources and with edges
between the same ends. -/
theorem coalesced_batch_sound {base u : Snapshot} {schema : Schema} {cs : List Constraint}
    (n : VersionNumber) (hsettles : ∀ c ∈ cs, c.Settles)
    (hids : ∀ c ∈ cs, ∀ id ∈ c.footprint, id.Portable)
    (hkeys : ∀ c ∈ cs, ∀ d ∈ cs, ∀ l k : Link, c.IsOn l → d.IsOn k → c.key = d.key → l = k)
    (hroom : (cs.map Constraint.key).dedup.length ≤ Batch.limit)
    (h : solve base cs schema = .ok u) :
    ∃ b v, Batch.empty.stageEach n cs = .ok b ∧ solve base b.constraints schema = .ok v ∧
      v.toGraph.Matches u.toGraph := by
  -- a dropped constraint is about the property or the link of a later one
  have hwritten (t : TopologyId) (p : String) :
      ((Batch.coalesce cs).filterMap (Constraint.written t p)).getLast? =
        (cs.filterMap (Constraint.written t p)).getLast? := by
    refine Batch.getLast?_filterMap_coalesce fun c hc d hd hkey => ?_
    exact Constraint.isSome_written_of_key_eq (hsettles c hc) (hsettles d hd) (hids c hc)
      (hids d hd) hkey t p
  have hasked (l : Link) :
      ((Batch.coalesce cs).filterMap (Constraint.asked l)).getLast? =
        (cs.filterMap (Constraint.asked l)).getLast? := by
    refine Batch.getLast?_filterMap_coalesce fun c hc d hd hkey => ?_
    exact Constraint.isSome_asked_of_key_eq (fun l k hl hk => hkeys c hc d hd l k hl hk hkey) hkey l
  obtain ⟨g, hleads, hmatches⟩ := (solve_ok_iff.mp h).1.matches_of_getLast? hsettles
    (fun d => Batch.mem_of_mem_coalesce) hwritten hasked
  obtain ⟨v, hv, rfl⟩ := exists_solve_of_leads hleads
  exact ⟨_, v, Batch.stageEach_empty hroom, hv, hmatches⟩

namespace Solve

/-- A property is set twice and a link is forbidden before it is demanded, around a demand on its
reverse. -/
def restated : List Constraint :=
  [.setProperty db "engine" (.string "mysql"), .disconnect web db, .disconnect db web,
    .setProperty db "engine" (.string "postgres"), .connect web db]

/-- What the batch then holds, and that it comes to the same. -/
theorem coalesced_batch_sound_restated : ∃ u b v, solve paired restated {} = .ok u ∧
    Batch.empty.stageEach 1 restated = .ok b ∧
    b.constraints = [.disconnect db web, .setProperty db "engine" (.string "postgres"),
      .connect web db] ∧
    solve paired b.constraints {} = .ok v ∧ v.toGraph.Matches u.toGraph := by
  obtain ⟨u, hu⟩ : ∃ u, solve paired restated {} = .ok u := ⟨_, rfl⟩
  have hsettles : ∀ c ∈ restated, c.Settles := by
    simp [restated, Constraint.setProperty, Constraint.connect, Constraint.disconnect,
      Constraint.Settles]
  have hids : ∀ c ∈ restated, ∀ id ∈ c.footprint, id.Portable := by decide
  have hkey : ∀ c ∈ restated, ∀ d ∈ restated, c.key = d.key → c.footprint = d.footprint := by
    decide
  have hkeys : ∀ c ∈ restated, ∀ d ∈ restated, ∀ l k : Link, c.IsOn l → d.IsOn k →
      c.key = d.key → l = k := by
    intro c hc d hd l k hl hk heq
    have hends := hkey c hc d hd heq
    rw [hl.footprint_eq, hk.footprint_eq, List.cons.injEq, List.cons.injEq] at hends
    cases l
    cases k
    simp_all
  obtain ⟨b, v, hb, hv, hmatches⟩ :=
    coalesced_batch_sound 1 hsettles hids hkeys (by decide) hu
  have hstaged : Batch.empty.stageEach 1 restated = .ok ⟨some 1, [.disconnect db web,
      .setProperty db "engine" (.string "postgres"), .connect web db]⟩ := by decide
  exact ⟨u, b, v, hu, hb, congrArg Batch.constraints (Except.ok.inj (hb.symm.trans hstaged)), hv,
    hmatches⟩

end Solve

end VersionedTopology
