/-
  VersionedTopology.Proofs.Constraint.EdgeKey

  Edges that are told apart by their written forms.

  A graph tells edges apart by their ends. A diff and a batch tell them apart by their written
  forms, so two edges that are written alike have one entry between them, and staging the one drops
  what was staged for the other. Both are told here exactly: what is lost is what reads as
  something else, and nothing more.
-/

import Mathlib.Data.List.Dedup
import VersionedTopology.Proofs.Constraint.Frame
import VersionedTopology.Proofs.Diff.Between
import VersionedTopology.Proofs.Replica.Batch
import VersionedTopology.Proofs.Topology.WrittenForm

namespace VersionedTopology

/-! ## Keys of constraints -/

namespace Constraint

/-- A demand on a link has the key of those constraints that are demands on links with its written
form. -/
theorem key_eq_key_iff_of_isOn {c d : Constraint} {l : Link} (hc : c.IsOn l) :
    d.key = c.key ↔ ∃ k : Link, d.IsOn k ∧ k.text = l.text := by
  cases c with
  | property o t p v => exact hc.elim
  | node o n new => exact hc.elim
  | edge o s t =>
    obtain rfl : l = ⟨s, t⟩ := hc
    cases d with
    | property o' t' p v => simp [key, IsOn]
    | node o' n new => simp [key, IsOn]
    | edge o' s' t' => simp [key, IsOn]

end Constraint

/-! ## Entries of diffs -/

/-- Names without repetition are as many as what they name exactly when no name is shared. -/
theorem length_eq_length_iff {α β : Type} [DecidableEq β] {names : List β} {xs : List α} {f : α → β}
    (hnames : names.Nodup) (hxs : xs.Nodup) (h : ∀ b, b ∈ names ↔ ∃ a ∈ xs, f a = b) :
    names.length = xs.length ↔ ∀ a ∈ xs, ∀ b ∈ xs, f a = f b → a = b := by
  have hperm : names.Perm (xs.map f).dedup := by
    refine (List.perm_ext_iff_of_nodup hnames (List.nodup_dedup _)).mpr fun b => ?_
    rw [h, List.mem_dedup, List.mem_map]
  rw [hperm.length_eq, ← List.nodup_map_iff_inj_on hxs, ← List.dedup_eq_self]
  constructor
  · intro hlength
    exact (List.dedup_sublist _).eq_of_length (by rw [hlength, List.length_map])
  · intro hself
    rw [hself, List.length_map]

namespace TopologyDiff

theorem size_edgeEntries_eq_iff (source target : EdgeSet) :
    (edgeEntries source target).size = (oneSided source target).length ↔
      ∀ l ∈ oneSided source target, ∀ k ∈ oneSided source target, l.text = k.text → l = k := by
  rw [← Std.ExtTreeMap.length_keys]
  refine length_eq_length_iff Std.ExtTreeMap.nodup_keys (nodup_oneSided source target) fun key => ?_
  rw [Std.ExtTreeMap.mem_keys, mem_edgeEntries]

end TopologyDiff

/-- **What is kept under the written form of an edge.** Let the ends of links be identifiers that
were parsed. A link is written like another one exactly when the two are equal or one reads as the
other. So the edge entries of a diff stand under the written forms of the links that only one side
has, and they are as many exactly when none of these reads as another. And when a demand on a link
is staged, the demands on the same link, and on those that it reads as or that read as it, make way
for it; all other constraints stay. -/
theorem edge_key_told {l : Link} {source target : Graph} {b : Batch} {base : VersionNumber}
    (hl : l.Portable) (hsource : ∀ k ∈ source.edges, k.Portable)
    (htarget : ∀ k ∈ target.edges, k.Portable)
    (hheld : ∀ d ∈ b.heldFor base, ∀ k : Link, d.IsOn k → k.Portable) :
    (∀ k : Link, k.Portable → (l.text = k.text ↔ l.Alike k)) ∧
    (∀ key, key ∈ (TopologyDiff.between source target).edges ↔
      ∃ k ∈ TopologyDiff.oneSided source.edges target.edges, k.text = key) ∧
    ((TopologyDiff.between source target).edges.size =
        (TopologyDiff.oneSided source.edges target.edges).length ↔
      ∀ k ∈ TopologyDiff.oneSided source.edges target.edges,
        ∀ m ∈ TopologyDiff.oneSided source.edges target.edges, ¬ k.ReadsAs m) ∧
    ∀ (c : Constraint) (b' : Batch) (replaced : Bool), c.IsOn l →
      b.stage base c = .ok (replaced, b') →
      ∃ kept, b'.constraints = kept ++ [c] ∧ kept.Sublist (b.heldFor base) ∧
        (∀ d ∈ b.heldFor base, d ∈ kept ↔ ¬ ∃ k : Link, d.IsOn k ∧ l.Alike k) ∧
        (replaced = true ↔ ∃ d ∈ b.heldFor base, ∃ k : Link, d.IsOn k ∧ l.Alike k) := by
  refine ⟨fun k hk => Link.text_eq_iff hl hk, fun key => TopologyDiff.mem_edgeEntries, ?_, ?_⟩
  · have hportable : ∀ k ∈ TopologyDiff.oneSided source.edges target.edges, k.Portable := by
      intro k hk
      obtain ⟨hin, -⟩ | ⟨hin, -⟩ := TopologyDiff.mem_oneSided.mp hk
      · exact hsource k hin
      · exact htarget k hin
    rw [TopologyDiff.between, TopologyDiff.size_edgeEntries_eq_iff]
    constructor
    · intro hsame k hk m hm hreads
      exact hreads.ne (hsame k hk m hm hreads.text_eq)
    · intro hnone k hk m hm htext
      obtain heq | h | h := (Link.text_eq_iff (hportable k hk) (hportable m hm)).mp htext
      · exact heq
      · exact absurd h (hnone k hk m hm)
      · exact absurd h (hnone m hm k hk)
  · intro c b' replaced hc h
    -- what has the key of the demand is a demand on a link that is written alike
    have hkey : ∀ d ∈ b.heldFor base, d.key = c.key ↔ ∃ k : Link, d.IsOn k ∧ l.Alike k := by
      intro d hd
      rw [Constraint.key_eq_key_iff_of_isOn hc]
      refine exists_congr fun k => and_congr_right fun hk => ?_
      rw [← Link.text_eq_iff hl (hheld d hd k hk), eq_comm]
    refine ⟨Batch.others (b.heldFor base) c, by rw [Batch.stage_ok h], List.filter_sublist, ?_, ?_⟩
    · intro d hd
      rw [← hkey d hd]
      simp [Batch.others, hd]
    · rw [Batch.replaced_iff h]
      exact exists_congr fun d => and_congr_right fun hd => hkey d hd

namespace Solve

/-- A link and its reverse. -/
def mirrored : Batch := ⟨some 1, [.connect web db, .connect db web]⟩

/-- Names without arrows: each edge has its entry, and a demand makes way for one on its own link
only. -/
theorem edge_key_told_paired :
    Link.Portable ⟨web, db⟩ ∧ (∀ l ∈ paired.edges, l.Portable) ∧
      (∀ d ∈ mirrored.heldFor 1, ∀ k : Link, d.IsOn k → k.Portable) ∧
      (TopologyDiff.between {} paired.toGraph).edges.size = 3 ∧
      ∃ b', mirrored.stage 1 (.disconnect web db) = .ok (true, b') ∧
        Constraint.connect db web ∈ b'.constraints := by
  have hweb : web.Portable := by decide
  have hdb : db.Portable := by decide
  have hportable : ∀ l ∈ paired.edges, l.Portable := by
    intro l hl
    obtain ⟨e, he, rfl⟩ := EdgeSet.mem_collect.mp hl
    simp only [List.mem_cons, List.not_mem_nil, or_false] at he
    rcases he with rfl | rfl | rfl
    · exact ⟨hweb, hdb⟩
    · exact ⟨hdb, hweb⟩
    · exact ⟨hdb, hdb⟩
  have hheld : ∀ d ∈ mirrored.heldFor 1, ∀ k : Link, d.IsOn k → k.Portable := by
    intro d hd k hk
    obtain rfl | rfl : d = .connect web db ∨ d = .connect db web := by
      simpa [mirrored, Batch.heldFor] using hd
    · obtain rfl : k = ⟨web, db⟩ := hk
      exact ⟨hweb, hdb⟩
    · obtain rfl : k = ⟨db, web⟩ := hk
      exact ⟨hdb, hweb⟩
  have hlink : Link.Portable ⟨web, db⟩ := ⟨hweb, hdb⟩
  have hempty : ∀ l ∈ ({} : Graph).edges, l.Portable := by simp
  obtain ⟨htext, -, hdiff, hstage⟩ := edge_key_told hlink hempty hportable hheld
  have hdistinct : ∀ l ∈ TopologyDiff.oneSided ∅ paired.edges,
      ∀ k ∈ TopologyDiff.oneSided ∅ paired.edges, l.text = k.text → l = k := by decide
  have hsize := hdiff.mpr fun l hl k hk h => h.ne (hdistinct l hl k hk h.text_eq)
  have hstaged : mirrored.stage 1 (.disconnect web db) =
      .ok (true, ⟨some 1, [.connect db web, .disconnect web db]⟩) := by decide
  obtain ⟨kept, hkept, -, hstays, -⟩ := hstage (.disconnect web db) _ true rfl hstaged
  refine ⟨hlink, hportable, hheld, hsize.trans (by decide), _, hstaged, ?_⟩
  rw [hkept]
  refine List.mem_append_left _ ((hstays _ (by simp [mirrored, Batch.heldFor])).mpr ?_)
  rintro ⟨k, hk, halike⟩
  obtain rfl : k = ⟨db, web⟩ := hk
  have hwritten : Link.text ⟨web, db⟩ = Link.text ⟨db, web⟩ :=
    (htext ⟨db, web⟩ ⟨hdb, hweb⟩).mpr halike
  exact absurd hwritten (by decide)

/-- A node whose name reads as a node and an edge. -/
def relay : Link := ⟨web, ⟨"aws", "sqs", "jobs -> aws:sns:alerts"⟩⟩

def relayed : Link := ⟨⟨"aws", "ec2", "web -> aws:sqs:jobs"⟩, ⟨"aws", "sns", "alerts"⟩⟩

/-- Two links that are written alike: a diff that adds the one and removes the other has one entry,
and staging a demand on the one drops the demand on the other. -/
theorem edge_key_shared :
    relay.Portable ∧ relayed.Portable ∧ relay ≠ relayed ∧ relay.text = relayed.text ∧
      TopologyDiff.oneSided (EdgeSet.collect [⟨relay, none⟩]) (EdgeSet.collect [⟨relayed, none⟩]) =
        [relay, relayed] ∧
      (TopologyDiff.between { edges := EdgeSet.collect [⟨relay, none⟩] }
        { edges := EdgeSet.collect [⟨relayed, none⟩] }).edges.size = 1 ∧
      (Batch.mk (some 1) [.connect relay.source relay.target]).stage 1
          (.connect relayed.source relayed.target) =
        .ok (true, ⟨some 1, [.connect relayed.source relayed.target]⟩) := by
  refine ⟨⟨by decide, by decide⟩, ⟨by decide, by decide⟩, ?_⟩
  decide

end Solve
end VersionedTopology
