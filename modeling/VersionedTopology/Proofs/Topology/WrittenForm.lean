/-
  VersionedTopology.Proofs.Topology.WrittenForm

  What the written forms of nodes and links tell.

  The written form of a node is cut at its first two colons, so it tells the node that was parsed
  from it. The written form of a link joins those of its ends by an arrow. A name may hold
  anything, so it may hold an arrow as well, and then it is open which arrow is the one that joins
  the ends. `ReadsAs` says how the name of a source can run on past the arrow of another link; it
  is the only way for two links to be written alike, since everything before the name of the source
  is told by its colons.
-/

import VersionedTopology.Proofs.Wire.Graph

namespace VersionedTopology

/-! ## Nodes -/

theorem cutColon_append {a : List Char} (h : ':' ∉ a) (b : List Char) :
    cutColon (a ++ ':' :: b) = some (a, b) := by
  induction a with
  | nil => rfl
  | cons c a ih =>
    have hc : c ≠ ':' := (List.ne_of_not_mem_cons h).symm
    simp [cutColon, hc, ih (List.not_mem_of_not_mem_cons h)]

theorem not_mem_of_cutColon {cs a b : List Char} (h : cutColon cs = some (a, b)) : ':' ∉ a := by
  induction cs generalizing a with
  | nil => exact absurd h (by simp [cutColon])
  | cons c cs ih =>
    rw [cutColon] at h
    split at h
    · obtain ⟨rfl, -⟩ := Prod.mk.inj (Option.some.inj h)
      exact List.not_mem_nil
    · rename_i hc
      obtain ⟨⟨a', b'⟩, hcut, hcons⟩ := Option.map_eq_some_iff.mp h
      obtain ⟨rfl, rfl⟩ := Prod.mk.inj hcons
      exact List.not_mem_cons_of_ne_of_not_mem (Ne.symm hc) (ih hcut)

/-- Two texts that agree after cutting agree on both sides of their first colon. -/
theorem append_colon_inj {a a' b b' : List Char} (ha : ':' ∉ a) (ha' : ':' ∉ a')
    (h : a ++ ':' :: b = a' ++ ':' :: b') : a = a' ∧ b = b' := by
  have hcut := cutColon_append ha b
  rw [h, cutColon_append ha' b'] at hcut
  obtain ⟨heq, heq'⟩ := Prod.mk.inj (Option.some.inj hcut)
  exact ⟨heq.symm, heq'.symm⟩

namespace TopologyId

theorem toList_text (id : TopologyId) :
    id.text.toList = id.provider.toList ++ ':' :: (id.kind.toList ++ ':' :: id.name.toList) := by
  simp [text]

/-- No part is empty, and only the name may hold a colon. -/
structure WellFormed (id : TopologyId) : Prop where
  provider : id.provider ≠ "" ∧ ':' ∉ id.provider.toList
  kind : id.kind ≠ "" ∧ ':' ∉ id.kind.toList
  name : id.name ≠ ""

/-- Parsing is the inverse of writing, on identifiers that can be told from their written form. -/
theorem parse?_eq_some_iff {s : String} {id : TopologyId} :
    parse? s = some id ↔ id.WellFormed ∧ id.text = s := by
  constructor
  · intro h
    refine ⟨?_, text_of_parse? h⟩
    unfold parse? at h
    split at h
    · exact absurd h (by simp)
    · rename_i provider rest hprovider
      split at h
      · exact absurd h (by simp)
      · rename_i kind name hkind
        split at h
        · exact absurd h (by simp)
        · rename_i hempty
          obtain rfl := Option.some.inj h
          have hparts : (provider ≠ [] ∧ kind ≠ []) ∧ name ≠ [] := by simpa using hempty
          have hp := not_mem_of_cutColon hprovider
          have hk := not_mem_of_cutColon hkind
          constructor
          · simpa using ⟨hparts.1.1, hp⟩
          · simpa using ⟨hparts.1.2, hk⟩
          · simpa using hparts.2
  · rintro ⟨hid, rfl⟩
    have hparts : (id.provider.toList.isEmpty || id.kind.toList.isEmpty ||
        id.name.toList.isEmpty) = false := by
      simp [hid.provider.1, hid.kind.1, hid.name]
    simp only [parse?, toList_text, cutColon_append hid.provider.2, cutColon_append hid.kind.2,
      hparts, Bool.false_eq_true, if_false, String.ofList_toList]

theorem portable_iff_wellFormed {id : TopologyId} : id.Portable ↔ id.WellFormed := by
  rw [Portable, parse?_eq_some_iff]
  exact and_iff_left rfl

end TopologyId

/-! ## Links -/

/-- What stands between the ends of a link. -/
def arrow : List Char := [' ', '-', '>', ' ']

/-- A text that starts with an arrow and has another arrow in it: the two are one, or the second
one starts with the last blank of the first one, or it comes after it. -/
theorem arrow_append_eq_iff {y t u : List Char} :
    arrow ++ t = y ++ (arrow ++ u) ↔
      y = [] ∧ t = u ∨ y = [' ', '-', '>'] ∧ t = ['-', '>', ' '] ++ u ∨
        ∃ x, y = arrow ++ x ∧ t = x ++ (arrow ++ u) := by
  -- the arrows overlap in no other way, which the first characters of `y` show
  match y with
  | [] => simp [arrow]
  | [a] => simp [arrow]
  | [a, b] => simp [arrow]
  | [a, b, c] => simp [arrow]; tauto
  | a :: b :: c :: d :: x => simp [arrow]; tauto

namespace Link

/-- Both ends can be written and read again. -/
structure Portable (l : Link) : Prop where
  source : l.source.Portable
  target : l.target.Portable

theorem toList_text (l : Link) :
    l.text.toList = l.source.provider.toList ++ ':' :: (l.source.kind.toList ++
      ':' :: (l.source.name.toList ++ (arrow ++ l.target.text.toList))) := by
  simp [text, arrow, TopologyId.toList_text]

/-- The written form of `l` reads as another link as well: the name of the source runs on past the
arrow of `l`, up to an arrow in the target of `l`. The two arrows may share a blank. -/
inductive ReadsAs (l : Link) : Link → Prop
  | apart (x : String) (t : TopologyId) (h : l.target.text = x ++ " -> " ++ t.text) :
    ReadsAs l ⟨{ l.source with name := l.source.name ++ " -> " ++ x }, t⟩
  | sharing (t : TopologyId) (h : l.target.text = "-> " ++ t.text) :
    ReadsAs l ⟨{ l.source with name := l.source.name ++ " ->" }, t⟩

/-- Two links are equal, or one reads as the other. -/
def Alike (l k : Link) : Prop := l = k ∨ l.ReadsAs k ∨ k.ReadsAs l

variable {l k : Link}

theorem ReadsAs.text_eq (h : l.ReadsAs k) : l.text = k.text := by
  rw [← String.toList_inj, toList_text, toList_text]
  cases h with
  | apart x t h => simp [h, arrow]
  | sharing t h => simp [h, arrow]

/-- A link reads as those whose source has a longer name. -/
theorem ReadsAs.length_lt (h : l.ReadsAs k) : l.source.name.length < k.source.name.length := by
  cases h with
  | apart x t h =>
    have harrow : " -> ".length = 4 := rfl
    simp only [String.length_append]
    omega
  | sharing t h =>
    have harrow : " ->".length = 3 := rfl
    simp only [String.length_append]
    omega

theorem ReadsAs.ne (h : l.ReadsAs k) : l ≠ k := by
  rintro rfl
  exact absurd h.length_lt (Nat.lt_irrefl _)

/-- A name that runs on to a later arrow, or the same name. -/
theorem eq_or_readsAs {y : List Char} (hl : l.target.Portable) (hk : k.target.Portable)
    (hprovider : l.source.provider = k.source.provider) (hkind : l.source.kind = k.source.kind)
    (hname : k.source.name.toList = l.source.name.toList ++ y)
    (hrest : arrow ++ l.target.text.toList = y ++ (arrow ++ k.target.text.toList)) :
    l = k ∨ l.ReadsAs k := by
  obtain ⟨⟨lp, lk, ln⟩, lt⟩ := l
  obtain ⟨⟨kp, kk, kn⟩, kt⟩ := k
  simp only at hl hk hprovider hkind hname hrest
  subst hprovider hkind
  have hkn : kn = ln ++ String.ofList y := by simp [← String.toList_inj, hname]
  obtain ⟨rfl, htext⟩ | ⟨rfl, htext⟩ | ⟨x, rfl, htext⟩ := arrow_append_eq_iff.mp hrest
  · obtain rfl := TopologyId.text_inj hl hk (String.toList_inj.mp htext)
    exact .inl (by simp [hkn])
  · have hto : lt.text = "-> " ++ kt.text := by simp [← String.toList_inj, htext]
    exact .inr (hkn ▸ .sharing kt hto)
  · have hto : lt.text = String.ofList x ++ " -> " ++ kt.text := by
      simp [← String.toList_inj, htext, arrow]
    have hrun : kn = ln ++ " -> " ++ String.ofList x := by
      simp [← String.toList_inj, hname, arrow]
    exact .inr (hrun ▸ .apart (String.ofList x) kt hto)

/-- Links between nodes that were parsed are written alike exactly when they are equal, or one
reads as the other. -/
theorem text_eq_iff (hl : l.Portable) (hk : k.Portable) : l.text = k.text ↔ l.Alike k := by
  constructor
  · intro h
    have hls := TopologyId.portable_iff_wellFormed.mp hl.source
    have hks := TopologyId.portable_iff_wellFormed.mp hk.source
    rw [← String.toList_inj, toList_text, toList_text] at h
    -- the first two colons belong to the sources, so these agree up to their names
    obtain ⟨hprovider, h⟩ := append_colon_inj hls.provider.2 hks.provider.2 h
    obtain ⟨hkind, h⟩ := append_colon_inj hls.kind.2 hks.kind.2 h
    have hp := String.toList_inj.mp hprovider
    have hkd := String.toList_inj.mp hkind
    obtain ⟨y, hname, hrest⟩ | ⟨y, hname, hrest⟩ := List.append_eq_append_iff.mp h
    · exact (eq_or_readsAs hl.target hk.target hp hkd hname hrest).imp_right .inl
    · exact (eq_or_readsAs hk.target hl.target hp.symm hkd.symm hname hrest).imp .symm .inr
  · rintro (rfl | h | h)
    · rfl
    · exact h.text_eq
    · exact h.text_eq.symm

end Link
end VersionedTopology
