/-
  VersionedTopology.Proofs.Diff.InSync

  Environments in sync.

  A diff is empty exactly between graphs that are in sync, so being told in sync is an equivalence
  between the environments of an architecture. What a batch makes of the current version of an
  environment is told by that version, and the solver cannot tell graphs in sync apart; so
  environments that are in sync are so again once the same batches have reached both of them, in
  whatever order the requests of different environments come in.
-/

import VersionedTopology.Proofs.Constraint.InSync
import VersionedTopology.Proofs.Diff.Between
import VersionedTopology.Proofs.History.Replay

namespace VersionedTopology

/-! ## Empty diffs -/

namespace TopologyDiff

/-- There is no entry for resources that are alike, and for an identifier that is not used. -/
theorem entryOf_eq_none_iff {id : TopologyId} {before after : Option Resource} :
    entryOf id before after = none ↔ Option.Rel Resource.Alike before after := by
  cases before with
  | none => cases after <;> simp [entryOf]
  | some b =>
    cases after with
    | none => simp [entryOf]
    | some a =>
      rw [Option.rel_some_some, Resource.alike_iff, ← isEmpty_propertyChanges]
      simp [entryOf]

theorem isEmpty_resourceEntries {source target : Resources} :
    (resourceEntries source target).isEmpty = true ↔
      ∀ id : TopologyId, Option.Rel Resource.Alike source[id]? target[id]? := by
  rw [Std.ExtTreeMap.isEmpty_iff, Std.ExtTreeMap.eq_empty_iff_forall_not_mem]
  constructor
  · intro hnone id
    rw [← entryOf_eq_none_iff, ← Option.not_isSome_iff_eq_none]
    exact fun hentry => hnone id.text (mem_resourceEntries.mpr ⟨id, rfl, hentry⟩)
  · intro halike key hkey
    obtain ⟨id, -, hentry⟩ := mem_resourceEntries.mp hkey
    rw [entryOf_eq_none_iff.mpr (halike id)] at hentry
    exact absurd hentry (by simp)

theorem isEmpty_edgeEntries {source target : EdgeSet} :
    (edgeEntries source target).isEmpty = true ↔ ∀ l, l ∈ source ↔ l ∈ target := by
  simp only [Std.ExtTreeMap.isEmpty_iff, Std.ExtTreeMap.eq_empty_iff_forall_not_mem,
    mem_edgeEntries, mem_oneSided]
  constructor
  · intro hnone l
    -- a link of one side only would have its entry
    have hl : ¬ (l ∈ source ∧ l ∉ target ∨ l ∈ target ∧ l ∉ source) :=
      fun h => hnone l.text ⟨l, h, rfl⟩
    tauto
  · rintro hsame key ⟨l, h, -⟩
    rw [hsame l] at h
    tauto

/-- A diff is empty exactly between graphs that are in sync. -/
theorem isEmpty_between {g h : Graph} : (between g h).isEmpty = true ↔ g.InSync h := by
  rw [isEmpty, Bool.and_eq_true, between, isEmpty_resourceEntries, isEmpty_edgeEntries]
  constructor
  · rintro ⟨hresources, hedges⟩
    exact ⟨hresources, hedges⟩
  · rintro ⟨hresources, hedges⟩
    exact ⟨hresources, hedges⟩

end TopologyDiff

/-! ## Current versions -/

/-- What a batch makes of the current graph of an environment; one that is too long or is refused
changes nothing. -/
def Solve.settle (schema : Schema) (g : Graph) (cs : List Constraint) : Graph :=
  if cs.length ≤ Ledger.maxSubmission ∧ (run schema g cs).issues = [] then (run schema g cs).graph
  else g

theorem Solve.settle_inSync (schema : Schema) {g h : Graph} (hsync : g.InSync h)
    (cs : List Constraint) : (settle schema g cs).InSync (settle schema h cs) := by
  obtain ⟨hgraph, hissues⟩ := run_like Resource.unseen_alike schema hsync cs
  simp only [settle, hissues]
  split
  · exact hgraph
  · exact hsync

namespace Ledger

/-- Two environments of an architecture are told to be in sync. -/
def TellsInSync (l : Ledger) (architecture source target : String) : Prop :=
  (l.answer (.inSync architecture source target)).2 = .ok true

/-- Submits a batch on the current version of an environment. -/
def submitCurrent (l : Ledger) (key : EnvironmentKey) (cs : List Constraint) :
    Ledger × Except Error Snapshot :=
  match l.log? key with
  | none => (l, .error (key.notFound none))
  | some log => l.submit key ⟨log.current, some log.current, cs⟩

/-- The ledger after batches were submitted, each on the current version of its environment. -/
def submitAll (l : Ledger) (batches : List (EnvironmentKey × List Constraint)) : Ledger :=
  batches.foldl (fun l b => (l.submitCurrent b.1 b.2).1) l

/-- The batches for one environment. -/
def batchesFor (key : EnvironmentKey) (batches : List (EnvironmentKey × List Constraint)) :
    List (List Constraint) :=
  (batches.filter fun b => b.1 = key).map Prod.snd

variable {l : Ledger} {key : EnvironmentKey} {s : Snapshot}

theorem get_current_iff : l.get key none = .ok s ↔
    ∃ log e, l.log? key = some log ∧ log.entryAt? log.current = some e ∧ e.snapshot = s := by
  rw [get]
  cases l.log? key with
  | none => simp
  | some log => cases hentry : log.entryAt? log.current <;> simp [hentry]

theorem tellsInSync_iff {architecture source target : String} :
    l.TellsInSync architecture source target ↔
      ∃ s t, l.get ⟨architecture, source⟩ none = .ok s ∧ l.get ⟨architecture, target⟩ none = .ok t ∧
        s.toGraph.InSync t.toGraph := by
  simp only [TellsInSync, answer, diff, ← TopologyDiff.isEmpty_between]
  cases l.get ⟨architecture, source⟩ none with
  | error e => simp [Except.map]
  | ok s => cases l.get ⟨architecture, target⟩ none <;> simp [Except.map]

/-- What is pushed is current. -/
theorem get_withLog_push (l : Ledger) (key : EnvironmentKey) (log : VersionLog) (e : LogEntry) :
    (l.withLog key (log.push e)).get key none = .ok e.snapshot := by
  refine get_current_iff.mpr ⟨log.push e, e, ?_, ?_, rfl⟩
  · rw [log?_withLog, if_pos rfl]
  · rw [VersionLog.current_push, VersionLog.entryAt?_push, if_pos rfl]

/-- What a submission makes of the current version of its environment is told by that version. -/
theorem get_submitCurrent (hs : l.get key none = .ok s) (cs : List Constraint) :
    ∃ t, (l.submitCurrent key cs).1.get key none = .ok t ∧
      t.toGraph = Solve.settle l.schema s.toGraph cs := by
  obtain ⟨log, e, hlog, he, rfl⟩ := get_current_iff.mp hs
  have hfind : l.find key log.current = .ok (log, e) := by simp [find, hlog, he]
  have hfresh : ¬ (some log.current).any (fun expected => log.current > expected) = true := by simp
  -- the request names the current version, so only its length and the solver decide
  simp only [submitCurrent, hlog, submit, hfind, if_neg hfresh, Solve.settle]
  by_cases hlength : cs.length ≤ maxSubmission
  · rw [if_neg (Nat.not_lt.mpr hlength)]
    by_cases hissues : (Solve.run l.schema e.snapshot.toGraph cs).issues = []
    · rw [if_pos ⟨hlength, hissues⟩]
      simp only [solve, hissues, List.isEmpty_nil, if_true]
      exact ⟨_, get_withLog_push _ key log _, rfl⟩
    · rw [if_neg fun h => hissues h.2]
      simp only [solve, List.isEmpty_iff, hissues, if_false]
      exact ⟨e.snapshot, hs, rfl⟩
  · rw [if_pos (Nat.lt_of_not_le hlength), if_neg fun h => hlength h.1]
    exact ⟨e.snapshot, hs, rfl⟩

/-- Submissions to other environments change nothing. -/
theorem get_submitCurrent_of_ne {key' : EnvironmentKey} (hne : key ≠ key')
    (cs : List Constraint) : (l.submitCurrent key' cs).1.get key none = l.get key none := by
  rw [submitCurrent]
  cases l.log? key' with
  | none => rfl
  | some log =>
    have hlog := (acted_submit l key' ⟨log.current, some log.current, cs⟩).log?_of_ne hne
    rw [get, get, ← hlog]
    rfl

theorem schema_submitCurrent (l : Ledger) (key : EnvironmentKey) (cs : List Constraint) :
    (l.submitCurrent key cs).1.schema = l.schema := by
  rw [submitCurrent]
  split
  · rfl
  · exact schema_submit l key _

/-- The current graph of an environment is told by the one that it had, and by the batches for it.
-/
theorem get_submitAll (batches : List (EnvironmentKey × List Constraint))
    (hs : l.get key none = .ok s) :
    ∃ t, (l.submitAll batches).get key none = .ok t ∧
      t.toGraph = (batchesFor key batches).foldl (Solve.settle l.schema) s.toGraph := by
  -- the current version changes from batch to batch; the schema stays
  induction batches generalizing l s with
  | nil => exact ⟨s, hs, rfl⟩
  | cons b batches ih =>
    obtain ⟨key', cs⟩ := b
    have hschema := schema_submitCurrent l key' cs
    by_cases hkey : key' = key
    · subst hkey
      obtain ⟨s₁, hs₁, hgraph⟩ := get_submitCurrent hs cs
      obtain ⟨t, ht, hsettled⟩ := ih hs₁
      rw [hschema, hgraph] at hsettled
      exact ⟨t, ht, by simpa [batchesFor] using hsettled⟩
    · obtain ⟨t, ht, hsettled⟩ := ih ((get_submitCurrent_of_ne (Ne.symm hkey) cs).trans hs)
      rw [hschema] at hsettled
      exact ⟨t, ht, by simpa [batchesFor, hkey] using hsettled⟩

/-- Environments in sync are so again after the same batches. -/
theorem TellsInSync.submitAll {architecture e f : String} (h : l.TellsInSync architecture e f)
    {batches : List (EnvironmentKey × List Constraint)}
    (hsame : batchesFor ⟨architecture, e⟩ batches = batchesFor ⟨architecture, f⟩ batches) :
    (l.submitAll batches).TellsInSync architecture e f := by
  obtain ⟨s, t, hs, ht, hsync⟩ := tellsInSync_iff.mp h
  obtain ⟨s', hs', hgraph⟩ := get_submitAll batches hs
  obtain ⟨t', ht', hgraph'⟩ := get_submitAll batches ht
  refine tellsInSync_iff.mpr ⟨s', t', hs', ht', ?_⟩
  -- both graphs come from graphs in sync, along the same batches
  rw [hgraph, hgraph', hsame]
  exact List.foldl_rel hsync fun cs _ _ _ hgh => Solve.settle_inSync _ hgh cs

end Ledger

/-- **In sync is an equivalence that solving respects.** A diff is empty exactly when both graphs
have the same identifiers of resources, the same properties under each, and the same links. So being
told in sync is reflexive on the environments that have a current version, symmetric and transitive.
Where the diff of two snapshots is empty, every batch is refused on both for the same issues, or is
accepted on both with results whose diff is empty. And two environments in sync are so again after
any batches on current versions, among which those for the one are those for the other. -/
theorem inSync_respected :
    (∀ g h : Graph, (TopologyDiff.between g h).isEmpty = true ↔
      (∀ id, id ∈ g.resources ↔ id ∈ h.resources) ∧
      (∀ (id : TopologyId) r s, g.resources[id]? = some r → h.resources[id]? = some s →
        r.properties.same s.properties = true) ∧
      ∀ k, k ∈ g.edges ↔ k ∈ h.edges) ∧
    (∀ (l : Ledger) (a : String),
      (∀ e s, l.get ⟨a, e⟩ none = .ok s → l.TellsInSync a e e) ∧
      (∀ e f, l.TellsInSync a e f → l.TellsInSync a f e) ∧
      ∀ e f g, l.TellsInSync a e f → l.TellsInSync a f g → l.TellsInSync a e g) ∧
    (∀ a b : Snapshot, (TopologyDiff.between a.toGraph b.toGraph).isEmpty = true →
      ∀ (schema : Schema) (cs : List Constraint),
        (∃ issues, solve a cs schema = .error (.config issues) ∧
          solve b cs schema = .error (.config issues)) ∨
        ∃ s t, solve a cs schema = .ok s ∧ solve b cs schema = .ok t ∧
          (TopologyDiff.between s.toGraph t.toGraph).isEmpty = true) ∧
    ∀ (l : Ledger) (a e f : String), l.TellsInSync a e f →
      ∀ batches, Ledger.batchesFor ⟨a, e⟩ batches = Ledger.batchesFor ⟨a, f⟩ batches →
        (l.submitAll batches).TellsInSync a e f := by
  refine ⟨fun g h => ?_, fun l a => ⟨fun e s hs => ?_, fun e f => ?_, fun e f g => ?_⟩, ?_, ?_⟩
  · exact TopologyDiff.isEmpty_between.trans Graph.inSync_iff
  · exact Ledger.tellsInSync_iff.mpr ⟨s, s, hs, hs, .refl _⟩
  · simp only [Ledger.tellsInSync_iff]
    rintro ⟨s, t, hs, ht, hst⟩
    exact ⟨t, s, ht, hs, hst.symm⟩
  · simp only [Ledger.tellsInSync_iff]
    rintro ⟨s, t, hs, ht, hst⟩ ⟨t', u, ht', hu, htu⟩
    -- the environment in between has one current version
    obtain rfl := Except.ok.inj (ht.symm.trans ht')
    exact ⟨s, u, hs, hu, hst.trans htu⟩
  · intro a b hempty schema cs
    simp only [TopologyDiff.isEmpty_between] at hempty ⊢
    exact solve_inSync hempty cs schema
  · intro l a e f hsync batches hsame
    exact hsync.submitAll hsame

namespace Ledger

def cache : TopologyId := ⟨"aws", "elasticache", "cache"⟩

def store : TopologyId := ⟨"aws", "memorydb", "store"⟩

/-- A cache as it was authored for development. -/
def authored : Resource where
  id := cache
  properties := (∅ : Properties).insert "tags"
    (.array [.object [("team", .string "web"), ("tier", .ofNat 1)]])

/-- The cache as it was taken over in production. -/
def adopted : Resource where
  id := cache
  properties := (∅ : Properties).insert "tags"
    (.array [.object [("tier", .ofNat 1), ("team", .string "web")]])
  imported := true

/-- Two environments with the cache and an edge, which is routed in production. -/
def twins : Ledger :=
  ({} : Ledger).acts
    [.create ⟨"shop", "dev"⟩ [authored] [⟨⟨cache, cache⟩, none⟩],
      .create ⟨"shop", "prod"⟩ [adopted] [⟨⟨cache, cache⟩, some (.string "tls")⟩]]

/-- A tag that the cache has, and a new name for it; then something that no cache has any more. -/
def rollout : List (List Constraint) :=
  [[.property .add cache "tags" (.object [("team", .string "web"), ("tier", .ofNat 1)]),
      .node .replace cache (some store)],
    [.removeResource cache]]

/-- Development gets both batches first. -/
def staged : List (EnvironmentKey × List Constraint) :=
  rollout.map (Prod.mk ⟨"shop", "dev"⟩) ++ rollout.map (Prod.mk ⟨"shop", "prod"⟩)

/-- What differs between the environments does not count, and does not come to count. -/
theorem inSync_respected_twins :
    authored.same adopted = false ∧ twins.TellsInSync "shop" "dev" "prod" ∧
      (twins.submitAll staged).TellsInSync "shop" "dev" "prod" ∧
      ∃ s, (twins.submitAll staged).get ⟨"shop", "prod"⟩ none = .ok s ∧ s.version = 2 := by
  have hsync : twins.TellsInSync "shop" "dev" "prod" := by
    unfold TellsInSync
    decide +kernel
  obtain ⟨-, -, -, hstay⟩ := inSync_respected
  exact ⟨by decide, hsync, hstay twins "shop" "dev" "prod" hsync staged rfl, _, rfl, rfl⟩

end Ledger

end VersionedTopology
