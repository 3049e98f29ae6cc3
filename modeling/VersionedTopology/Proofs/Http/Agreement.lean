/-
  VersionedTopology.Proofs.Http.Agreement

  A store behind HTTP answers as the store itself.

  Every call about one environment goes through the same three parts, and what is left to see for
  each of them is which values it sends and what its handler does. A missing neighbour and a missing
  environment come back with the same status, and are told apart by what was asked.
-/

import VersionedTopology.Proofs.History.Forward
import VersionedTopology.Proofs.Http.Exchange
import VersionedTopology.Proofs.Http.Reachable

namespace VersionedTopology

/-- A version that is there has its neighbours among those that are there. -/
theorem VersionLog.WellFormed.stored_neighbor {key : EnvironmentKey} {log : VersionLog}
    (hlog : log.WellFormed key) {v m : VersionNumber} {e : LogEntry} {d : Direction}
    (he : log.entryAt? v = some e) (h : log.neighbor v e d = some m) :
    ∃ x, log.entryAt? m = some x := by
  cases d with
  | previous => exact Option.isSome_iff_exists.mp (hlog.parentStored v e m he h)
  | next =>
    obtain ⟨⟨x, hx, -⟩, -⟩ := VersionLog.child?_eq_some_iff.mp h
    exact ⟨x, hx⟩

/-- The number of an environment's current version. -/
def Ledger.currentVersion (l : Ledger) (k : EnvironmentKey) : Except Error VersionNumber :=
  (l.get k none).map Snapshot.version

namespace Http

/-- The number of an environment's current version, asked of a server. -/
def Client.currentVersion {m : Type → Type} [Monad m] (exchange : Outgoing → m Delivery)
    (c : Client) (k : EnvironmentKey) : m (Except Error VersionNumber) := do
  return (← c.ask exchange (.fetch k none)).map Snapshot.version

/-! ## What is asked -/

/-- The aspect of an environment that a call is about. Comparisons are about two environments. -/
def place? : Backend.Call → Option (EnvironmentKey × Aspect)
  | .fetch k _ => some (k, .versions)
  | .neighbor k _ d => some (k, .neighbor d)
  | .select k _ => some (k, .versions)
  | .apply k _ => some (k, .constraints)
  | .constraints k => some (k, .constraints)
  | .diff .. => none
  | .inSync .. => none

/-- Numbers and identifiers of a call can be written and read again. -/
def Sendable : Backend.Call → Prop
  | .fetch _ v => ∀ n ∈ v, n ≤ Number.maxUnsigned
  | .neighbor _ v _ => v ≤ Number.maxUnsigned
  | .select _ v => v ≤ Number.maxUnsigned
  | .apply _ r => r.Portable
  | _ => True

/-- The values that a call and its answer carry hold no doubles, nest no deeper than is read, and
are no longer than a server accepts. -/
def Carried (l : Ledger) : Backend.Call → Prop
  | .fetch k v => ∀ s, l.get k v = .ok s → s.toJson.Fits Document.maxDepth
  | .neighbor k v d => ∀ n s, l.neighbor k v d = .ok (some n) → l.get k (some n) = .ok s →
      s.toJson.Fits Document.maxDepth
  | .apply k r =>
    (r.toJson.Fits Document.maxDepth ∧ r.toJson.compact.utf8ByteSize ≤ Server.maxBody) ∧
      ∀ s, (l.submit k r).2 = .ok s → s.toJson.Fits Document.maxDepth
  | .constraints k => ∀ cs, l.history k = .ok cs →
      (Constraint.listToJson cs).Fits Document.maxDepth
  | _ => True

/-- Neighbours are asked for of versions that are there, and a history that is asked for ends. -/
def Settled (l : Ledger) : Backend.Call → Prop
  | .neighbor k v _ => ∃ e, l.Holds k v e
  | .constraints k => ∀ log, l.log? k = some log → ¬ log.SelfParented
  | _ => True

/-! ## Call by call -/

namespace Client

/-- A call over the network answers what the ledger answers, and leaves the ledger that this
leaves. -/
def Agrees (c : Client) (n : Network) (l : Ledger) (call : Backend.Call) : Prop :=
  (c.ask Network.exchange call n).1 = (l.answer call).2 ∧
    ∃ s, (c.ask Network.exchange call n).2.peer = .server s ∧ s.ledger = (l.answer call).1

/-- A number alone is short. -/
theorem utf8ByteSize_select {v : VersionNumber} (hv : v ≤ Number.maxUnsigned) :
    (SelectVersion.toJson ⟨v⟩).compact.utf8ByteSize ≤ Server.maxBody := by
  have hlist : (SelectVersion.toJson ⟨v⟩).compact.toList =
      '{' :: "\"version\":".toList ++ Nat.toDigits 10 v ++ ['}'] := by
    simp [SelectVersion.toJson, Json.compactMembers_cons, Json.quote_toList,
      Json.moreMembers, Json.compact, Json.ofNat, Document.text_int, Json.escape]
  have hlength : (Nat.toDigits 10 v).length ≤ 20 :=
    (Nat.length_toDigits_le_iff (by decide) (by decide)).mpr (Nat.lt_of_le_of_lt hv (by decide))
  have hascii : ∀ c ∈ (SelectVersion.toJson ⟨v⟩).compact.toList, c.toNat < 128 := by
    rw [hlist, List.forall_mem_append, List.forall_mem_append]
    refine ⟨⟨Text.lt_of_all (by decide), fun c hc => ?_⟩, Text.lt_of_all (by decide)⟩
    have hdigit : c.isDigit = true := Nat.isDigit_of_mem_toDigits (by decide) (by decide) hc
    simp only [Char.isDigit, Bool.and_eq_true, decide_eq_true_eq, UInt32.le_iff_toNat_le] at hdigit
    exact Nat.lt_of_le_of_lt hdigit.2 (by decide)
  have hfixed : ('{' :: "\"version\":".toList).length = 11 := by decide
  have hmax : Server.maxBody = 2097152 := rfl
  rw [Text.utf8ByteSize_of_lt hascii, hlist, List.length_append, List.length_append, hfixed,
    List.length_singleton]
  omega

section calls

variable {c : Client} {n : Network} {s : Server} {k : EnvironmentKey}
  (hs : Server.Sound s.ledger) (hopen : Server.Open s.settings) (hpeer : n.peer = .server s)
  (hc : c.Attached n)

include hs hopen hpeer hc

theorem agrees_fetch (hreaches : c.Reaches k .versions) {v : Option VersionNumber}
    (hv : Sendable (.fetch k v)) (hcarried : Carried s.ledger (.fetch k v)) :
    c.Agrees n s.ledger (.fetch k v) := by
  obtain ⟨o, ho, htells⟩ :=
    hc.exists_prepare "GET" k [] (v.map fun v => ("version", toString v)) none
  have hfield := Server.versionField_eq htells.query hv
  have hhandle : ∀ a e, Server.keyOf a e = .ok k →
      Server.handle s.ledger (Network.received o) (.environment a e .versions) =
        .ok (s.ledger, Server.answer Snapshot.toJson (s.ledger.get k v)) := by
    intro a e hkey
    simp [Server.handle, hkey, htells.method, Server.read, hfield, bind, Except.bind, Except.map]
  obtain ⟨hanswer, hledger⟩ := ask_of_handle (.fetch k v) hpeer hopen ho htells hreaches (by decide)
    (.inl rfl) hhandle
  have hread := read_named Snapshot.codec c o
    (fun a ha => ⟨Ledger.portable_get hs.portable hs.wellFormed ha, hcarried a ha⟩)
    (fun e => Ledger.told_get hs.wellFormed hv)
  exact ⟨hanswer.trans hread, hledger⟩

theorem agrees_constraints (hreaches : c.Reaches k .constraints)
    (hsettled : Settled s.ledger (.constraints k)) (hcarried : Carried s.ledger (.constraints k)) :
    c.Agrees n s.ledger (.constraints k) := by
  obtain ⟨o, ho, htells⟩ := hc.exists_prepare "GET" k ["constraints"] none none
  have hhandle : ∀ a e, Server.keyOf a e = .ok k →
      Server.handle s.ledger (Network.received o) (.environment a e .constraints) =
        .ok (s.ledger, Server.answer Constraint.listToJson (s.ledger.history k)) := by
    intro a e hkey
    simp [Server.handle, hkey, htells.method, Server.read, bind, Except.bind, Except.map]
  obtain ⟨hanswer, hledger⟩ := ask_of_handle (.constraints k) hpeer hopen ho htells hreaches
    (by decide) (.inl rfl) hhandle
  have hread := read_named Constraint.listCodec c o
    (fun a ha => ⟨Ledger.portable_history hs.portable hs.wellFormed ha, hcarried a ha⟩)
    (fun e => Ledger.told_history hs.wellFormed hs.ranged hsettled)
  exact ⟨hanswer.trans hread, hledger⟩

theorem agrees_apply (hreaches : c.Reaches k .constraints) {r : ApplyRequest}
    (hr : Sendable (.apply k r)) (hcarried : Carried s.ledger (.apply k r)) :
    c.Agrees n s.ledger (.apply k r) := by
  obtain ⟨o, ho, htells⟩ := hc.exists_prepare "POST" k ["constraints"] none (some r.toJson)
  have hbody := Server.readBody_eq ApplyRequest.codec hr hcarried.1.1 hcarried.1.2
    (htells.contentType rfl) htells.body
  have hhandle : ∀ a e, Server.keyOf a e = .ok k →
      Server.handle s.ledger (Network.received o) (.environment a e .constraints) =
        .ok ((s.ledger.submit k r).1, Server.answer Snapshot.toJson (s.ledger.submit k r).2) := by
    intro a e hkey
    simp [Server.handle, hkey, htells.method, Server.apply, hbody, bind, Except.bind]
  obtain ⟨hanswer, hledger⟩ := ask_of_handle (.apply k r) hpeer hopen ho htells hreaches (by decide)
    (.inr rfl) hhandle
  have hread := read_named Snapshot.codec c o
    (fun a ha => ⟨(Ledger.portable_submit hs.portable hr (Prod.ext rfl ha)).1, hcarried.2 a ha⟩)
    (fun e => Ledger.told_submit hs.portable hs.wellFormed hs.ranged hr)
  exact ⟨hanswer.trans hread, hledger⟩

omit hs in
theorem agrees_select (hreaches : c.Reaches k .versions) {v : VersionNumber}
    (hv : Sendable (.select k v)) : c.Agrees n s.ledger (.select k v) := by
  obtain ⟨o, ho, htells⟩ :=
    hc.exists_prepare "POST" k [] none (some (SelectVersion.toJson ⟨v⟩))
  have hfits : (SelectVersion.toJson ⟨v⟩).Fits Document.maxDepth :=
    Json.Fits.mono (m := 1) (by simp [SelectVersion.toJson]) (by decide)
  have hbody := Server.readBody_eq SelectVersion.codec (a := ⟨v⟩) hv hfits (utf8ByteSize_select hv)
    (htells.contentType rfl) htells.body
  -- the number comes back when it has been selected
  let reported : Except Error SelectVersion := (s.ledger.setCurrent k v).map fun _ => ⟨v⟩
  have hhandle : ∀ a e, Server.keyOf a e = .ok k →
      Server.handle s.ledger (Network.received o) (.environment a e .versions) =
        .ok ((s.ledger.answer (.select k v)).1, Server.answer SelectVersion.toJson reported) := by
    intro a e hkey
    cases hset : s.ledger.setCurrent k v <;>
      simp [Server.handle, hkey, htells.method, Server.select, hbody, hset, bind, Except.bind,
        Ledger.answer, reported, Except.map, Server.answer]
  obtain ⟨hanswer, hledger⟩ := ask_of_handle (.select k v) hpeer hopen ho htells hreaches
    (by decide) (.inr rfl) hhandle
  have htold : ∀ e, reported = .error e → e.Told k (some v) := by
    intro e he
    cases hset : s.ledger.setCurrent k v with
    | error e' =>
      simp only [reported, hset, Except.map, Except.error.injEq] at he
      exact he ▸ Ledger.told_setCurrent hv hset
    | ok l => simp [reported, hset, Except.map] at he
  have hread : nameMissing k (some v) (c.read SelectVersion.decoder o
      (delivered (Server.answer SelectVersion.toJson reported))) = reported := by
    refine read_named SelectVersion.codec c o (fun a ha => ?_) htold
    obtain ⟨l, -, rfl⟩ := map_eq_ok.mp ha
    exact ⟨hv, hfits⟩
  refine ⟨?_, hledger⟩
  rw [hanswer]
  simp only [interpret, hread, Ledger.answer]
  cases hset : s.ledger.setCurrent k v <;> simp [reported, hset, Except.map]

theorem agrees_neighbor {v : VersionNumber} {d : Direction} (hreaches : c.Reaches k (.neighbor d))
    (hv : Sendable (.neighbor k v d)) (hsettled : Settled s.ledger (.neighbor k v d))
    (hcarried : Carried s.ledger (.neighbor k v d)) : c.Agrees n s.ledger (.neighbor k v d) := by
  obtain ⟨e, log, hlog, he⟩ := hsettled
  have hfits : ∀ n ∈ some v, n ≤ Number.maxUnsigned := by
    rintro n ⟨⟩
    exact hv
  obtain ⟨o, ho, htells⟩ := hc.exists_prepare "GET" k [d.word] (some ("version", toString v)) none
  have hfield := Server.versionField_eq (v := some v) htells.query hfits
  have hneighbor : s.ledger.neighbor k v d = .ok (log.neighbor v e d) := by
    simp [Ledger.neighbor, Ledger.find, hlog, he]
  have hhandle : ∀ a e, Server.keyOf a e = .ok k →
      Server.handle s.ledger (Network.received o) (.environment a e (.neighbor d)) =
        .ok (s.ledger, Server.neighbor s.ledger k v d) := by
    intro a e hkey
    simp [Server.handle, hkey, Server.read, hfield, Server.required, bind, Except.bind, Except.map]
  obtain ⟨hanswer, hledger⟩ := ask_of_handle (.neighbor k v d) hpeer hopen ho htells hreaches
    (by cases d <;> decide) (.inl rfl) hhandle
  refine ⟨?_, hledger⟩
  rw [hanswer]
  change _ = s.ledger.neighbor k v d
  cases hm : log.neighbor v e d with
  | none =>
    -- not found, and so no neighbour
    have hresponse : Server.neighbor s.ledger k v d =
        Server.jsonResponse 404 (ErrorBody.noNeighbor k v d).toJson := by
      rw [Server.neighbor, hneighbor, hm]
    have hread : c.read Snapshot.decoder o (delivered (Server.neighbor s.ledger k v d)) =
        .error (k.notFound (some v)) := by
      rw [hresponse]
      exact read_refusal Snapshot.decoder c o rfl rfl (ErrorBody.portable_noNeighbor k hv d)
    rw [hneighbor, hm, interpret, hread]
    rfl
  | some m =>
    obtain ⟨x, hx⟩ := (hs.wellFormed k log hlog).stored_neighbor he hm
    have hget : s.ledger.get k (some m) = .ok x.snapshot := by
      simp [Ledger.get, hlog, hx]
    have hversion : x.snapshot.version = m := (hs.wellFormed k log hlog).numbered m x hx
    have hread : c.read Snapshot.decoder o
        (delivered (Server.answer Snapshot.toJson (s.ledger.get k (some m)))) =
          s.ledger.get k (some m) := by
      refine read_answer Snapshot.codec c o (k := k) (v := some m) (fun a ha => ?_) fun e he => ?_
      · exact ⟨Ledger.portable_get hs.portable hs.wellFormed ha,
          hcarried m a (hneighbor.trans (congrArg Except.ok hm)) ha⟩
      · exact absurd (hget.symm.trans he) (by simp)
    have hresponse : Server.neighbor s.ledger k v d =
        Server.answer Snapshot.toJson (s.ledger.get k (some m)) := by
      rw [Server.neighbor, hneighbor, hm]
    rw [hneighbor, hm, hresponse, interpret, hread, hget, ← hversion]

end calls

/-- **A store behind HTTP answers as the store itself.** After any requests to a server without a
key and without a rate limit, a client at its root gets the same result for a call about an
environment that it reaches, a value or a failure with all that it tells, as a call to the server's
ledger itself, and leaves the ledger that this one leaves. Numbers fit 64 bits, identifiers can be
parsed, values are carried unchanged, a neighbour is asked for of a version that is there, and a
history that is asked for ends, as one that never ends is told by neither side. The current version
is that of the snapshot that is fetched, on both sides. -/
theorem backends_agree {settings : ServerSettings} (hopen : Server.Open settings)
    (rs : List Request) {s : Server} (hs : s = (Server.new settings).run rs) {n : Network}
    (hpeer : n.peer = .server s) {c : Client} (hc : c.Attached n) {call : Backend.Call}
    {k : EnvironmentKey} {aspect : Aspect} (hplace : place? call = some (k, aspect))
    (hreaches : c.Reaches k aspect) (hsendable : Sendable call) (hsettled : Settled s.ledger call)
    (hcarried : Carried s.ledger call) :
    (c.ask Network.exchange call n).1 = (s.ledger.answer call).2 ∧
      (∃ s', (c.ask Network.exchange call n).2.peer = .server s' ∧
        s'.ledger = (s.ledger.answer call).1) ∧
      (call = .fetch k none →
        (c.currentVersion Network.exchange k n).1 = s.ledger.currentVersion k ∧
        (c.currentVersion Network.exchange k n).2 = (c.ask Network.exchange call n).2) := by
  obtain ⟨hsettings, hsound⟩ := Server.run_new settings rs
  rw [← hs] at hsettings hsound
  rw [← hsettings] at hopen
  have hagrees : c.Agrees n s.ledger call := by
    cases call with
    | fetch k' v =>
      obtain ⟨rfl, rfl⟩ := Prod.mk.inj (Option.some.inj hplace)
      exact agrees_fetch hsound hopen hpeer hc hreaches hsendable hcarried
    | neighbor k' v d =>
      obtain ⟨rfl, rfl⟩ := Prod.mk.inj (Option.some.inj hplace)
      exact agrees_neighbor hsound hopen hpeer hc hreaches hsendable hsettled hcarried
    | select k' v =>
      obtain ⟨rfl, rfl⟩ := Prod.mk.inj (Option.some.inj hplace)
      exact agrees_select hopen hpeer hc hreaches hsendable
    | apply k' r =>
      obtain ⟨rfl, rfl⟩ := Prod.mk.inj (Option.some.inj hplace)
      exact agrees_apply hsound hopen hpeer hc hreaches hsendable hcarried
    | constraints k' =>
      obtain ⟨rfl, rfl⟩ := Prod.mk.inj (Option.some.inj hplace)
      exact agrees_constraints hsound hopen hpeer hc hreaches hsettled hcarried
    | diff => exact absurd hplace (by simp [place?])
    | inSync => exact absurd hplace (by simp [place?])
  refine ⟨hagrees.1, hagrees.2, ?_⟩
  rintro rfl
  exact ⟨congrArg (Except.map Snapshot.version) hagrees.1, rfl⟩

/-! ## A batch behind HTTP -/

/-- An environment is started over the network. -/
def opening : List Request :=
  [{ method := "PUT", target := "/architecture/shop/environment/prod"
     headers := [("content-type", "application/json")], body := "\x7b\x7d" }]

/-- The server after that, without a rate limit. -/
def opened : Server := (Server.new { rateLimit := 0 }).run opening

/-- A client of a server at the usual port. -/
def visitor : Client where
  base :=
    { scheme := "http", authority := some { host := "127.0.0.1", port := some 8080 }
      path := .segments [""] }

/-- One constraint for the first version. -/
def batch : ApplyRequest := ⟨1, some 1, [.addResource ⟨"aws", "db", "orders"⟩]⟩

theorem compact_batch : batch.toJson.compact.toList =
    ("\x7b\"version\":1,\"expected_head\":1,\"constraints\":[\x7b\"scope\":\"global\"," ++
      "\"operator\":\"add\",\"node\":\"aws:db:orders\"\x7d]\x7d").toList := by
  have hone : Nat.toDigits 10 1 = ['1'] := by decide
  simp [hone, batch, ApplyRequest.toJson, Constraint.listToJson, Constraint.toJson,
    Constraint.addResource, Json.optionalMember, Json.compact, Json.compactMembers_cons,
    Json.compactItems_cons, Json.moreItems, Json.moreMembers, Json.quote_toList, Json.escape,
    Json.ofNat, Document.text_int, TopologyId.toJson, TopologyId.text, NodeOperator.word]

def delivery : Backend.Call := .apply ⟨"shop", "prod"⟩ batch

/-- The batch becomes the second version, and the client gets it. -/
theorem backends_agree_batch :
    (visitor.ask Network.exchange delivery { port := 8080, peer := .server opened }).1 =
        (opened.ledger.answer delivery).2 ∧
      (∃ s, (opened.ledger.answer delivery).2 = .ok s ∧ s.version = 2) ∧
      ∃ s, (visitor.ask Network.exchange delivery { port := 8080, peer := .server opened }).2.peer =
        .server s ∧ s.ledger = (opened.ledger.answer delivery).1 := by
  have hattached : visitor.Attached { port := 8080, peer := .server opened } :=
    ⟨by decide, ⟨[""], rfl, by decide⟩, rfl, nofun⟩
  have hreaches : visitor.Reaches ⟨"shop", "prod"⟩ .constraints :=
    hattached.reaches ⟨by decide, by decide, by decide⟩ ⟨by decide, by decide, by decide⟩
      (.inl (by decide))
  have hsendable : Sendable delivery := by
    refine ⟨by decide, fun n hn => ?_, ?_⟩
    · obtain rfl := Option.some.inj hn
      decide
    · rintro c hc
      obtain rfl := List.mem_singleton.mp hc
      exact ⟨by decide, nofun⟩
  have hrun : ((opened.ledger.answer delivery).2.toOption.any fun s =>
      s.version = 2 && s.toJson.Fits Document.maxDepth) = true := by decide +kernel
  obtain ⟨s, hs, hversion, hfits⟩ : ∃ s, (opened.ledger.answer delivery).2 = .ok s ∧ s.version = 2 ∧
      s.toJson.Fits Document.maxDepth := by
    cases h : (opened.ledger.answer delivery).2 with
    | error e =>
      rw [h] at hrun
      exact absurd hrun (by simp [Except.toOption])
    | ok s =>
      rw [h] at hrun
      exact ⟨s, rfl, by simpa [Except.toOption] using hrun⟩
  have hcarried : Carried opened.ledger delivery := by
    refine ⟨⟨by decide, ?_⟩, fun t ht => ?_⟩
    · have hascii : batch.toJson.compact.toList.all (fun c => c.toNat < 128) = true := by
        rw [compact_batch]
        decide
      rw [Text.utf8ByteSize_of_lt (Text.lt_of_all hascii), compact_batch]
      decide
    · obtain rfl := Except.ok.inj (hs.symm.trans ht)
      exact hfits
  have hopen : Server.Open { rateLimit := 0 } := ⟨rfl, rfl⟩
  obtain ⟨hresult, hledger, -⟩ := backends_agree hopen opening rfl rfl hattached rfl hreaches
    hsendable trivial hcarried
  exact ⟨hresult, ⟨s, hs, hversion⟩, hledger⟩

end Client
end Http
end VersionedTopology
