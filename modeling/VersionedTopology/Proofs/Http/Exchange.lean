/-
  VersionedTopology.Proofs.Http.Exchange

  One call over the network, from the client to the server and back.

  The request tells the server what the client wants to know, the server's handler turns that into
  a result, and the client reads the result out of the answer. Each of the three parts is one lemma
  here, for whatever values are sent; what the single calls send comes later.
-/

import VersionedTopology.Proofs.Http.Address
import VersionedTopology.Proofs.Json.Codec
import VersionedTopology.Proofs.Json.Text
import VersionedTopology.Proofs.Wire.Failure

namespace VersionedTopology

/-! ## Numbers in a query -/

namespace Text

/-- Digits are read as the number that they write. -/
theorem readDigits_toDigits {n : Nat} (hn : n ≤ max64) (cs : List Char) :
    readDigits max64 0 (Nat.toDigits 10 n ++ cs) = readDigits max64 n cs := by
  -- by the number without its last digit
  induction n using Nat.strong_induction_on generalizing cs with
  | _ n ih =>
    have hstep : ∀ m d, d < 10 → 10 * m + d ≤ max64 → ∀ cs,
        readDigits max64 m (Nat.digitChar d :: cs) = readDigits max64 (10 * m + d) cs := by
      intro m d hd hle cs
      rw [readDigits, Document.isDigit_digitChar d hd, Document.digitChar_value d hd]
      simp [Nat.not_lt.mpr hle]
    by_cases hsmall : n < 10
    · rw [Nat.toDigits_of_lt_base hsmall, List.singleton_append, hstep 0 n hsmall (by omega),
        Nat.mul_zero, Nat.zero_add]
    · have hlt : n / 10 < n := by omega
      have hsum : 10 * (n / 10) + n % 10 = n := by omega
      rw [Nat.toDigits_of_base_le (by decide) (by omega), List.append_assoc,
        ih (n / 10) hlt (by omega), List.singleton_append,
        hstep (n / 10) (n % 10) (by omega) (hsum.symm ▸ hn), hsum]

theorem readUnsigned_toString {n : Nat} (hn : n ≤ max64) :
    readUnsigned max64 (toString n) = .ok n := by
  have hread := readDigits_toDigits hn []
  rw [List.append_nil] at hread
  have hlist : (toString n).toList = Nat.toDigits 10 n := String.toList_ofList
  obtain ⟨c, cs, hdigits, hdigit, -⟩ := Document.exists_toDigits_cons n
  have hplus : c ≠ '+' := by
    rintro rfl
    exact absurd hdigit (by decide)
  rw [readUnsigned, hlist]
  rw [hdigits] at hread ⊢
  split
  · rename_i hnil
    exact absurd hnil (by simp)
  · rename_i hsingle
    exact absurd (List.cons.inj hsingle).1 hplus
  · rename_i hcons
    exact absurd (List.cons.inj hcons).1 hplus
  · exact hread

end Text

namespace Http

/-! ## What the server reads -/

namespace Server

/-- Nothing stands before the routes: neither a key nor a rate limit. -/
def Open (s : ServerSettings) : Prop := s.apiKey.bind ApiKey.ofText? = none ∧ s.rateLimit = 0

theorem versionField_eq {r : Request} {v : Option VersionNumber}
    (h : queryPairs r.query = (v.map fun v => ("version", toString v)).toList)
    (hv : ∀ n ∈ v, n ≤ Number.maxUnsigned) : versionField r = .ok v := by
  cases v with
  | none =>
    simp only [Option.map_none, Option.toList_none] at h
    simp [versionField, queryField, h, bind, Except.bind]
  | some n =>
    simp only [Option.map_some, Option.toList_some] at h
    have hread := Text.readUnsigned_toString (hv n rfl)
    simp only [versionField, queryField, h, bind, Except.bind, List.filter_cons_of_pos,
      decide_true, List.filter_nil, hread]

/-- A body that a value was written into is read as this value. -/
theorem readBody_eq {α : Type} {decoder : Decoder α} {write : α → Json} {valid : α → Prop} {k : Nat}
    (h : Codec decoder write valid k) {a : α} (ha : valid a)
    (hfits : (write a).Fits Document.maxDepth)
    (hsize : (write a).compact.utf8ByteSize ≤ maxBody) {r : Request}
    (htype : r.headers.lookup "content-type" = some "application/json")
    (hbody : r.body = (write a).compact) : readBody decoder r = .ok a := by
  have hjson : announcesJson "application/json" = true := by decide +kernel
  rw [readBody, htype, hbody, h.ofText_compact ha hfits.1 hfits.2]
  simp [hjson, hsize]

/-- Where nothing stands before the routes, a request is answered by its handler. -/
theorem respond_of_handle {s : Server} (hopen : Open s.settings) {r : Request} {route : Route}
    (hroute : Route.ofPath? r.path = some route) (hmethod : r.method ∈ route.methods)
    (hplain : r.method = "GET" ∨ r.method = "POST") {l : Ledger} {answered : Response}
    (h : handle s.ledger r route = .ok (l, answered)) :
    (s.respond r).1.ledger = l ∧ (s.respond r).2.status = answered.status ∧
      (s.respond r).2.body = answered.body := by
  obtain ⟨hkey, hrate⟩ := hopen
  -- pages that ask in advance and questions without an answer's body use other methods
  have hoptions : r.method ≠ "OPTIONS" ∧ r.method ≠ "HEAD" := by
    rcases hplain with hmethod | hmethod <;> simp [hmethod]
  have hauthorized : ∀ passed, isAuthorized { s with passed } r = true := by
    intro passed
    simp [isAuthorized, hkey]
  simp [respond, hroute, hoptions.1, hoptions.2, guarded, hrate, hauthorized, dispatch, hmethod, h]

end Server

/-! ## What the client reads -/

namespace Client

/-- A response as the client gets it. -/
def delivered (r : Response) : Delivery := Network.deliver r.status r.body.content 0

/-- The body of a refusal is read as the failure that it stands for. -/
theorem read_refusal {α : Type} (decoder : Decoder α) (c : Client) (o : Outgoing) {status : Nat}
    (hbare : Network.isBare status = false) (hsuccess : Status.isSuccess status = false)
    {body : ErrorBody} (hbody : body.Portable) :
    c.read decoder o (delivered (Server.jsonResponse status body.toJson)) =
      .error (body.toError status) := by
  have hfailure : failure status body.toJson.compact = body.toError status := by
    rw [failure, ErrorBody.ofText_compact hbody]
  simp [read, delivered, Server.jsonResponse, Network.deliver, Body.content, hbare, hsuccess,
    hfailure]

theorem read_failure {α : Type} (decoder : Decoder α) (c : Client) (o : Outgoing) {e : Error}
    {k : EnvironmentKey} {v : Option VersionNumber} (h : e.Told k v) :
    c.read decoder o (delivered (Server.failure e)) = .error e := by
  have hbare : Network.isBare (ErrorBody.ofError e).1 = false := by
    cases h <;> rfl
  have hread := read_refusal decoder c o hbare (ErrorBody.isSuccess_ofError e)
    (ErrorBody.portable_ofError h)
  rwa [ErrorBody.toError_ofError h] at hread

/-- **What is answered is read.** A value that can be written and a refusal that can be told come
back as they were. -/
theorem read_answer {α : Type} {decoder : Decoder α} {write : α → Json} {valid : α → Prop} {i : Nat}
    (h : Codec decoder write valid i) (c : Client) (o : Outgoing) {result : Except Error α}
    {k : EnvironmentKey} {v : Option VersionNumber}
    (hok : ∀ a, result = .ok a → valid a ∧ (write a).Fits Document.maxDepth)
    (herror : ∀ e, result = .error e → e.Told k v) :
    c.read decoder o (delivered (Server.answer write result)) = result := by
  cases result with
  | ok a =>
    obtain ⟨ha, hfits⟩ := hok a rfl
    have hread := h.ofText_compact ha hfits.1 hfits.2
    simp [read, delivered, Server.answer, Server.jsonResponse, Network.deliver, Body.content,
      Network.isBare, Status.isSuccess, hread]
  | error e => exact read_failure decoder c o (herror e rfl)

/-- A refusal that is told has its names already. -/
theorem nameMissing_eq {α : Type} {result : Except Error α} {k : EnvironmentKey}
    {v : Option VersionNumber} (h : ∀ e, result = .error e → e.Told k v) :
    nameMissing k v result = result := by
  cases result with
  | ok a => rfl
  | error e =>
    cases h e rfl with
    | notFound hv =>
      -- without a name in the answer, the same failure is made again
      simp only [nameMissing, EnvironmentKey.notFound]
      split <;> rfl
    | _ => rfl

/-- What is answered to a question about a version of an environment is read, and has its names. -/
theorem read_named {α : Type} {decoder : Decoder α} {write : α → Json} {valid : α → Prop} {i : Nat}
    (h : Codec decoder write valid i) (c : Client) (o : Outgoing) {result : Except Error α}
    {k : EnvironmentKey} {v : Option VersionNumber}
    (hok : ∀ a, result = .ok a → valid a ∧ (write a).Fits Document.maxDepth)
    (herror : ∀ e, result = .error e → e.Told k v) :
    nameMissing k v (c.read decoder o (delivered (Server.answer write result))) = result := by
  rw [read_answer h c o hok herror, nameMissing_eq herror]

/-! ## From end to end -/

variable {c : Client} {n : Network} {s : Server}

/-- The answer to a call is read from the response to its request. -/
theorem ask_eq {call : Backend.Call} {o : Outgoing} (hpeer : n.peer = .server s)
    (hrequest : c.request call = .ok o) (hleads : n.leadsHere o.url) :
    (c.ask Network.exchange call n).1 =
        c.interpret o (delivered (s.respond (Network.received o)).2) call ∧
      (c.ask Network.exchange call n).2.peer =
        .server (s.respond (Network.received o)).1 := by
  have hexchange : Network.exchange o n =
      (delivered (s.respond (Network.received o)).2,
        { n with arrived := n.arrived ++ [Network.received o]
                 peer := .server (s.respond (Network.received o)).1 }) := by
    simp [Network.exchange, hleads, hpeer, delivered]
  have hask : c.ask Network.exchange call n =
      (c.interpret o (Network.exchange o n).1 call, (Network.exchange o n).2) := by
    rw [ask, hrequest]
    rfl
  rw [hask, hexchange]
  exact ⟨rfl, rfl⟩

/-- A call is answered by the handler of its aspect. -/
theorem ask_of_handle (call : Backend.Call) (hpeer : n.peer = .server s)
    (hopen : Server.Open s.settings) {o : Outgoing} (hrequest : c.request call = .ok o)
    {method : String} {k : EnvironmentKey} {aspect : Aspect} {field : Option (String × String)}
    {body : Option Json} (htells : c.Tells n o method k aspect.tail field body)
    (hreaches : c.Reaches k aspect) (hmethod : method ∈ aspect.methods)
    (hplain : method = "GET" ∨ method = "POST") {l : Ledger} {answered : Response}
    (hhandle : ∀ a e, Server.keyOf a e = .ok k →
      Server.handle s.ledger (Network.received o) (.environment a e aspect) = .ok (l, answered)) :
    (c.ask Network.exchange call n).1 = c.interpret o (delivered answered) call ∧
      ∃ s', (c.ask Network.exchange call n).2.peer = .server s' ∧ s'.ledger = l := by
  obtain ⟨a, e, hroute, hkey⟩ := hreaches
  rw [← htells.path] at hroute
  obtain ⟨hledger, hstatus, hbody⟩ := Server.respond_of_handle hopen hroute
    (by rw [htells.method]; exact hmethod) (by rw [htells.method]; exact hplain) (hhandle a e hkey)
  obtain ⟨hanswer, hpeer'⟩ := ask_eq hpeer hrequest htells.leads
  refine ⟨?_, _, hpeer', hledger⟩
  rw [hanswer, delivered, hstatus, hbody, delivered]

end Client
end Http
end VersionedTopology
