/-
  VersionedTopology.Proofs.Http.Reachable

  What a server's ledger is like after any requests.

  A request that comes over the network may be anything at all. Whatever it is, it leaves the ledger
  as it is, or asks it for one act on the environment that its path names, which says nothing that
  could not be written; and success is told exactly when that act succeeds. `Outcome` says so once,
  and the invariants of the ledger hold from the empty one on.
-/

import VersionedTopology.Http.Server
import VersionedTopology.Proofs.History.Portable

namespace VersionedTopology.Http
namespace Server

/-- The server after requests, one after another. -/
def run (s : Server) (rs : List Request) : Server := rs.foldl (fun s r => (s.respond r).1) s

/-- A body that is read as a value is the text of one that can be written. -/
theorem readBody_sound {α : Type} {decoder : Decoder α} {write : α → Json} {valid : α → Prop}
    {k : Nat} (h : Codec decoder write valid k) (hk : k ≤ Document.maxDepth) {r : Request} {a : α}
    (hread : readBody decoder r = .ok a) : valid a := by
  simp only [readBody] at hread
  split at hread
  · exact absurd hread (by simp)
  · split at hread
    · exact absurd hread (by simp)
    · split at hread
      · rename_i b hb
        obtain rfl := Except.ok.inj hread
        exact (h.of_ofText hk hb).1
      · exact absurd hread (by simp)
      · exact absurd hread (by simp)

/-! ## Refusals of requests -/

/-- What is refused is refused with a failure. -/
def Refuses {α : Type} (x : Except Response α) : Prop :=
  ∀ refusal, x = .error refusal → Status.isSuccess refusal.status = false

theorem refuses_ok {α : Type} (a : α) : Refuses (.ok a) := nofun

theorem refuses_error {α : Type} {refusal : Response}
    (h : Status.isSuccess refusal.status = false) :
    Refuses (.error refusal : Except Response α) := by
  rintro _ ⟨rfl⟩
  exact h

theorem Refuses.bind {α β : Type} {x : Except Response α} {f : α → Except Response β}
    (hx : Refuses x) (hf : ∀ a, Refuses (f a)) : Refuses (x >>= f) := by
  cases x with
  | error refusal => exact refuses_error (hx refusal rfl)
  | ok a => exact hf a

theorem Refuses.map {α β : Type} {x : Except Response α} (hx : Refuses x) (f : α → β) :
    Refuses (x.map f) := by
  cases x with
  | error refusal => exact refuses_error (hx refusal rfl)
  | ok a => exact refuses_ok (f a)

theorem refuses_queryField (r : Request) (name : String) : Refuses (queryField r name) := by
  rw [queryField]
  split
  · exact refuses_ok _
  · exact refuses_ok _
  · exact refuses_error rfl

theorem refuses_versionField (r : Request) : Refuses (versionField r) := by
  refine (refuses_queryField r "version").bind fun v => ?_
  cases v with
  | none => exact refuses_ok _
  | some v =>
    dsimp only
    split
    · exact refuses_ok _
    · exact refuses_error rfl

theorem refuses_required {α : Type} (a : Option α) : Refuses (required a) := by
  cases a with
  | none => exact refuses_error rfl
  | some a => exact refuses_ok a

theorem refuses_readBody {α : Type} (decoder : Decoder α) (r : Request) :
    Refuses (readBody decoder r) := by
  simp only [readBody]
  split
  · exact refuses_error rfl
  · split
    · exact refuses_error rfl
    · split
      · exact refuses_ok _
      · exact refuses_error rfl
      · exact refuses_error rfl

theorem refuses_keyOf (architecture environment : String) :
    Refuses (keyOf architecture environment) := by
  rw [keyOf]
  split
  · exact refuses_ok _
  · exact refuses_error rfl

theorem refuses_read (l : Ledger) (k : EnvironmentKey) (r : Request) (aspect : Aspect) :
    Refuses (read l k r aspect) := by
  cases aspect with
  | versions => exact (refuses_versionField r).bind fun v => refuses_ok _
  | neighbor d =>
    exact (refuses_versionField r).bind fun v => (refuses_required v).bind fun n => refuses_ok _
  | constraints => exact refuses_ok _
  | diff =>
    exact (refuses_queryField r "source").bind fun v =>
      (refuses_required v).bind fun source => refuses_ok _
  | inSync =>
    exact (refuses_queryField r "source").bind fun v =>
      (refuses_required v).bind fun source => refuses_ok _

/-- A handler refuses a request only with a failure. -/
theorem refuses_handle (l : Ledger) (r : Request) (route : Route) : Refuses (handle l r route) := by
  cases route with
  | health => exact refuses_ok _
  | environment a e aspect =>
    refine (refuses_keyOf a e).bind fun k => ?_
    split
    · refine (refuses_readBody NewEnvironment.decoder r).bind fun n => ?_
      split <;> exact refuses_ok _
    · refine (refuses_readBody SelectVersion.decoder r).bind fun s => ?_
      split <;> exact refuses_ok _
    · exact (refuses_readBody ApplyRequest.decoder r).bind fun request => refuses_ok _
    · exact (refuses_read l k r _).map _

end Server

/-! ## What a request asks for -/

/-- The path of a request names an environment. -/
def Request.Names (r : Request) (k : EnvironmentKey) : Prop :=
  ∃ a e rest, (Text.split '/' r.path.toList).map String.ofList =
      "" :: "architecture" :: a :: "environment" :: e :: rest ∧
    decodeSegment a = some k.architecture ∧ decodeSegment e = some k.environment

namespace Server

theorem names_of_route {r : Request} {a e : String} {aspect : Aspect} {k : EnvironmentKey}
    (hroute : Route.ofPath? r.path = some (.environment a e aspect)) (hkey : keyOf a e = .ok k) :
    r.Names k := by
  have hsegments : ∃ rest, (Text.split '/' r.path.toList).map String.ofList =
      "" :: "architecture" :: a :: "environment" :: e :: rest := by
    rw [Route.ofPath?] at hroute
    split at hroute
    · exact absurd hroute (by simp)
    · split at hroute
      · rename_i a' e' rest hsplit
        split at hroute
        · exact absurd hroute (by simp)
        · obtain ⟨_, -, heq⟩ := Option.map_eq_some_iff.mp hroute
          obtain ⟨rfl, rfl, -⟩ := Route.environment.inj heq
          exact ⟨rest, hsplit⟩
      · exact absurd hroute (by simp)
  obtain ⟨rest, hsplit⟩ := hsegments
  rw [keyOf] at hkey
  split at hkey
  · rename_i x y hx hy
    obtain rfl := Except.ok.inj hkey
    exact ⟨a, e, rest, hsplit, hx, hy⟩
  · exact absurd hkey (by simp)

/-- The acts that a method asks for. -/
inductive Asks (k : EnvironmentKey) : String → Ledger.Act → Prop
  | create (resources : List Resource) (edges : List Edge) :
      Asks k "PUT" (.create k resources edges)
  | select (v : VersionNumber) : Asks k "POST" (.setCurrent k v)
  | apply (request : ApplyRequest) : Asks k "POST" (.submit k request)

theorem Asks.inRange {k : EnvironmentKey} {method : String} {a : Ledger.Act}
    (h : Asks k method a) : a.InRange := by
  cases h <;> trivial

/-! ## One request -/

/-- What a request over the network comes to: the ledger after it, and the status that is told. -/
inductive Outcome (l : Ledger) (r : Request) : Ledger → Nat → Prop
  /-- It only reads, or it is refused before anything is asked of the ledger. -/
  | kept (status : Nat)
      (hrefused : r.method ∈ ["PUT", "POST"] → Status.isSuccess status = false) :
      Outcome l r l status
  /-- The ledger is asked for an act, which succeeds exactly when success is told. -/
  | acted (k : EnvironmentKey) (a : Ledger.Act) (status : Nat) (hnames : r.Names k)
      (hasks : Asks k r.method a) (hportable : a.Portable)
      (hstatus : Status.isSuccess status = true ↔ l.refusal? a = none) :
      Outcome l r (l.act a) status

variable {l l' : Ledger} {k : EnvironmentKey} {r : Request} {answered : Response}

theorem not_isSuccess_failure (e : Error) : Status.isSuccess (failure e).status = false :=
  ErrorBody.isSuccess_ofError e

theorem Outcome.of_act {a : Ledger.Act} {status : Nat} (hnames : r.Names k)
    (hasks : Asks k r.method a) (hportable : a.Portable) (hledger : l.act a = l')
    (hstatus : Status.isSuccess status = true ↔ l.refusal? a = none) : Outcome l r l' status :=
  hledger ▸ .acted k a status hnames hasks hportable hstatus

theorem outcome_create (hmethod : r.method = "PUT") (hnames : r.Names k)
    (h : create l k r = .ok (l', answered)) : Outcome l r l' answered.status := by
  obtain ⟨n, hread, h⟩ := bind_eq_ok.mp h
  have hn := readBody_sound NewEnvironment.codec (by decide) hread
  have hasks : Asks k r.method (.create k n.resources n.edges) := hmethod ▸ .create _ _
  cases hcreate : l.create k n.resources n.edges with
  | ok made =>
    rw [hcreate] at h
    obtain ⟨rfl, rfl⟩ := Prod.mk.inj (Except.ok.inj h)
    exact .of_act hnames hasks ⟨hn.resources, hn.edges⟩ (by simp [Ledger.act, hcreate])
      (by simp [Ledger.refusal?, Ledger.failure?, hcreate, jsonResponse, Status.isSuccess])
  | error e =>
    rw [hcreate] at h
    obtain ⟨rfl, rfl⟩ := Prod.mk.inj (Except.ok.inj h)
    exact .of_act hnames hasks ⟨hn.resources, hn.edges⟩ (by simp [Ledger.act, hcreate])
      (by simp [Ledger.refusal?, Ledger.failure?, hcreate, not_isSuccess_failure])

theorem outcome_select (hmethod : r.method = "POST") (hnames : r.Names k)
    (h : select l k r = .ok (l', answered)) : Outcome l r l' answered.status := by
  obtain ⟨s, -, h⟩ := bind_eq_ok.mp h
  have hasks : Asks k r.method (.setCurrent k s.version) := hmethod ▸ .select _
  cases hset : l.setCurrent k s.version with
  | ok made =>
    rw [hset] at h
    obtain ⟨rfl, rfl⟩ := Prod.mk.inj (Except.ok.inj h)
    exact .of_act hnames hasks trivial (by simp [Ledger.act, hset])
      (by simp [Ledger.refusal?, Ledger.failure?, hset, jsonResponse, Status.isSuccess])
  | error e =>
    rw [hset] at h
    obtain ⟨rfl, rfl⟩ := Prod.mk.inj (Except.ok.inj h)
    exact .of_act hnames hasks trivial (by simp [Ledger.act, hset])
      (by simp [Ledger.refusal?, Ledger.failure?, hset, not_isSuccess_failure])

theorem outcome_apply (hmethod : r.method = "POST") (hnames : r.Names k)
    (h : apply l k r = .ok (l', answered)) : Outcome l r l' answered.status := by
  obtain ⟨request, hread, h⟩ := bind_eq_ok.mp h
  have hrequest := readBody_sound ApplyRequest.codec (by decide) hread
  have hasks : Asks k r.method (.submit k request) := hmethod ▸ .apply request
  rcases hsubmit : l.submit k request with ⟨l₁, result⟩
  rw [hsubmit] at h
  obtain ⟨rfl, rfl⟩ := Prod.mk.inj (Except.ok.inj h)
  refine .of_act hnames hasks hrequest (by simp [Ledger.act, hsubmit]) ?_
  cases result with
  | ok s => simp [Ledger.refusal?, Ledger.failure?, hsubmit, answer, jsonResponse, Status.isSuccess]
  | error e => simp [Ledger.refusal?, Ledger.failure?, hsubmit, answer, not_isSuccess_failure]

/-- The methods that change something have handlers of their own. -/
theorem not_writes {aspect : Aspect} {method : String} (hmethod : method ∈ aspect.methods)
    (hput : aspect = .versions → method = "PUT" → False)
    (hselect : aspect = .versions → method = "POST" → False)
    (happly : aspect = .constraints → method = "POST" → False) : method ∉ ["PUT", "POST"] := by
  intro hwrites
  simp only [List.mem_cons, List.not_mem_nil, or_false] at hwrites
  obtain rfl | rfl := hwrites <;> cases aspect <;> simp_all [Aspect.methods]

theorem outcome_handle {route : Route} (hroute : Route.ofPath? r.path = some route)
    (hmethod : r.method ∈ route.methods) (h : handle l r route = .ok (l', answered)) :
    Outcome l r l' answered.status := by
  have hread : ∀ status, r.method ∉ ["PUT", "POST"] → Outcome l r l status :=
    fun status hreads => .kept status fun hwrites => absurd hwrites hreads
  cases route with
  | health =>
    obtain ⟨rfl, rfl⟩ := Prod.mk.inj (Except.ok.inj h)
    refine hread _ fun hwrites => ?_
    simp only [Route.methods, List.mem_cons, List.not_mem_nil, or_false] at hmethod hwrites
    obtain hget | hhead := hmethod <;> simp_all
  | environment a e aspect =>
    obtain ⟨k, hkey, hk⟩ := bind_eq_ok.mp h
    have hnames := names_of_route hroute hkey
    -- three handlers ask for acts, and everything else reads
    split at hk
    · rename_i hput
      exact outcome_create hput hnames hk
    · rename_i hpost
      exact outcome_select hpost hnames hk
    · rename_i hpost
      exact outcome_apply hpost hnames hk
    · rename_i aspect _ _ hput hselect happly
      obtain ⟨response, -, heq⟩ := map_eq_ok.mp hk
      obtain ⟨rfl, rfl⟩ := Prod.mk.inj heq
      exact hread _ (not_writes hmethod hput hselect happly)

theorem outcome_dispatch (s : Server) {r : Request} {route : Option Route}
    (hroute : Route.ofPath? r.path = route) :
    Outcome s.ledger r (s.dispatch r route).1.ledger (s.dispatch r route).2.status := by
  have hrefused : ∀ status, Status.isSuccess status = false → Outcome s.ledger r s.ledger status :=
    fun status hstatus => .kept status fun _ => hstatus
  cases route with
  | none => exact hrefused _ rfl
  | some route =>
    simp only [dispatch]
    split
    · exact hrefused _ rfl
    · rename_i hmethod
      cases hhandle : handle s.ledger r route with
      | error refusal => exact hrefused _ (refuses_handle s.ledger r route refusal hhandle)
      | ok answered => exact outcome_handle hroute (by simpa using hmethod) hhandle

/-- Every request comes to an outcome, whatever stands before the routes. -/
theorem outcome_respond (s : Server) (r : Request) :
    Outcome s.ledger r (s.respond r).1.ledger (s.respond r).2.status := by
  simp only [respond]
  split
  · rename_i hoptions
    exact .kept _ fun hwrites => absurd hwrites (by simp [hoptions])
  · simp only [guarded]
    split
    · exact .kept _ fun _ => rfl
    · split
      · exact .kept _ fun _ => rfl
      · exact outcome_dispatch { s with passed := s.passed + 1 } rfl

theorem settings_dispatch (s : Server) (r : Request) (route : Option Route) :
    (s.dispatch r route).1.settings = s.settings := by
  cases route with
  | none => rfl
  | some route =>
    simp only [dispatch]
    split <;> rfl

theorem settings_respond (s : Server) (r : Request) : (s.respond r).1.settings = s.settings := by
  simp only [respond]
  split
  · rfl
  · simp only [guarded]
    split
    · rfl
    · split
      · rfl
      · exact settings_dispatch _ r _

/-! ## Any requests -/

/-- What holds of the ledger of every server that has answered any requests. -/
structure Sound (l : Ledger) : Prop where
  wellFormed : l.WellFormed
  ranged : l.Ranged
  portable : l.Portable

theorem sound_new (schema : Schema) : Sound { schema } :=
  ⟨Ledger.wellFormed_new schema, Ledger.ranged_new schema, Ledger.portable_new schema⟩

theorem Sound.outcome {status : Nat} (h : Sound l) (houtcome : Outcome l r l' status) :
    Sound l' := by
  cases houtcome with
  | kept => exact h
  | acted k a _ hnames hasks hportable =>
    exact ⟨h.wellFormed.advance (Ledger.advance_act a h.wellFormed),
      Ledger.ranged_act h.wellFormed h.ranged hasks.inRange,
      Ledger.portable_act h.portable hportable⟩

theorem run_settings_sound {s : Server} (h : Sound s.ledger) (rs : List Request) :
    (s.run rs).settings = s.settings ∧ Sound (s.run rs).ledger := by
  induction rs generalizing s with
  | nil => exact ⟨rfl, h⟩
  | cons r rs ih =>
    obtain ⟨hrun, hsound⟩ := ih (h.outcome (s.outcome_respond r))
    exact ⟨hrun.trans (s.settings_respond r), hsound⟩

/-- Whatever a new server is asked, it keeps its settings and the invariants of its ledger. -/
theorem run_new (settings : ServerSettings) (rs : List Request) :
    ((new settings).run rs).settings = settings ∧ Sound ((new settings).run rs).ledger :=
  run_settings_sound (sound_new settings.schema) rs

end Server
end VersionedTopology.Http
