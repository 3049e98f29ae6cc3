/-
  VersionedTopology.Proofs.Http.Authorization

  What a request without the key learns of a server, and what it does to it.

  It learns nothing and changes nothing. It is refused, or it asks for the server's health, or for
  what web pages may do; in each case the answer is the one that a server without any environment
  gives. So two servers with the same settings cannot be told apart by such requests, whatever they
  hold, and both go on holding it.
-/

import VersionedTopology.Http.Server
import VersionedTopology.Proofs.Http.Percent
import VersionedTopology.Proofs.Http.Reachable

namespace VersionedTopology.Http

/-! ## Comparing keys -/

namespace ApiKey

/-- Differences are gathered and never lost: nothing is found exactly where nothing differs. -/
theorem foldl_differences (acc : UInt8) {xs ys : List UInt8} (hlength : xs.length = ys.length) :
    (xs.zip ys).foldl (fun acc (x, y) => acc ||| (x ^^^ y)) acc = 0 ↔ acc = 0 ∧ xs = ys := by
  induction xs generalizing acc ys with
  | nil => simp [List.length_eq_zero_iff.mp hlength.symm]
  | cons x xs ih =>
    cases ys with
    | nil => exact absurd hlength (by simp)
    | cons y ys =>
      rw [List.zip_cons_cons, List.foldl_cons, ih _ (Nat.succ.inj hlength),
        UInt8.or_eq_zero_iff, UInt8.xor_eq_zero_iff, List.cons.injEq, and_assoc]

theorem agree_iff {xs ys : List UInt8} (hlength : xs.length = ys.length) :
    agree xs ys = true ↔ xs = ys := by
  rw [agree, decide_eq_true_iff, foldl_differences 0 hlength]
  exact and_iff_right rfl

theorem padded_of_le {n : Nat} {bs : List UInt8} (h : n ≤ bs.length) : padded n bs = bs := by
  rw [padded, Nat.sub_eq_zero_of_le h, List.replicate_zero, List.append_nil]

/-- A text is accepted exactly if its bytes are those of the key, zeros among them or not. -/
theorem accepts_iff (k : ApiKey) (provided : String) :
    k.accepts provided = true ↔ Text.bytes provided = Text.bytes k.text := by
  simp only [accepts, Bool.and_eq_true, decide_eq_true_iff]
  constructor
  · rintro ⟨hagree, hlength⟩
    -- texts of one length are not filled up
    rw [padded_of_le (by omega), padded_of_le (by omega)] at hagree
    exact (agree_iff hlength).mp hagree
  · intro heq
    rw [heq]
    exact ⟨(agree_iff rfl).mpr rfl, rfl⟩

/-- A zero at the end does not get lost among those that the shorter text is filled up with. -/
example : (ApiKey.mk "key" (by decide)).accepts "key\x00" = false := by decide +kernel

theorem accepts_iff_eq (k : ApiKey) (provided : String) :
    k.accepts provided = true ↔ provided = k.text := by
  rw [accepts_iff]
  refine ⟨fun heq => ?_, fun heq => heq ▸ rfl⟩
  have hread := congrArg Text.ofBytes? heq
  rwa [Text.ofBytes?_bytes, Text.ofBytes?_bytes, Option.some.injEq] at hread

end ApiKey

/-! ## Bearing a key -/

/-- The first field for credentials holds the key, after `Bearer ` or on its own. What stands after
one `Bearer ` is taken as it is, also where it begins with another. -/
def Request.Bears (r : Request) (key : String) : Prop :=
  ∃ v, r.headers.lookup "authorization" = some v ∧ isPlainValue v ∧
    (v = "Bearer " ++ key ∨ v = key ∧ ∀ rest, v ≠ "Bearer " ++ rest)

namespace Server

theorem startsWith_iff_exists (p v : String) : v.startsWith p = true ↔ ∃ rest, v = p ++ rest := by
  rw [String.startsWith_string_iff]
  constructor
  · rintro ⟨rest, hrest⟩
    exact ⟨String.ofList rest, String.toList_inj.mp (by simp [hrest])⟩
  · rintro ⟨rest, rfl⟩
    simp

theorem drop_bearer (rest : String) : (("Bearer " ++ rest).drop 7).toString = rest :=
  String.toList_inj.mp (by simp)

theorem bearer_eq_some_iff (r : Request) (key : String) :
    bearer r = some key ↔ r.Bears key := by
  simp only [bearer, Option.map_eq_some_iff, Option.filter_eq_some_iff, Request.Bears, and_assoc]
  refine exists_congr fun v => and_congr_right fun _ => and_congr_right fun _ => ?_
  split
  · rename_i hstarts
    -- the rest is compared as it is, whatever it begins with
    obtain ⟨rest, rfl⟩ := (startsWith_iff_exists _ _).mp hstarts
    rw [drop_bearer]
    constructor
    · rintro rfl
      exact .inl rfl
    · rintro (heq | ⟨-, hno⟩)
      · exact String.append_right_inj _ |>.mp heq
      · exact absurd rfl (hno rest)
  · rename_i hstarts
    have hno : ∀ rest, v ≠ "Bearer " ++ rest :=
      fun rest heq => hstarts ((startsWith_iff_exists _ _).mpr ⟨rest, heq⟩)
    exact ⟨fun heq => .inr ⟨heq, hno⟩, fun hbears => hbears.elim (absurd · (hno key)) And.left⟩

/-- Settings with a key and without a rate limit. -/
structure Locked (settings : ServerSettings) (key : String) : Prop where
  apiKey : settings.apiKey = some key
  nonempty : key ≠ ""
  rateLimit : settings.rateLimit = 0

variable {key : String}

/-- Behind a key, a request may pass that bears it, or that asks for the health. -/
theorem isAuthorized_iff {s : Server} (h : Locked s.settings key) (r : Request) :
    s.isAuthorized r = true ↔ r.path = "/health" ∨ r.Bears key := by
  have hkey : s.settings.apiKey.bind ApiKey.ofText? = some ⟨key, h.nonempty⟩ := by
    rw [h.apiKey, Option.bind_some, ApiKey.ofText?, dif_neg h.nonempty]
  rw [isAuthorized, hkey]
  simp only [Bool.or_eq_true, decide_eq_true_iff, Option.any_eq_true, ApiKey.accepts_iff_eq]
  refine or_congr_right ⟨?_, fun hbears => ⟨key, (bearer_eq_some_iff r key).mpr hbears, rfl⟩⟩
  rintro ⟨provided, hprovided, rfl⟩
  exact (bearer_eq_some_iff r provided).mp hprovided

/-! ## One request without the key -/

/-- What a request without the key is answered behind the layer for web pages. -/
def outside (r : Request) : Response :=
  if r.path = "/health" then
    if Route.health.methods.contains r.method then jsonResponse 200 Health.healthy.toJson
    else refuse 405
  else ⟨401, .text "Unauthorized", []⟩

theorem dispatch_health (s : Server) (r : Request) :
    s.dispatch r (some .health) =
      (s, if Route.health.methods.contains r.method then jsonResponse 200 Health.healthy.toJson
        else refuse 405) := by
  simp only [dispatch]
  cases Route.health.methods.contains r.method <;> rfl

theorem guarded_unauthorized {s : Server} (h : Locked s.settings key) {r : Request}
    (hr : ¬ r.Bears key) :
    s.guarded r (Route.ofPath? r.path) = ({ s with passed := s.passed + 1 }, outside r) := by
  have hpass := isAuthorized_iff (s := { s with passed := s.passed + 1 }) h r
  simp only [guarded, h.rateLimit, Nat.lt_irrefl, false_and, if_false]
  by_cases hpath : r.path = "/health"
  · rw [if_neg (by simp [hpass.mpr (.inl hpath)]), hpath]
    exact (dispatch_health _ r).trans (by rw [outside, if_pos hpath])
  · have hshut : isAuthorized { s with passed := s.passed + 1 } r = false :=
      Bool.eq_false_iff.mpr fun hopen => (hpass.mp hopen).elim hpath hr
    rw [hshut, outside, if_neg hpath]
    rfl

/-- A request without the key leaves a server as it is, and the settings and the request alone
make its answer. -/
theorem respond_unauthorized {s : Server} (h : Locked s.settings key) {r : Request}
    (hr : ¬ r.Bears key) :
    (s.respond r).1.ledger = s.ledger ∧ (s.respond r).2 = ((new s.settings).respond r).2 := by
  have hnew := guarded_unauthorized (s := new s.settings) h hr
  simp only [respond, guarded_unauthorized h hr, hnew]
  split <;> exact ⟨rfl, rfl⟩

theorem status_unauthorized {s : Server} (h : Locked s.settings key) {r : Request}
    (hr : ¬ r.Bears key) (hpath : r.path ≠ "/health") (hmethod : r.method ≠ "OPTIONS") :
    (s.respond r).2.status = 401 := by
  simp only [respond, guarded_unauthorized h hr, if_neg hmethod, outside, if_neg hpath]

/-! ## Any requests without the key -/

/-- The answers to requests, one after another. -/
def answers (s : Server) : List Request → List Response
  | [] => []
  | r :: rs => (s.respond r).2 :: (s.respond r).1.answers rs

theorem run_cons (s : Server) (r : Request) (rs : List Request) :
    s.run (r :: rs) = (s.respond r).1.run rs := rfl

theorem run_unauthorized {s : Server} (h : Locked s.settings key) {rs : List Request}
    (hrs : ∀ r ∈ rs, ¬ r.Bears key) :
    (s.run rs).ledger = s.ledger ∧ (s.run rs).settings = s.settings ∧
      s.answers rs = rs.map fun r => ((new s.settings).respond r).2 := by
  induction rs generalizing s with
  | nil => exact ⟨rfl, rfl, rfl⟩
  | cons r rs ih =>
    have hsettings := s.settings_respond r
    obtain ⟨hr, hrs⟩ := List.forall_mem_cons.mp hrs
    obtain ⟨hledger, hanswer⟩ := respond_unauthorized h hr
    -- the server after the first request is behind the same key
    obtain ⟨hledgers, hrun, hanswers⟩ := ih (hsettings ▸ h) hrs
    rw [run_cons, answers, List.map_cons, hanswer, hanswers, hsettings]
    exact ⟨hledgers.trans hledger, hrun.trans hsettings, rfl⟩

/-- **Requests without the key learn nothing and change nothing.** Two servers behind the same key
and without a rate limit, whatever they hold, answer any requests that do not bear the key alike,
and hold afterwards what they held before. Every such request is refused, unless it asks for the
health or is answered in advance for a web page. A text is accepted for a key exactly if both have
the same bytes, however many, and whether or not zeros are among them. -/
theorem unauthorized_indistinguishable {settings : ServerSettings} {key : String}
    (hlocked : Locked settings key) {s t : Server} (hs : s.settings = settings)
    (ht : t.settings = settings) {rs : List Request} (hrs : ∀ r ∈ rs, ¬ r.Bears key) :
    s.answers rs = t.answers rs ∧
    ((s.run rs).ledger = s.ledger ∧ (s.run rs).settings = settings) ∧
    ((t.run rs).ledger = t.ledger ∧ (t.run rs).settings = settings) ∧
    (∀ r answered, (r, answered) ∈ rs.zip (s.answers rs) → r.path ≠ "/health" →
      r.method ≠ "OPTIONS" → answered.status = 401) ∧
    ∀ (k : ApiKey) (provided : String),
      k.accepts provided = true ↔ Text.bytes provided = Text.bytes k.text := by
  obtain ⟨hsledger, hssettings, hsanswers⟩ := run_unauthorized (hs ▸ hlocked) hrs
  obtain ⟨htledger, htsettings, htanswers⟩ := run_unauthorized (ht ▸ hlocked) hrs
  refine ⟨?_, ⟨hsledger, hssettings.trans hs⟩, ⟨htledger, htsettings.trans ht⟩,
    fun r answered hanswered hpath hmethod => ?_, ApiKey.accepts_iff⟩
  · rw [hsanswers, htanswers, hs, ht]
  · have hr : ¬ r.Bears key := hrs r (List.of_mem_zip hanswered).1
    rw [hsanswers, ← List.map_prod_left_eq_zip, List.mem_map] at hanswered
    obtain ⟨_, -, hpair⟩ := hanswered
    obtain ⟨rfl, rfl⟩ := Prod.mk.inj hpair
    exact status_unauthorized (s := new s.settings) (hs ▸ hlocked) hr hpath hmethod

/-- Reading the environment `shop/prod` with almost the key `secret`: without any, with a byte too
few and with one too many, in small letters, and after a second `Bearer `. -/
def nearMisses : List Request :=
  [[], [("authorization", "Bearer secre")], [("authorization", "Bearer secret ")],
    [("authorization", "bearer secret")], [("authorization", "Bearer Bearer secret")]].map
    fun headers => { method := "GET", target := "/architecture/shop/environment/prod", headers }

/-- An empty server and one that holds `shop/prod` cannot be told apart by any of these. -/
theorem unauthorized_indistinguishable_nearMisses :
    let settings : ServerSettings := { apiKey := some "secret", rateLimit := 0 }
    let s := new settings
    let t := { s with ledger := s.ledger.act (.create ⟨"shop", "prod"⟩ [] []) }
    s.ledger.log? ⟨"shop", "prod"⟩ = none ∧ (t.ledger.log? ⟨"shop", "prod"⟩).isSome ∧
      s.answers nearMisses = t.answers nearMisses ∧ (t.run nearMisses).ledger = t.ledger := by
  intro settings s t
  have hrs : ∀ r ∈ nearMisses, ¬ r.Bears "secret" := by
    intro r hr hbears
    have hbearer : ∀ r ∈ nearMisses, bearer r ≠ some "secret" := by decide +kernel
    exact hbearer r hr ((bearer_eq_some_iff r "secret").mpr hbears)
  obtain ⟨hanswers, -, hkept, -⟩ :=
    unauthorized_indistinguishable (s := s) (t := t) ⟨rfl, by decide, rfl⟩ rfl rfl hrs
  exact ⟨rfl, by decide +kernel, hanswers, hkept.1⟩

end Server
end VersionedTopology.Http
