/-
  VersionedTopology.Proofs.Http.Address

  Requests from the client to the server.

  A client whose base URL is the root of a server can always make its requests, and the server sees
  in them what the client has put there: the method, the path of the environment, the field of the
  query, and the body. Which environment a path names is the router's business; `Reaches` says that
  it is the one that the client means.
-/

import Mathlib.Data.List.TakeWhile
import VersionedTopology.Http.Network
import VersionedTopology.Proofs.Http.Percent

namespace VersionedTopology.Http

open Url

/-! ## What is in a path -/

theorem covers_segment (special : Bool) :
    Covers fun c => codedInSegment c || (special && c = '\\') := by
  intro c h
  simp only [codedInSegment, codedInPath, codedInFragment, isControlOrWide, Bool.or_eq_false_iff,
    decide_eq_false_iff_not] at h
  obtain ⟨⟨⟨⟨⟨⟨⟨⟨⟨-, hwide⟩, -⟩, -⟩, -⟩, -⟩, -⟩, -⟩, hpercent⟩, -⟩ := h
  exact ⟨by omega, hpercent⟩

/-- What ends a segment, a path or a target is coded within a segment. -/
theorem not_mem_codedSegment {special : Bool} {name : String} {c : Char} (hc : c ∈ "/?#".toList) :
    c ∉ (codedSegment special name).toList := by
  intro h
  rw [codedSegment, String.toList_ofList] at h
  have hall : "/?#".toList.all (fun c => codedInSegment c &&
      !"%0123456789ABCDEF".toList.contains c) = true := by decide
  have hcoded := List.all_eq_true.mp hall c hc
  rw [Bool.and_eq_true, Bool.not_eq_true'] at hcoded
  obtain ⟨hplain, -⟩ | hhex := mem_encode h
  · rw [hcoded.1] at hplain
    exact absurd hplain (by simp)
  · rw [List.contains_iff_mem.mpr hhex] at hcoded
    exact absurd hcoded.2 (by simp)

theorem sublist_kept (ss : List String) : (if ss = [""] then [] else ss).Sublist ss := by
  split <;> simp

/-- What is in a path with a name at its end: what was there, and what the name leaves. -/
theorem mem_appendName {special : Bool} {ss : List String} {name s : String}
    (h : s ∈ appendName special ss name) : s ∈ ss ∨ s = "" ∨ s = codedSegment special name := by
  have hkept := (sublist_kept ss).subset
  simp only [appendName] at h
  generalize (if ss = [""] then [] else ss) = kept at h hkept
  split at h
  · exact .inl h
  · split at h
    · exact (List.mem_append.mp h).imp (hkept ·) fun hs => .inl (List.mem_singleton.mp hs)
    · split at h
      · exact (List.mem_append.mp h).imp (fun hs => hkept (List.dropLast_subset _ hs))
          fun hs => .inl (List.mem_singleton.mp hs)
      · exact (List.mem_append.mp h).imp (hkept ·) fun hs => .inr (List.mem_singleton.mp hs)

theorem not_mem_foldl_appendName {special : Bool} {c : Char} (hc : c ∈ "/?#".toList)
    (names : List String) {ss : List String} (hss : ∀ s ∈ ss, c ∉ s.toList) :
    ∀ s ∈ names.foldl (appendName special) ss, c ∉ s.toList := by
  induction names generalizing ss with
  | nil => exact hss
  | cons name names ih =>
    refine ih fun s hs => ?_
    obtain hs | rfl | rfl := mem_appendName hs
    · exact hss s hs
    · simp
    · exact not_mem_codedSegment hc

theorem toList_pathText (ss : List String) :
    (pathText ss).toList = ss.flatMap fun s => '/' :: s.toList := by
  simp [pathText, List.flatMap_map, String.toList_append]

theorem not_mem_pathText {ss : List String} {c : Char} (hslash : c ≠ '/')
    (h : ∀ s ∈ ss, c ∉ s.toList) : c ∉ (pathText ss).toList := by
  rw [toList_pathText, List.mem_flatMap]
  rintro ⟨s, hs, hc⟩
  exact h s hs ((List.mem_cons.mp hc).resolve_left hslash)

/-- A path falls apart into its segments. -/
theorem split_pathText {ss : List String} (h : ∀ s ∈ ss, '/' ∉ s.toList) :
    (Text.split '/' (pathText ss).toList).map String.ofList = "" :: ss := by
  have hsplit : ∀ cs, '/' ∉ cs →
      Text.split '/' (cs ++ (pathText ss).toList) = cs :: ss.map String.toList := by
    rw [toList_pathText]
    induction ss with
    | nil =>
      intro cs hcs
      rw [List.flatMap_nil, List.append_nil, Text.split_of_not_mem hcs, List.map_nil]
    | cons s ss ih =>
      intro cs hcs
      obtain ⟨hs, hss⟩ := List.forall_mem_cons.mp h
      rw [List.flatMap_cons, List.cons_append, Text.split_append hcs, ih hss _ hs, List.map_cons]
  have hempty := hsplit [] (by simp)
  rw [List.nil_append] at hempty
  rw [hempty, List.map_cons, List.map_map]
  simp [Function.comp_def]

/-! ## What the server sees of a target -/

/-- A target falls apart into path and query. -/
theorem path_query_of_target {r : Request} {p : String} {q : Option String}
    (htarget : r.target = p ++ marked "?" q) (hp : ∀ c ∈ "?#".toList, c ∉ p.toList)
    (hq : ∀ s ∈ q, '#' ∉ s.toList) : r.path = p ∧ r.query = q.getD "" := by
  have hplain : ∀ c ∈ p.toList, decide (c ≠ '?') = true := fun c hc =>
    decide_eq_true fun heq => hp '?' (by decide) (heq ▸ hc)
  have hmarked : '#' ∉ (marked "?" q).toList := by
    cases q with
    | none => simp [marked]
    | some s => simpa [marked] using hq s rfl
  have hresource : r.resource = p.toList ++ (marked "?" q).toList := by
    rw [Request.resource, htarget, String.toList_append]
    refine List.takeWhile_eq_self_iff.mpr fun c hc => decide_eq_true fun heq => ?_
    rcases List.mem_append.mp (heq ▸ hc) with h | h
    · exact hp '#' (by decide) h
    · exact hmarked h
  rw [Request.path, Request.query, hresource, List.takeWhile_append_of_pos hplain,
    List.dropWhile_append_of_pos hplain]
  cases q <;> simp [marked]

/-! ## The client's requests -/

namespace Client

/-- The client's base URL is the root of what the network leads to, and its key can be told. -/
structure Attached (c : Client) (n : Network) : Prop where
  leads : n.leadsHere c.base
  rooted : ∃ ss, c.base.path = .segments ss ∧ dropEmptyEnd ss = []
  noQuery : c.base.query = none
  bearer : ∀ key ∈ c.apiKey, isHeaderValue ("Bearer " ++ key)

/-- The segments of the path of an aspect of an environment. -/
def segments (k : EnvironmentKey) (tail : List String) : List String :=
  (["architecture", k.architecture, "environment", k.environment] ++ tail).foldl
    (appendName true) []

/-- What a request tells the server. -/
structure Tells (c : Client) (n : Network) (o : Outgoing) (method : String) (k : EnvironmentKey)
    (tail : List String) (field : Option (String × String)) (body : Option Json) : Prop where
  leads : n.leadsHere o.url
  method : (Network.received o).method = method
  path : (Network.received o).path = (c.url k tail).target
  query : queryPairs (Network.received o).query = field.toList
  contentType : body.isSome →
    (Network.received o).headers.lookup "content-type" = some "application/json"
  body : (Network.received o).body = (body.map Json.compact).getD ""

variable {c : Client} {n : Network}

theorem Attached.scheme (h : c.Attached n) : c.base.scheme = "http" := by
  have hleads := h.leads
  simp only [Network.leadsHere, Bool.and_eq_true, decide_eq_true_eq] at hleads
  exact hleads.1

theorem Attached.url_eq (h : c.Attached n) (k : EnvironmentKey) (tail : List String) :
    c.url k tail = { c.base with path := .segments (segments k tail) } := by
  obtain ⟨ss, hpath, hempty⟩ := h.rooted
  have hspecial : isSpecial c.base.scheme = true := by
    rw [h.scheme]
    decide
  rw [url, append]
  simp only [hpath, hempty, hspecial, segments]

theorem Attached.target_url (h : c.Attached n) (k : EnvironmentKey) (tail : List String) :
    (c.url k tail).target = pathText (segments k tail) := by
  rw [h.url_eq, target, h.noQuery]
  simp [marked]

theorem not_mem_segments {k : EnvironmentKey} {tail : List String} {c : Char}
    (hc : c ∈ "/?#".toList) : ∀ s ∈ segments k tail, c ∉ s.toList :=
  not_mem_foldl_appendName hc _ nofun

theorem leadsHere_withoutUser (n : Network) (u : Url) :
    n.leadsHere u.withoutUser = n.leadsHere u := by
  simp only [Network.leadsHere, withoutUser]
  cases u.authority <;> rfl

/-- What leads to the address has a host, and is asked over HTTP. -/
theorem hasHost_isHttp_of_leadsHere {u : Url} (h : n.leadsHere u) :
    u.hasHost = true ∧ u.isHttp = true := by
  simp only [Network.leadsHere, Bool.and_eq_true, decide_eq_true_eq, Option.any_eq_true,
    Bool.or_eq_true] at h
  obtain ⟨hscheme, a, ha, hhost, -⟩ := h
  refine ⟨?_, by simp [isHttp, hscheme]⟩
  rw [hasHost, ha, Option.any_some, decide_eq_true_eq]
  rcases hhost with hhost | hhost <;> simp [hhost]

/-- The URL with a field, if there is one. -/
def fielded (u : Url) : Option (String × String) → Url
  | none => u
  | some (name, value) => u.withField name value

theorem tells_of_leadsHere (h : c.Attached n) {u : Url} {k : EnvironmentKey} {tail : List String}
    (hleads : n.leadsHere u) (hpath : u.path = .segments (segments k tail))
    (hquery : u.query = none) (method : String) (field : Option (String × String))
    (authorization : Option String) (body : Option Json) :
    c.Tells n ⟨method, fielded u field, authorization, body⟩ method k tail field body := by
  have htarget : (fielded u field).target = (c.url k tail).target ++
      marked "?" (field.map fun f => formEncode f.1 ++ "=" ++ formEncode f.2) := by
    rw [h.target_url]
    cases field <;> simp [fielded, target, withField, hpath, hquery, marked]
  have hplain : ∀ c' ∈ "?#".toList, c' ∉ (c.url k tail).target.toList := by
    intro c' hc'
    rw [h.target_url]
    have hslash : c' ≠ '/' := by
      rintro rfl
      exact absurd hc' (by decide)
    exact not_mem_pathText hslash (not_mem_segments (List.mem_cons_of_mem '/' hc'))
  obtain ⟨hpath', hquery'⟩ := path_query_of_target
    (r := Network.received ⟨method, fielded u field, authorization, body⟩) htarget hplain
    (by cases field <;> simp [not_mem_formEncode])
  constructor
  · cases field with
    | none => exact hleads
    | some f => exact hleads
  · rfl
  · exact hpath'
  · rw [hquery']
    cases field with
    | none => rfl
    | some f => exact queryPairs_field f.1 f.2
  · intro hbody
    obtain ⟨j, rfl⟩ := Option.isSome_iff_exists.mp hbody
    cases authorization <;> rfl
  · rfl

/-- **Requests can be made, and tell the server what was put into them.** -/
theorem Attached.exists_prepare (h : c.Attached n) (method : String) (k : EnvironmentKey)
    (tail : List String) (field : Option (String × String)) (body : Option Json) :
    ∃ o, c.prepare method (c.url k tail) field body = .ok o ∧
      c.Tells n o method k tail field body := by
  have hbearer : (c.apiKey.map fun key => "Bearer " ++ key).all isHeaderValue = true := by
    cases hkey : c.apiKey with
    | none => rfl
    | some key => exact h.bearer key hkey
  have hleads : n.leadsHere (c.url k tail) = true := by
    rw [h.url_eq]
    exact h.leads
  -- a user in the URL is taken out of it, which changes neither address nor path
  have hmake : ∀ u authorization, n.leadsHere u = true →
      u.path = .segments (segments k tail) → u.query = none →
      ∃ o, (if !u.hasHost then (.error ("builder error for url (" ++ u.text ++ ")") : Except _ _)
        else if !(c.apiKey.map fun key => "Bearer " ++ key).all isHeaderValue then
          .error "builder error"
        else if !(fielded u field).isHttp then
          .error ("builder error for url (" ++ (fielded u field).text ++ ")")
        else .ok ⟨method, fielded u field, authorization, body⟩) = .ok o ∧
        c.Tells n o method k tail field body := by
    intro u authorization hu hpath hquery
    have htells := tells_of_leadsHere h hu hpath hquery method field authorization body
    have hhttp := (hasHost_isHttp_of_leadsHere htells.leads).2
    simp only [(hasHost_isHttp_of_leadsHere hu).1, hbearer, hhttp]
    exact ⟨_, rfl, htells⟩
  rw [prepare]
  cases hcredentials : (c.url k tail).credentials? with
  | none =>
    obtain ⟨o, ho, htells⟩ := hmake (c.url k tail) ((none : Option String).or
      (c.apiKey.map fun key => "Bearer " ++ key)) hleads (by rw [h.url_eq])
      (by rw [h.url_eq]; exact h.noQuery)
    refine ⟨o, ?_, htells⟩
    rw [← ho]
    cases field <;> rfl
  | some found =>
    obtain ⟨name, password⟩ := found
    obtain ⟨o, ho, htells⟩ := hmake (c.url k tail).withoutUser
      ((some (basicText name password)).or (c.apiKey.map fun key => "Bearer " ++ key))
      ((leadsHere_withoutUser n _).trans hleads) (by rw [h.url_eq]; rfl)
      (by rw [h.url_eq]; exact h.noQuery)
    refine ⟨o, ?_, htells⟩
    rw [← ho]
    cases field <;> rfl

/-! ## Which environment is meant -/

/-- The router takes the client's URL for an aspect of an environment, and reads both of its names
in it. -/
def Reaches (c : Client) (k : EnvironmentKey) (aspect : Aspect) : Prop :=
  ∃ a e, Route.ofPath? (c.url k aspect.tail).target = some (.environment a e aspect) ∧
    Server.keyOf a e = .ok k

/-- A name that a path can lead to: dots would lead elsewhere, and tabs and line breaks are left
out. -/
def Nameable (name : String) : Prop :=
  name ≠ "." ∧ name ≠ ".." ∧ name.toList.all (fun c => !Url.isSkipped c) = true

instance (name : String) : Decidable (Nameable name) := inferInstanceAs (Decidable (_ ∧ _ ∧ _))

theorem decodeSegment_codedSegment {special : Bool} {name : String} (h : Nameable name) :
    decodeSegment (codedSegment special name) = some name := by
  have hkept : (name.toList.filter fun c => !isSkipped c) = name.toList :=
    List.filter_eq_self.mpr (List.all_eq_true.mp h.2.2)
  rw [codedSegment, hkept, decodeSegment_encode (covers_segment special), String.ofList_toList]

theorem ofTail?_tail (aspect : Aspect) : Aspect.ofTail? aspect.tail = some aspect := by
  cases aspect with
  | neighbor d => cases d <;> decide
  | _ => decide

theorem appendName_of_nameable {special : Bool} {ss : List String} (hss : ss ≠ [""])
    {name : String} (h : Nameable name) :
    appendName special ss name = ss ++ [codedSegment special name] := by
  -- a name that is coded as dots is read as dots
  have hdots : ∀ dots, decodeSegment dots = some dots → name ≠ dots →
      codedSegment special name ≠ dots := by
    intro dots hread hne hcoded
    have hdecode : decodeSegment (codedSegment special name) = some name :=
      decodeSegment_codedSegment h
    rw [hcoded, hread] at hdecode
    exact hne (Option.some.inj hdecode).symm
  have hone := hdots "." (by decide +kernel) h.1
  have htwo := hdots ".." (by decide +kernel) h.2.1
  simp [appendName, hss, h.1, h.2.1, hone, htwo]

/-- Names that a path can lead to are appended one by one, below what is there. -/
theorem foldl_appendName_of_nameable {special : Bool} {names : List String}
    (h : ∀ name ∈ names, Nameable name) {ss : List String} (hne : ss ≠ []) (hss : ss ≠ [""]) :
    names.foldl (appendName special) ss = ss ++ names.map (codedSegment special) := by
  induction names generalizing ss with
  | nil => simp
  | cons name names ih =>
    obtain ⟨hname, hnames⟩ := List.forall_mem_cons.mp h
    have hlonger : ss ++ [codedSegment special name] ≠ [""] := by
      simp [List.append_eq_singleton_iff, hne]
    rw [List.foldl_cons, appendName_of_nameable hss hname, ih hnames (by simp) hlonger,
      List.append_assoc, List.map_cons, List.singleton_append]

theorem nameable_tail (aspect : Aspect) : ∀ name ∈ aspect.tail, Nameable name := by
  cases aspect with
  | neighbor d => cases d <;> decide
  | _ => decide

/-- Segments of the routes stand for themselves. -/
theorem segments_tail (k : EnvironmentKey) (harchitecture : Nameable k.architecture)
    (henvironment : Nameable k.environment) (aspect : Aspect) :
    segments k aspect.tail = "architecture" :: codedSegment true k.architecture :: "environment" ::
      codedSegment true k.environment :: aspect.tail := by
  have htail : aspect.tail.map (codedSegment true) = aspect.tail := by
    cases aspect with
    | neighbor d => cases d <;> decide
    | _ => decide
  have hfixed : codedSegment true "environment" = "environment" := by decide
  have hnames : ∀ name ∈ k.architecture :: "environment" :: k.environment :: aspect.tail,
      Nameable name := by
    simp only [List.forall_mem_cons]
    exact ⟨harchitecture, by decide, henvironment, nameable_tail aspect⟩
  have hfirst : appendName true [] "architecture" = ["architecture"] := by decide
  rw [segments, List.cons_append, List.foldl_cons, hfirst]
  exact (foldl_appendName_of_nameable hnames (by simp) (by simp)).trans
    (by simp [htail, hfixed])

/-- Every environment whose names a path can lead to is reached, except for the versions of one
without a name. -/
theorem Attached.reaches (h : c.Attached n) {k : EnvironmentKey}
    (harchitecture : Nameable k.architecture) (henvironment : Nameable k.environment)
    {aspect : Aspect} (hname : k.environment ≠ "" ∨ aspect ≠ .versions) : c.Reaches k aspect := by
  have hsplit : (Text.split '/' (c.url k aspect.tail).target.toList).map String.ofList =
      "" :: segments k aspect.tail := by
    rw [h.target_url]
    exact split_pathText (not_mem_segments (by decide))
  rw [segments_tail k harchitecture henvironment] at hsplit
  refine ⟨codedSegment true k.architecture, codedSegment true k.environment, ?_, ?_⟩
  · have hhealth : (c.url k aspect.tail).target ≠ "/health" := by
      intro heq
      have hparts : (Text.split '/' "/health".toList).map String.ofList = ["", "health"] := by
        decide
      rw [heq, hparts] at hsplit
      exact absurd hsplit (by simp)
    have hends : ¬ (aspect.tail.isEmpty && (codedSegment true k.environment).isEmpty) := by
      rw [Bool.and_eq_true, String.isEmpty_iff]
      rintro ⟨htail, hempty⟩
      rcases hname with hname | hname
      · -- an empty segment is read as the empty name
        have hdecode : decodeSegment (codedSegment true k.environment) = some k.environment :=
          decodeSegment_codedSegment henvironment
        have hread : decodeSegment "" = some "" := decodeSegment_encode (covers_segment true) []
        rw [hempty, hread] at hdecode
        exact hname (Option.some.inj hdecode).symm
      · cases aspect <;> simp_all [Aspect.tail]
    simp only [Route.ofPath?, if_neg hhealth, hsplit, if_neg hends, ofTail?_tail, Option.map_some]
  · simp only [Server.keyOf, decodeSegment_codedSegment harchitecture,
      decodeSegment_codedSegment henvironment]

end Client
end VersionedTopology.Http
