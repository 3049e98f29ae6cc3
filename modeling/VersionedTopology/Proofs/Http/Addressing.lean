/-
  VersionedTopology.Proofs.Http.Addressing

  Which environment the path of a client's URL names.

  Names are appended to the path of the base URL one after another. A name either adds one segment,
  which is read as the name exactly if a path can lead to the name, or it does not make the path
  longer at all. So counting segments tells whether every name has got its own.
-/

import VersionedTopology.Proofs.Http.Agreement
import VersionedTopology.Proofs.Http.Isolation

namespace VersionedTopology.Http

open Url

/-- The parts of a path between its slashes. -/
def pathParts (path : String) : List String := (Text.split '/' path.toList).map String.ofList

/-- The path of a URL as it is written. -/
def Url.written (u : Url) : String :=
  match u.path with
  | .segments ss => pathText ss
  | .plain s => s

/-! ## Segments of URLs that were read -/

namespace Url

/-- A path whose segments hold no slash. -/
def Parted : UrlPath → Prop
  | .segments ss => ∀ s ∈ ss, '/' ∉ s.toList
  | .plain _ => True

theorem not_mem_encode {part : List Char} (h : '/' ∉ part) :
    '/' ∉ (String.ofList (encode codedInPath part)).toList := by
  rw [String.toList_ofList]
  intro hmem
  obtain ⟨-, hpart⟩ | hhex := mem_encode hmem
  · exact h hpart
  · exact absurd hhex (by decide)

theorem not_mem_resolve {kept : List String} {parts : List (List Char)}
    (hkept : ∀ s ∈ kept, '/' ∉ s.toList) (hparts : ∀ part ∈ parts, '/' ∉ part) :
    ∀ s ∈ resolve kept parts, '/' ∉ s.toList := by
  have hcons : ∀ {kept : List String} {s : String}, '/' ∉ s.toList →
      (∀ s ∈ kept, '/' ∉ s.toList) → ∀ x ∈ s :: kept, '/' ∉ x.toList :=
    fun hs hkept => List.forall_mem_cons.mpr ⟨hs, hkept⟩
  have hdrop : ∀ {kept : List String}, (∀ s ∈ kept, '/' ∉ s.toList) →
      ∀ s ∈ kept.drop 1, '/' ∉ s.toList := fun hkept s hs => hkept s (List.mem_of_mem_drop hs)
  fun_induction resolve kept parts with
  | case1 kept => simpa using hkept
  | case2 kept s hdots => simpa only [List.mem_reverse] using hcons (by simp) hkept
  | case3 kept s n hn hdots => simpa only [List.mem_reverse] using hcons (by simp) (hdrop hkept)
  | case4 kept s hdots =>
    simpa only [List.mem_reverse] using hcons (not_mem_encode (hparts s (by simp))) hkept
  | case5 kept s rest hrest hdots ih =>
    exact ih hkept fun part hpart => hparts part (List.mem_cons_of_mem _ hpart)
  | case6 kept s rest hrest n hn hdots ih =>
    exact ih (hdrop hkept) fun part hpart => hparts part (List.mem_cons_of_mem _ hpart)
  | case7 kept s rest hrest hdots ih =>
    exact ih (hcons (not_mem_encode (hparts s (by simp))) hkept)
      fun part hpart => hparts part (List.mem_cons_of_mem _ hpart)

theorem parted_readPath (special : Bool) (cs : List Char) :
    Parted (.segments (readPath special cs)) := by
  simp only [Parted, readPath]
  generalize (if special then cs.map fun c => if c = '\\' then '/' else c else cs) = cs
  cases cs with
  | nil => cases special <;> simp
  | cons c rest => exact not_mem_resolve nofun fun part => Text.not_mem_of_mem_split

theorem parted_readRest {scheme : String} {cs : List Char} {authority : Option Authority}
    {path : UrlPath} (h : readRest scheme cs = .ok (authority, path)) : Parted path := by
  have hpair : ∀ {a : Option Authority} {special : Bool} {cs : List Char},
      (.ok (a, .segments (readPath special cs)) : Except UrlFault (Option Authority × UrlPath)) =
        .ok (authority, path) → Parted path := by
    intro a special cs heq
    obtain ⟨-, rfl⟩ := Prod.mk.inj (Except.ok.inj heq)
    exact parted_readPath special cs
  -- every way to a result reads a path, or ends in plain text
  simp only [readRest] at h
  split at h
  · split at h
    · split at h
      · split at h
        · exact hpair h
        · obtain ⟨name, -, h⟩ := bind_eq_ok.mp h
          exact hpair h
      · exact hpair h
    · exact hpair h
  · split at h
    · obtain ⟨a, -, h⟩ := bind_eq_ok.mp h
      exact hpair h
    · split at h
      · obtain ⟨a, -, h⟩ := bind_eq_ok.mp h
        exact hpair h
      · exact hpair h
      · obtain ⟨-, rfl⟩ := Prod.mk.inj (Except.ok.inj h)
        trivial

theorem parted_ofText {s : String} {u : Url} (h : ofText s = .ok u) : Parted u.path := by
  simp only [ofText] at h
  split at h
  · exact absurd h (by simp)
  · obtain ⟨⟨authority, path⟩, hrest, heq⟩ := bind_eq_ok.mp h
    rw [← Except.ok.inj heq]
    exact parted_readRest hrest

/-! ## Appending a name -/

theorem length_appendName_le (special : Bool) (ss : List String) (name : String) :
    (appendName special ss name).length ≤ ss.length + 1 := by
  have hkept := (sublist_kept ss).length_le
  simp only [appendName]
  generalize (if ss = [""] then [] else ss) = kept at hkept
  split
  · omega
  · split
    · simpa using hkept
    · split
      · simp only [List.length_append, List.length_dropLast, List.length_singleton]
        omega
      · simpa using hkept

theorem length_foldl_appendName_le (special : Bool) (names ss : List String) :
    (names.foldl (appendName special) ss).length ≤ ss.length + names.length := by
  induction names generalizing ss with
  | nil => exact Nat.le_refl _
  | cons name names ih =>
    refine (ih _).trans ?_
    have hstep := length_appendName_le special ss name
    rw [List.length_cons]
    omega

end Url

namespace Client

theorem decodeSegment_empty : decodeSegment "" = some "" := by decide +kernel

/-- What is read of a coded name is what is not passed over of it. -/
theorem nameable_of_decodeSegment {special : Bool} {name : String}
    (hdots : name ≠ "." ∧ name ≠ "..")
    (h : decodeSegment (codedSegment special name) = some name) : Nameable name := by
  rw [codedSegment, decodeSegment_encode (covers_segment special), Option.some.injEq] at h
  refine ⟨hdots.1, hdots.2, List.all_eq_true.mpr ?_⟩
  refine List.filter_eq_self.mp ?_
  rw [← String.toList_ofList (l := name.toList.filter _), h]

/-- A name either does not make a path longer, and then no path can lead to it, or adds one segment,
which is read as the name exactly if a path can lead to it. -/
theorem appendName_cases (special : Bool) {ss : List String} (hne : ss ≠ []) (hss : ss ≠ [""])
    (name : String) :
    (appendName special ss name).length ≤ ss.length ∧ ¬ Nameable name ∨
    ∃ s, appendName special ss name = ss ++ [s] ∧
      (decodeSegment s = some name ↔ Nameable name) := by
  by_cases hname : Nameable name
  · exact .inr ⟨_, appendName_of_nameable hss hname,
      iff_of_true (decodeSegment_codedSegment hname) hname⟩
  · simp only [appendName, if_neg hss]
    split
    · exact .inl ⟨Nat.le_refl _, hname⟩
    · rename_i hdots
      simp only [Bool.or_eq_true, decide_eq_true_eq, not_or] at hdots
      split
      · -- the name is not empty, since it holds a dot
        rename_i hcoded
        refine .inr ⟨"", rfl, iff_of_false (fun hread => ?_) hname⟩
        rw [decodeSegment_empty, Option.some.injEq] at hread
        rw [← hread] at hcoded
        cases special <;> exact absurd hcoded (by decide)
      · split
        · refine .inl ⟨?_, hname⟩
          have hlength := List.length_pos_iff.mpr hne
          simp only [List.length_append, List.length_dropLast, List.length_singleton]
          omega
        · exact .inr ⟨_, rfl, iff_of_false (mt (nameable_of_decodeSegment hdots) hname) hname⟩

/-- Names either do not all make a path longer, and then a path cannot lead to all of them, or
each has got a segment of its own. -/
theorem foldl_appendName_cases (special : Bool) (names ss : List String)
    (hne : ss ≠ []) (hss : ss ≠ [""]) :
    (names.foldl (appendName special) ss).length < ss.length + names.length ∧
      ¬ (∀ name ∈ names, Nameable name) ∨
    ∃ coded, names.foldl (appendName special) ss = ss ++ coded ∧
      (coded.map decodeSegment = names.map some ↔ ∀ name ∈ names, Nameable name) := by
  induction names generalizing ss with
  | nil => exact .inr ⟨[], by simp, by simp⟩
  | cons name names ih =>
    rw [List.foldl_cons, List.length_cons, List.forall_mem_cons]
    obtain ⟨hshort, hname⟩ | ⟨s, hs, hread⟩ := appendName_cases special hne hss name
    · have hrest := length_foldl_appendName_le special names (appendName special ss name)
      exact .inl ⟨by omega, fun hall => hname hall.1⟩
    · rw [hs]
      obtain ⟨hshort, hnames⟩ | ⟨coded, hcoded, hreads⟩ :=
        ih (ss ++ [s]) (by simp) (by simp [List.append_eq_singleton_iff, hne])
      · rw [List.length_append, List.length_singleton] at hshort
        exact .inl ⟨by omega, fun hall => hnames hall.2⟩
      · refine .inr ⟨s :: coded, by rw [hcoded, List.append_assoc, List.singleton_append], ?_⟩
        rw [List.map_cons, List.map_cons, List.cons.injEq, hread, hreads]

/-! ## What is addressed -/

/-- The segments of the base URL, without an empty one at its end. One empty segment alone counts
as none. -/
def own (c : Client) : List String :=
  match c.base.path with
  | .segments ss => dropEmptyEnd ss
  | .plain _ => []

/-- What the path of a URL for an environment has to name, below the base URL. -/
def named (k : EnvironmentKey) (tail : List String) : List String :=
  ["architecture", k.architecture, "environment", k.environment] ++ tail

/-- The path of the URL for an environment is that of the base URL with segments after it, and these
are read as the names of the environment and the tail. -/
def Addresses (c : Client) (k : EnvironmentKey) (tail : List String) : Prop :=
  ∃ coded, pathParts (c.url k tail).written = "" :: (c.own ++ coded) ∧
    coded.map decodeSegment = (named k tail).map some

variable {c : Client}

theorem dropEmptyEnd_ne (ss : List String) : dropEmptyEnd ss ≠ [""] := by
  simp only [dropEmptyEnd]
  generalize (if ss.getLast? = some "" then ss.dropLast else ss) = kept
  split
  · simp
  · assumption

theorem not_mem_dropEmptyEnd {ss : List String} (h : ∀ s ∈ ss, '/' ∉ s.toList) :
    ∀ s ∈ dropEmptyEnd ss, '/' ∉ s.toList := by
  have hkept : dropEmptyEnd ss ⊆ ss := by
    simp only [dropEmptyEnd]
    split
    · split
      · simp
      · exact List.dropLast_subset ss
    · split <;> simp
  exact fun s hs => h s (hkept hs)

/-- The base URL of a client has segments, without slashes in them. -/
theorem base_of_ofSettings {s : ClientSettings} (h : ofSettings s = .ok c) :
    ∃ ss, c.base.path = .segments ss ∧ ∀ s ∈ ss, '/' ∉ s.toList := by
  rw [ofSettings] at h
  split at h
  · exact absurd h (by simp)
  · rename_i u hread
    have hparted := parted_ofText hread
    split at h
    · rename_i hbase
      rw [← Except.ok.inj h]
      cases hpath : u.path with
      | plain content => simp [isBase, hpath] at hbase
      | segments ss =>
        rw [hpath] at hparted
        exact ⟨ss, rfl, hparted⟩
    · exact absurd h (by simp)

/-- The segments of a URL: those of the base URL, and `architecture`, with the names after it. -/
theorem pathParts_url {s : ClientSettings} (h : ofSettings s = .ok c) (k : EnvironmentKey)
    (tail : List String) :
    pathParts (c.url k tail).written =
      "" :: ([k.architecture, "environment", k.environment] ++ tail).foldl
        (appendName (isSpecial c.base.scheme)) (c.own ++ ["architecture"]) := by
  obtain ⟨ss, hpath, hss⟩ := base_of_ofSettings h
  have hown : c.own = dropEmptyEnd ss := by rw [own, hpath]
  -- from here on the path is neither empty nor one empty segment
  have hfirst : appendName (isSpecial c.base.scheme) c.own "architecture" =
      c.own ++ ["architecture"] := by
    rw [appendName_of_nameable (hown ▸ dropEmptyEnd_ne ss) (by decide)]
    cases isSpecial c.base.scheme <;> rfl
  have hwritten : (c.url k tail).written =
      pathText (([k.architecture, "environment", k.environment] ++ tail).foldl
        (appendName (isSpecial c.base.scheme)) (c.own ++ ["architecture"])) := by
    rw [← hfirst, hown]
    simp only [url, append, written, hpath]
    rfl
  have hplain : ∀ s ∈ c.own ++ ["architecture"], '/' ∉ s.toList := by
    rw [hown]
    refine List.forall_mem_append.mpr ⟨not_mem_dropEmptyEnd hss, ?_⟩
    decide
  rw [hwritten, pathParts]
  exact split_pathText (not_mem_foldl_appendName (by decide) _ hplain)

/-- Both names are such that a path can lead to them. -/
def IsNameable (k : EnvironmentKey) : Prop := Nameable k.architecture ∧ Nameable k.environment

theorem addresses_iff {s : ClientSettings} (h : ofSettings s = .ok c) (k : EnvironmentKey)
    (aspect : Aspect) : c.Addresses k aspect.tail ↔ IsNameable k := by
  have hread : decodeSegment "architecture" = some "architecture" := by decide +kernel
  have hnames : (∀ name ∈ [k.architecture, "environment", k.environment] ++ aspect.tail,
      Nameable name) ↔ IsNameable k := by
    have hfixed : Nameable "environment" := by decide
    have htail := nameable_tail aspect
    simp only [List.forall_mem_append, List.forall_mem_cons, IsNameable]
    exact ⟨fun hall => ⟨hall.1.1, hall.1.2.2.1⟩,
      fun hboth => ⟨⟨hboth.1, hfixed, hboth.2, nofun⟩, htail⟩⟩
  simp only [Addresses, pathParts_url h, List.cons.injEq, true_and, named]
  obtain ⟨hshort, hnot⟩ | ⟨coded, hcoded, hreads⟩ :=
    foldl_appendName_cases (isSpecial c.base.scheme)
      ([k.architecture, "environment", k.environment] ++ aspect.tail)
      (c.own ++ ["architecture"]) (by simp) (by simp [List.append_eq_singleton_iff])
  · -- there are too few segments for all the names
    refine iff_of_false ?_ (hnames.not.mp hnot)
    rintro ⟨coded, hparts, hmap⟩
    have hlength := congrArg List.length hmap
    rw [hparts] at hshort
    simp only [List.length_append, List.length_map, List.length_cons, List.length_nil]
      at hshort hlength
    omega
  · -- every name has got its segment, after `architecture`
    rw [hcoded, ← hnames, ← hreads, List.append_assoc]
    constructor
    · rintro ⟨coded', hparts, hmap⟩
      obtain rfl := List.append_cancel_left hparts
      exact (List.cons.inj hmap).2
    · intro hmap
      exact ⟨"architecture" :: coded, rfl, by simp [hread, hmap]⟩

theorem Addresses.eq {k k' : EnvironmentKey} {tail tail' : List String}
    (h : c.Addresses k tail) (h' : c.Addresses k' tail')
    (hpath : (c.url k tail).written = (c.url k' tail').written) : k = k' ∧ tail = tail' := by
  obtain ⟨coded, hparts, hmap⟩ := h
  obtain ⟨coded', hparts', hmap'⟩ := h'
  rw [hpath, hparts', List.cons.injEq] at hparts
  obtain rfl := List.append_cancel_left hparts.2
  rw [hmap', List.map_inj_right fun _ _ => Option.some.inj] at hmap
  simp only [named, List.cons_append, List.nil_append, List.cons.injEq, true_and] at hmap
  obtain ⟨harchitecture, henvironment, htail⟩ := hmap
  exact ⟨congrArg₂ EnvironmentKey.mk harchitecture.symm henvironment.symm, htail.symm⟩

/-- A server at the base URL finds no other environment in the path. -/
theorem Addresses.names_eq {k k' : EnvironmentKey} {tail below : List String} {r : Request}
    (h : c.Addresses k tail)
    (hurl : pathParts (c.url k tail).written = "" :: (c.own ++ below))
    (hpath : pathParts r.path = "" :: below) (hnames : r.Names k') : k' = k := by
  obtain ⟨coded, hparts, hmap⟩ := h
  rw [hurl, List.cons.injEq] at hparts
  obtain rfl := List.append_cancel_left hparts.2
  obtain ⟨a, e, rest, hsplit, ha, he⟩ := hnames
  obtain rfl := (List.cons.inj (hpath.symm.trans hsplit)).2
  simp only [named, List.map_cons, List.cons_append, List.cons.injEq] at hmap
  obtain ⟨-, harchitecture, -, henvironment, -⟩ := hmap
  exact congrArg₂ EnvironmentKey.mk (Option.some.inj (ha.symm.trans harchitecture))
    (Option.some.inj (he.symm.trans henvironment))

/-- **Requests address the environment that they are about**, if a path can lead to both of its
names, and only then: below the base URL, the path has exactly the segments that are read as
`architecture`, its architecture, `environment`, its name and the tail. So two such requests have
the same path only if they are about the same, and a server at the base URL finds the environment
that was meant, and changes no other. -/
theorem url_addresses {s : ClientSettings} (h : ofSettings s = .ok c) :
    (∀ k (aspect : Aspect), c.Addresses k aspect.tail ↔ IsNameable k) ∧
    (∀ k k' (aspect aspect' : Aspect), IsNameable k → IsNameable k' →
      (c.url k aspect.tail).written = (c.url k' aspect'.tail).written →
      k = k' ∧ aspect.tail = aspect'.tail) ∧
    ∀ k (aspect : Aspect), IsNameable k → ∀ (r : Request) (below : List String),
      pathParts (c.url k aspect.tail).written = "" :: (c.own ++ below) →
      pathParts r.path = "" :: below →
      (∀ k', r.Names k' → k' = k) ∧
      ∀ server : Server, server.ledger.WellFormed → ∀ k', k' ≠ k →
        (server.respond r).1.ledger.log? k' = server.ledger.log? k' := by
  refine ⟨addresses_iff h, fun k k' aspect aspect' hk hk' hpath => ?_,
    fun k aspect hk r below hurl hpath => ?_⟩
  · exact ((addresses_iff h k aspect).mpr hk).eq ((addresses_iff h k' aspect').mpr hk') hpath
  · have hnames : ∀ k', r.Names k' → k' = k :=
      fun k' => ((addresses_iff h k aspect).mpr hk).names_eq hurl hpath
    refine ⟨hnames, fun server hserver k' hne => ?_⟩
    have houtcome := server.outcome_respond r
    generalize (server.respond r).1.ledger = l' at houtcome ⊢
    cases houtcome with
    | kept => rfl
    | acted named a _ hnamed hasks =>
      have hkey : a.key = k := hasks.key_eq.trans (hnames named hnamed)
      exact (Ledger.acted hserver a).log?_of_ne (hkey ▸ hne)

/-- A blank and a slash in the names are coded, and a server at the base URL reads them. -/
theorem url_addresses_coded :
    let k : EnvironmentKey := ⟨"a b", "dev/x"⟩
    let below := ["architecture", "a%20b", "environment", "dev%2Fx"]
    visitor.Addresses k [] ∧ pathParts (visitor.url k []).written = "" :: below ∧
      ∀ r : Request, pathParts r.path = "" :: below → ∀ k', r.Names k' → k' = k := by
  intro k below
  have hvisitor : ofSettings {} = .ok visitor := by decide +kernel
  have hk : IsNameable k := ⟨by decide, by decide⟩
  have hparts : pathParts (visitor.url k []).written = "" :: below := by decide +kernel
  obtain ⟨haddresses, -, hserver⟩ := url_addresses hvisitor
  exact ⟨(haddresses k .versions).mpr hk, hparts,
    fun r hr => (hserver k .versions hk r below hparts hr).1⟩

/-- A server with two versions of `shop/constraints`. -/
def filled : Server where
  settings := {}
  ledger := (Server.new {}).ledger.acts
    [.create ⟨"shop", "constraints"⟩ [] [], .submit ⟨"shop", "constraints"⟩ batch]

/-- The batch for `shop/.`, on its way. -/
def strayed : Outgoing where
  method := "POST"
  url := visitor.url ⟨"shop", "constraints"⟩ []
  body := some batch.toJson

/-- The environment `.` cannot be addressed: its constraints have the URL of the versions of the
environment `constraints`. There, a batch for `shop/.` makes another version the current one. -/
theorem url_dot_shared :
    ofSettings {} = .ok visitor ∧ ¬ visitor.Addresses ⟨"shop", "."⟩ ["constraints"] ∧
      visitor.url ⟨"shop", "."⟩ ["constraints"] = visitor.url ⟨"shop", "constraints"⟩ [] ∧
      visitor.request (.apply ⟨"shop", "."⟩ batch) = .ok strayed ∧
      (filled.ledger.log? ⟨"shop", "constraints"⟩).map (·.current) = some 2 ∧
      ((filled.respond (Network.received strayed)).1.ledger.log? ⟨"shop", "constraints"⟩).map
        (·.current) = some 1 := by
  have hvisitor : ofSettings {} = .ok visitor := by decide +kernel
  have hnot : ¬ IsNameable ⟨"shop", "."⟩ := fun hk => hk.2.1 rfl
  have hbody := String.toList_inj.mp compact_batch
  refine ⟨hvisitor, (addresses_iff hvisitor _ .constraints).not.mpr hnot, by decide +kernel,
    by decide +kernel, by decide +kernel, ?_⟩
  have hreceived : Network.received strayed =
      { method := "POST", target := strayed.url.target,
        headers := [("content-type", "application/json")], body := batch.toJson.compact } := rfl
  rw [hreceived, hbody]
  decide +kernel

end Client
end VersionedTopology.Http
