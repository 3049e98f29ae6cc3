/-
  VersionedTopology.Proofs.Wire.Constraint

  Constraints on the wire.

  The members of a constraint are read twice: once to find the scope among them, and once more,
  from what was held back, when the kind of the record is known. The first reading sees to it that
  brackets do not nest too deep, the second one to the shape. So the codec of each kind of record is
  used at the held back document, under the bound that the first reading has established.
-/

import VersionedTopology.Proofs.Wire.Graph
import VersionedTopology.Wire.Constraint

namespace VersionedTopology

open Decoder

/-! ## Reading part by part -/

namespace Document

/-- Items that can be read one by one can be read together. -/
theorem exists_readItems {n : Nat} {ds : List Document} (h : ∀ d ∈ ds, ∃ j, d.read n = .ok j) :
    ∃ xs, readItems n ds = .ok xs := by
  induction ds with
  | nil => exact ⟨[], rfl⟩
  | cons d ds ih =>
    obtain ⟨⟨x, hx⟩, hds⟩ := List.forall_mem_cons.mp h
    obtain ⟨xs, hxs⟩ := ih hds
    exact ⟨x :: xs, by simp [readItems, hx, hxs]⟩

/-- Members that can be read one by one can be read together. -/
theorem exists_readMembers {n : Nat} {ms : List (Option String × Document)}
    (h : ∀ m ∈ ms, m.1.isSome ∧ ∃ j, m.2.read n = .ok j) (acc : List (String × Json)) :
    ∃ xs, readMembers n acc ms = .ok xs := by
  induction ms generalizing acc with
  | nil => exact ⟨acc, rfl⟩
  | cons m ms ih =>
    obtain ⟨name, d⟩ := m
    obtain ⟨⟨hname, x, hx⟩, hms⟩ := List.forall_mem_cons.mp h
    obtain ⟨k, rfl⟩ := Option.isSome_iff_exists.mp hname
    obtain ⟨xs, hxs⟩ := ih hms (Json.setMember k x acc)
    exact ⟨xs, by simpa [readMembers, hx] using hxs⟩

end Document

namespace Source

/-- What was read item by item may be held back as a list. -/
theorem bounds_heldBack_array {n : Nat} {ds : List Document}
    (h : ∀ d ∈ ds, ∃ j, d.read n = .ok j) : heldBack.Bounds (n + 1) (.array ds none) := by
  obtain ⟨xs, hxs⟩ := Document.exists_readItems h
  exact .inr ⟨rfl, .array xs, Document.read_array_ok.mpr ⟨rfl, n, xs, rfl, hxs, rfl⟩⟩

/-- What was read member by member may be held back as a record. -/
theorem bounds_heldBack_object {n : Nat} {ms : List (Option String × Document)}
    (h : ∀ m ∈ ms, m.1.isSome ∧ ∃ j, m.2.read n = .ok j) :
    heldBack.Bounds (n + 1) (.object ms none) := by
  obtain ⟨xs, hxs⟩ := Document.exists_readMembers h []
  exact .inr ⟨rfl, .object xs, Document.read_object_ok.mpr ⟨rfl, n, xs, rfl, hxs, rfl⟩⟩

end Source

/-! ## Words -/

theorem PropertyOperator.ofWord?_word (o : PropertyOperator) : ofWord? o.word = some o := by
  cases o <;> decide

theorem EdgeOperator.ofWord?_word (o : EdgeOperator) : ofWord? o.word = some o := by
  cases o <;> decide

theorem NodeOperator.ofWord?_word (o : NodeOperator) : ofWord? o.word = some o := by
  cases o <;> decide

theorem Scope.ofWord?_word (s : Scope) : ofWord? s.word = some s := by
  cases s <;> decide

namespace Constraint

/-- Identifiers and values can be written and read again. -/
def Portable : Constraint → Prop
  | property _ target _ v => target.Portable ∧ v.Regular
  | edge _ s t => s.Portable ∧ t.Portable
  | node _ n r => n.Portable ∧ ∀ id ∈ r, id.Portable

/-- The members that are printed after the scope. -/
def body : Constraint → List (String × Json)
  | property o t p v =>
    [("operator", .string o.word), ("target", t.toJson), ("property", .string p), ("value", v)]
  | edge o s t => [("operator", .string o.word), ("source", s.toJson), ("target", t.toJson)]
  | node o n r =>
    [("operator", .string o.word), ("node", n.toJson)] ++
      Json.optionalMember "replacement" TopologyId.toJson r

theorem toJson_eq (c : Constraint) :
    c.toJson = .object (("scope", .string c.scope.word) :: c.body) := by
  cases c <;> rfl

/-! ## The kinds of records -/

namespace PropertyParts

def members : List (Member PropertyParts) :=
  [ .plain "operator" .required (word PropertyOperator.ofWord?) (·.operator)
      (fun operator c => { c with operator }) (fun o => .string o.word) fun _ => True,
    .plain "target" .required TopologyId.decoder (·.target) (fun target c => { c with target })
      TopologyId.toJson TopologyId.Portable,
    .plain "property" .required string (·.property) (fun property c => { c with property }) .string
      fun _ => True,
    .plain "value" .defaulted json (·.value) (fun value c => { c with value }) id Json.Regular ]

theorem isRecord : IsRecord members {} 0 where
  lawful := by
    simp only [members, List.forall_mem_cons]
    refine ⟨?_, ?_, ?_, ?_, by simp⟩
    · exact Member.lawful_plain (Codec.word PropertyOperator.ofWord?_word) (by decide)
        (fun _ _ => rfl) (by simp)
    · exact Member.lawful_plain TopologyId.codec (by decide) (fun _ _ => rfl) (by simp)
    · exact Member.lawful_plain Codec.string (by decide) (fun _ _ => rfl) (by simp)
    · exact Member.lawful_plain Codec.json (by decide) (fun _ _ => rfl) fun _ =>
        ⟨Json.regular_null, by decide⟩
  names := by decide
  apart := by simp [members, Member.Apart, Member.plain]
  ext := by
    rintro ⟨⟩ ⟨⟩ h
    simpa [members, Member.plain] using h

theorem codec :
    Codec (record propertyFields {} false)
      (fun c => .object (body (.property c.operator c.target c.property c.value)))
      (fun c => Portable (.property c.operator c.target c.property c.value)) 1 :=
  isRecord.codec rfl (fun _ => rfl) fun c => by simp [members, Member.plain, Portable]

end PropertyParts

namespace EdgeParts

def members : List (Member EdgeParts) :=
  [ .plain "operator" .required (word EdgeOperator.ofWord?) (·.operator)
      (fun operator c => { c with operator }) (fun o => .string o.word) fun _ => True,
    .plain "source" .required TopologyId.decoder (·.source) (fun source c => { c with source })
      TopologyId.toJson TopologyId.Portable,
    .plain "target" .required TopologyId.decoder (·.target) (fun target c => { c with target })
      TopologyId.toJson TopologyId.Portable ]

theorem isRecord : IsRecord members {} 0 where
  lawful := by
    simp only [members, List.forall_mem_cons]
    refine ⟨?_, ?_, ?_, by simp⟩
    · exact Member.lawful_plain (Codec.word EdgeOperator.ofWord?_word) (by decide)
        (fun _ _ => rfl) (by simp)
    · exact Member.lawful_plain TopologyId.codec (by decide) (fun _ _ => rfl) (by simp)
    · exact Member.lawful_plain TopologyId.codec (by decide) (fun _ _ => rfl) (by simp)
  names := by decide
  apart := by simp [members, Member.Apart, Member.plain]
  ext := by
    rintro ⟨⟩ ⟨⟩ h
    simpa [members, Member.plain] using h

theorem codec :
    Codec (record edgeFields {} false)
      (fun c => .object (body (.edge c.operator c.source c.target)))
      (fun c => Portable (.edge c.operator c.source c.target)) 1 :=
  isRecord.codec rfl (fun _ => rfl) fun c => by simp [members, Member.plain, Portable]

end EdgeParts

namespace NodeParts

def members : List (Member NodeParts) :=
  [ .plain "operator" .required (word NodeOperator.ofWord?) (·.operator)
      (fun operator c => { c with operator }) (fun o => .string o.word) fun _ => True,
    .plain "node" .required TopologyId.decoder (·.node) (fun node c => { c with node })
      TopologyId.toJson TopologyId.Portable,
    .maybe "replacement" TopologyId.decoder (·.replacement)
      (fun replacement c => { c with replacement }) TopologyId.toJson
      fun o => ∀ id ∈ o, id.Portable ]

theorem isRecord : IsRecord members {} 0 where
  lawful := by
    simp only [members, List.forall_mem_cons]
    refine ⟨?_, ?_, ?_, by simp⟩
    · exact Member.lawful_plain (Codec.word NodeOperator.ofWord?_word) (by decide)
        (fun _ _ => rfl) (by simp)
    · exact Member.lawful_plain TopologyId.codec (by decide) (fun _ _ => rfl) (by simp)
    · exact Member.lawful_maybe (TopologyId.codec.option_of_ne_null TopologyId.toJson_ne_null)
        (by decide) (fun _ _ => rfl) rfl nofun
  names := by decide
  apart := by simp [members, Member.Apart, Member.plain, Member.maybe]
  ext := by
    rintro ⟨⟩ ⟨⟩ h
    simpa [members, Member.plain, Member.maybe] using h

theorem codec :
    Codec (record nodeFields {} false)
      (fun c => .object (body (.node c.operator c.node c.replacement)))
      (fun c => Portable (.node c.operator c.node c.replacement)) 1 :=
  isRecord.codec rfl (fun c => by simp [members, body]) fun c => by
    simp [members, Member.plain, Member.maybe, Portable]

end NodeParts

/-! ## The second reading -/

theorem regular_body {c : Constraint} (hc : c.Portable) : (Json.object c.body).Regular := by
  cases c with
  | property o t p v => exact PropertyParts.codec.regular (x := ⟨o, t, p, v⟩) hc
  | edge o s t => exact EdgeParts.codec.regular (x := ⟨o, s, t⟩) hc
  | node o n r => exact NodeParts.codec.regular (x := ⟨o, n, r⟩) hc

/-- What was held back is read as a constraint of the scope that was found. -/
theorem decodeHeld_ok {scope : Scope} {n : Nat} {d : Document} {c : Constraint}
    (hbound : Source.heldBack.Bounds (n + 1) d) (hd : d.InRange)
    (h : decodeHeld scope d = .ok c) :
    c.scope = scope ∧ c.Portable ∧ (Json.object c.body).depth ≤ n + 1 := by
  have h := mapError_eq_ok.mp h
  cases scope with
  | resource =>
    obtain ⟨x, hx, rfl⟩ := map_eq_ok.mp h
    exact ⟨rfl, PropertyParts.codec.sound (Nat.le_add_left 1 n) hbound hd hx⟩
  | edge =>
    obtain ⟨x, hx, rfl⟩ := map_eq_ok.mp h
    exact ⟨rfl, EdgeParts.codec.sound (Nat.le_add_left 1 n) hbound hd hx⟩
  | global =>
    obtain ⟨x, hx, rfl⟩ := map_eq_ok.mp h
    exact ⟨rfl, NodeParts.codec.sound (Nat.le_add_left 1 n) hbound hd hx⟩

theorem decodeHeld_body {c : Constraint} (hc : c.Portable)
    (hdepth : (Json.object c.body).depth ≤ Source.heldBack.limit) :
    decodeHeld c.scope (.ofJson (.object c.body)) = .ok c := by
  refine mapError_eq_ok.mpr ?_
  cases c with
  | property o t p v =>
    have hread : record propertyFields {} false .heldBack
        (.ofJson (.object (body (.property o t p v)))) = .ok ⟨o, t, p, v⟩ :=
      PropertyParts.codec.complete (x := ⟨o, t, p, v⟩) hc hdepth
    exact map_eq_ok.mpr ⟨_, hread, rfl⟩
  | edge o s t =>
    have hread : record edgeFields {} false .heldBack (.ofJson (.object (body (.edge o s t)))) =
        .ok ⟨o, s, t⟩ := EdgeParts.codec.complete (x := ⟨o, s, t⟩) hc hdepth
    exact map_eq_ok.mpr ⟨_, hread, rfl⟩
  | node o n r =>
    have hread : record nodeFields {} false .heldBack (.ofJson (.object (body (.node o n r)))) =
        .ok ⟨o, n, r⟩ := NodeParts.codec.complete (x := ⟨o, n, r⟩) hc hdepth
    exact map_eq_ok.mpr ⟨_, hread, rfl⟩

/-! ## The first reading -/

/-- What is held back are members that can be read. -/
theorem holdBack_ok {src : Source} {n : Nat} {scope scope' : Option Scope}
    {ms held : List (Option String × Document)} (hbounds : ∀ m ∈ ms, src.Bounds n m.2)
    (h : holdBack src scope ms = .ok (scope', held)) :
    ∀ m ∈ held, m ∈ ms ∧ m.1.isSome ∧ ∃ j, m.2.read n = .ok j := by
  induction ms generalizing scope held with
  | nil =>
    cases h
    simp
  | cons m ms ih =>
    obtain ⟨name, d⟩ := m
    obtain ⟨hbound, hmore⟩ := List.forall_mem_cons.mp hbounds
    have hlater : ∀ {scope held}, holdBack src scope ms = .ok (scope', held) →
        ∀ m ∈ held, m ∈ (name, d) :: ms ∧ m.1.isSome ∧ ∃ j, m.2.read n = .ok j :=
      fun h m hm => (ih hmore h m hm).imp_left (List.mem_cons_of_mem _)
    cases name with
    | none => exact absurd h (by simp [holdBack])
    | some name =>
      rw [holdBack] at h
      split at h
      · split at h
        · exact absurd h (by simp)
        · obtain ⟨s, -, h⟩ := bind_eq_ok.mp h
          exact hlater h
      · obtain ⟨j, hj, h⟩ := bind_eq_ok.mp h
        obtain ⟨⟨scope₁, held₁⟩, hrest, h⟩ := bind_eq_ok.mp h
        simp only [Except.ok.injEq, Prod.mk.injEq] at h
        obtain ⟨rfl, rfl⟩ := h
        refine List.forall_mem_cons.mpr ⟨?_, hlater hrest⟩
        exact ⟨List.mem_cons_self, rfl, j, hbound.read_json hj⟩

/-- Members without a scope among them are held back as they are. -/
theorem holdBack_map {src : Source} (scope : Option Scope) {ms : List (String × Json)}
    (hnames : ∀ m ∈ ms, m.1 ≠ "scope") (hms : ∀ m ∈ ms, m.2.Regular ∧ m.2.depth ≤ src.limit) :
    holdBack src scope (ms.map fun m => (some m.1, .ofJson m.2)) =
      .ok (scope, ms.map fun m => (some m.1, .ofJson m.2)) := by
  induction ms with
  | nil => rfl
  | cons m ms ih =>
    obtain ⟨hname, hnames⟩ := List.forall_mem_cons.mp hnames
    obtain ⟨⟨hregular, hdepth⟩, hms⟩ := List.forall_mem_cons.mp hms
    have hread : json src (.ofJson m.2) = .ok m.2 := Codec.json.complete hregular hdepth
    simp [holdBack, hname, hread, ih hnames hms, bind, Except.bind]

theorem scopeDecoder_word (src : Source) (s : Scope) :
    scopeDecoder src (.ofJson (.string s.word)) = .ok s := by
  simp [scopeDecoder, Document.ofJson, string, Scope.ofWord?_word, bind, Except.bind]

theorem ne_scope_of_mem_body {c : Constraint} {m : String × Json} (h : m ∈ c.body) :
    m.1 ≠ "scope" := by
  cases c with
  | property o t p v =>
    simp only [body, List.mem_cons, List.not_mem_nil, or_false] at h
    obtain rfl | rfl | rfl | rfl := h <;> simp
  | edge o s t =>
    simp only [body, List.mem_cons, List.not_mem_nil, or_false] at h
    obtain rfl | rfl | rfl := h <;> simp
  | node o n r =>
    simp only [body, List.mem_append, List.mem_cons, List.not_mem_nil, or_false] at h
    obtain (rfl | rfl) | hreplacement := h
    · simp
    · simp
    · cases r with
      | none => exact absurd hreplacement (by simp [Json.optionalMember])
      | some id =>
        obtain rfl := List.mem_singleton.mp hreplacement
        simp

/-- The scope nests no brackets of its own. -/
theorem depth_toJson (c : Constraint) : c.toJson.depth = (Json.object c.body).depth := by
  simp [toJson_eq, Json.depth, Json.depthMembers]

/-- **Constraints have a codec.** -/
theorem codec : Codec decoder toJson Portable 1 where
  sound {src n d c} hk hbound hd hc := by
    unfold decoder at hc
    split at hc
    · rename_i ms ending
      obtain ⟨src', henter, hc⟩ := bind_eq_ok.mp hc
      obtain ⟨⟨scope, held⟩, hheld, hc⟩ := bind_eq_ok.mp hc
      obtain ⟨-, -, hc⟩ := bind_eq_ok.mp hc
      obtain ⟨m, rfl, hbounds⟩ := hbound.members henter
      rw [Document.inRange_object] at hd
      cases scope with
      | none => exact absurd hc (by simp)
      | some scope =>
        have hread := holdBack_ok hbounds hheld
        have hrange : (Document.object held none).InRange :=
          Document.inRange_object.mpr fun x hx => hd x (hread x hx).1
        obtain ⟨-, hvalid, hdepth⟩ := decodeHeld_ok
          (Source.bounds_heldBack_object fun x hx => (hread x hx).2) hrange hc
        exact ⟨hvalid, (depth_toJson c).symm ▸ hdepth⟩
    · rename_i ds ending
      obtain ⟨src', henter, hc⟩ := bind_eq_ok.mp hc
      obtain ⟨m, rfl, hbounds⟩ := hbound.items henter
      rw [Document.inRange_array] at hd
      cases ds with
      | nil =>
        obtain ⟨-, -, hc⟩ := bind_eq_ok.mp hc
        exact absurd hc (by simp)
      | cons d ds =>
        obtain ⟨scope, -, hc⟩ := bind_eq_ok.mp hc
        obtain ⟨xs, hxs, hc⟩ := bind_eq_ok.mp hc
        obtain ⟨-, -, hc⟩ := bind_eq_ok.mp hc
        obtain ⟨-, hd⟩ := List.forall_mem_cons.mp hd
        obtain ⟨-, hbounds⟩ := List.forall_mem_cons.mp hbounds
        have hread : ∀ e ∈ ds, ∃ j, e.read m = .ok j := by
          intro e he
          obtain ⟨j, hj⟩ := Codec.exists_of_items hxs e he
          exact ⟨j, (hbounds e he).read_json hj⟩
        obtain ⟨-, hvalid, hdepth⟩ := decodeHeld_ok (Source.bounds_heldBack_array hread)
          (Document.inRange_array.mpr hd) hc
        exact ⟨hvalid, (depth_toJson c).symm ▸ hdepth⟩
    · exact absurd hc (by simp)
  complete {src c} hc hdepth := by
    rw [depth_toJson] at hdepth
    have hroom : 0 < src.limit := by
      rw [Json.depth] at hdepth
      omega
    obtain ⟨src', henter, hlimit⟩ := Source.exists_enter hroom
    have hbody := Json.depth_object_le.mp (Nat.le_trans hdepth hlimit)
    have hheld := holdBack_map (some c.scope)
      (fun m hm => ne_scope_of_mem_body hm) fun m hm =>
        ⟨(Json.regular_object.mp (regular_body hc)).2 m hm, hbody m hm⟩
    have hread := decodeHeld_body hc (Nat.le_trans hdepth (Nat.min_le_right _ _))
    rw [Document.ofJson, Document.ofMembers_eq_map] at hread
    rw [toJson_eq, Document.ofJson, Document.ofMembers_eq_map, List.map_cons]
    simp [decoder, henter, holdBack, scopeDecoder_word, hheld, failText, hread, bind, Except.bind]
  regular {c} hc := by
    have hregular := Json.regular_object.mp (regular_body hc)
    rw [toJson_eq, Json.regular_object, List.forall_mem_cons, List.map_cons, List.nodup_cons]
    refine ⟨⟨?_, hregular.1⟩, Json.regular_string _, hregular.2⟩
    intro hscope
    obtain ⟨m, hm, hname⟩ := List.mem_map.mp hscope
    exact ne_scope_of_mem_body hm hname

end Constraint

end VersionedTopology
