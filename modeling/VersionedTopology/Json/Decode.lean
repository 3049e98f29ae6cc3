/-
  VersionedTopology.Json.Decode

  Typed reading of JSON documents.

  A decoder looks at a document from left to right and stops at the first
  problem, be it a fault of the text or a value of the wrong shape. A record is
  read from an object, whose unknown members are ignored, or from an array that
  gives the members in their declared order.
-/

import VersionedTopology.Json.Document

namespace VersionedTopology

/-- Why a document could not be read as a value of some type. A shape failure may carry the text
of an identifier that could not be parsed. -/
inductive Failure where
  | text (fault : Fault)
  | shape (badId : Option String)
deriving DecidableEq, Repr, Inhabited

/-- The same failure seen in a value instead of a text: only shapes can be wrong there. -/
def Failure.asShape : Failure → Failure
  | .text _ => .shape none
  | .shape reason => .shape reason

/-- Where a document comes from. A text limits how deep brackets may nest and has faults; a value
has neither. A value that was held back before its type was known also accepts an empty object
where nothing is expected. -/
structure Source where
  depth : Option Nat
  held : Bool
deriving DecidableEq, Repr

namespace Source

def text : Source := ⟨some Document.maxDepth, false⟩

def value : Source := ⟨none, false⟩

def heldBack : Source := ⟨none, true⟩

def isText (s : Source) : Bool := s.depth.isSome

/-- Goes into a bracket. -/
def enter (s : Source) : Except Failure Source :=
  match s.depth with
  | none => .ok s
  | some 0 => .error (.text .malformed)
  | some (n + 1) => .ok { s with depth := some n }

/-- The failure of a place that would be a fault of the text, or a wrong shape of a value. -/
def fault (s : Source) (f : Fault) : Failure := if s.isText then .text f else .shape none

end Source

/-- Reads a value of a type from a document. -/
abbrev Decoder (α : Type) := Source → Document → Except Failure α

/-- The failure of a document of another shape than expected. A scalar is read to its end before
its shape is looked at, a bracket is not. -/
def Document.mismatch : Document → Failure
  | .number none => .text .malformed
  | .string none => .text .malformed
  | .broken f _ _ => .text f
  | _ => .shape none

namespace Decoder

def failText (f : Option Fault) : Except Failure Unit :=
  match f with
  | none => .ok ()
  | some f => .error (.text f)

/-! ## Scalars -/

def string : Decoder String := fun _ d =>
  match d with
  | .string (some s) => .ok s
  | _ => .error d.mismatch

def bool : Decoder Bool := fun _ d =>
  match d with
  | .bool b => .ok b
  | _ => .error d.mismatch

/-- An unsigned integer up to a bound. -/
def unsigned (max : Nat) : Decoder Nat := fun _ d =>
  match d with
  | .number (some (.int n)) =>
    if 0 ≤ n ∧ n ≤ max then .ok n.toNat else .error (.shape none)
  | _ => .error d.mismatch

/-- An unsigned integer of 64 bits. -/
def unsigned64 : Decoder Nat := unsigned Number.maxUnsigned

/-- Any value. -/
def json : Decoder Json := fun src d =>
  match src.depth with
  | some n => (d.read n).mapError .text
  | none => (d.read 1000000).mapError .text

/-- A value that may be null. -/
def option (inner : Decoder α) : Decoder (Option α) := fun src d =>
  match d with
  | .null => .ok none
  | _ => (inner src d).map some

/-- A string with a meaning of its own; the text is kept when it has none. -/
def parsed (parse : String → Option α) : Decoder α := fun src d => do
  let s ← string src d
  match parse s with
  | some a => .ok a
  | none => .error (.shape (some s))

/-! ## Arrays and maps -/

/-- Reads items from left to right. -/
def items (inner : Decoder α) (src : Source) : List Document → Except Failure (List α)
  | [] => .ok []
  | d :: ds => do
    let a ← inner src d
    let as ← items inner src ds
    .ok (a :: as)

def list (inner : Decoder α) : Decoder (List α) := fun src d =>
  match d with
  | .array ds ending => do
    let src ← src.enter
    let as ← items inner src ds
    failText ending
    .ok as
  | _ => .error d.mismatch

/-- Reads members from left to right. -/
def entries (key : String → Except Failure κ) (inner : Decoder ν) (src : Source) :
    List (Option String × Document) → Except Failure (List (κ × ν))
  | [] => .ok []
  | (none, _) :: _ => .error (.text .malformed)
  | (some k, d) :: rest => do
    let k ← key k
    let v ← inner src d
    let vs ← entries key inner src rest
    .ok ((k, v) :: vs)

/-- The members of an object as pairs, in the order of the text. -/
def pairs (key : String → Except Failure κ) (inner : Decoder ν) : Decoder (List (κ × ν)) :=
  fun src d =>
    match d with
    | .object ms ending => do
      let src ← src.enter
      let vs ← entries key inner src ms
      failText ending
      .ok vs
    | _ => .error d.mismatch

/-! ## Words -/

/-- What may stand for a word without content that is written as an object: null, and in a value
that was held back also an empty object. -/
def nothing : Decoder Unit := fun src d =>
  match d with
  | .null => .ok ()
  | .object [] none => if src.held then .ok () else .error d.mismatch
  | _ => .error d.mismatch

/-- One word of a fixed choice: a string, or an object whose only member is named by the word. In
a text anything else is a fault at its first character. -/
def word (choice : String → Option α) : Decoder α := fun src d =>
  let look (s : String) : Except Failure α :=
    match choice s with
    | some a => .ok a
    | none => .error (.shape none)
  match d with
  | .string (some s) => look s
  | .string none => .error (.text .malformed)
  | .broken f _ first =>
    match first with
    | none => .error (src.fault f)
    | some c => .error (src.fault (if c = '"' then f else .malformed))
  | .object members ending => do
    let src ← src.enter
    match members with
    | [] => .error (src.fault (ending.getD .malformed))
    | (none, _) :: _ => .error (src.fault .malformed)
    | (some name, content) :: rest =>
      if !src.isText && !rest.isEmpty then .error (.shape none)
      else
        let a ← look name
        nothing src content
        match rest, ending with
        | [], none => .ok a
        | [], some f => .error (src.fault f)
        | _ :: _, _ => .error (src.fault .malformed)
  | _ => .error (src.fault .malformed)

/-! ## Records -/

/-- Whether a member of a record may be missing: never, in objects only, or always. -/
inductive Presence where
  | required
  | optional
  | defaulted
deriving DecidableEq, Repr

/-- A member of a record: its name, whether it may be missing, and how it is put into the record. -/
structure RecordField (α : Type) where
  name : String
  presence : Presence
  read : Source → Document → α → Except Failure α

/-- The member with the given decoder and setter. -/
def field (name : String) (presence : Presence) (inner : Decoder β) (set : β → α → α) :
    RecordField α :=
  ⟨name, presence, fun src d a => (inner src d).map (set · a)⟩

/-- The members of an object, in the order of the text. A repeated member is refused; an unknown
one is ignored, or refused when the record is `closed`. -/
def members (fields : List (RecordField α)) (closed : Bool) (src : Source) :
    List String → α → List (Option String × Document) → Except Failure (List String × α)
  | seen, a, [] => .ok (seen, a)
  | _, _, (none, _) :: _ => .error (.text .malformed)
  | seen, a, (some k, d) :: rest =>
    match fields.find? (·.name = k) with
    | none =>
      if closed then .error (.shape none)
      else
        match d.skip with
        | some f => .error (.text f)
        | none => members fields closed src seen a rest
    | some f =>
      if seen.contains k then .error (.shape none)
      else
        match f.read src d a with
        | .error e => .error e
        | .ok a => members fields closed src (k :: seen) a rest

/-- The members of a record written as an array. -/
def positions (src : Source) (ending : Option Fault) :
    List (RecordField α) → List Document → α → Except Failure α
  | [], [], a =>
    match ending with
    | none => .ok a
    | some f => .error (.text f)
  | [], _ :: _, _ => .error (src.fault .malformed)
  | f :: fs, [], a =>
    match ending with
    | some e => .error (.text e)
    | none =>
      if f.presence = .defaulted then positions src ending fs [] a else .error (.shape none)
  | f :: fs, d :: ds, a =>
    match f.read src d a with
    | .error e => .error e
    | .ok a => positions src ending fs ds a

/-- A record; `start` holds the values of the members that are missing. -/
def record (fields : List (RecordField α)) (start : α) (closed : Bool) : Decoder α := fun src d =>
  match d with
  | .object ms ending => do
    let src ← src.enter
    let (seen, a) ← members fields closed src [] start ms
    failText ending
    if fields.all fun f => f.presence ≠ .required || seen.contains f.name then .ok a
    else .error (.shape none)
  | .array ds ending => do
    let src ← src.enter
    positions src ending fields ds start
  | _ => .error d.mismatch

/-! ## Entry points -/

/-- Reads a whole text. -/
def ofText (decoder : Decoder α) (text : String) : Except Failure α :=
  let t := Document.ofText text
  match decoder .text t.root with
  | .error f => .error f
  | .ok a => if t.trailing then .error (.text .malformed) else .ok a

/-- Reads a value, in which only shapes can be wrong. -/
def ofValue (decoder : Decoder α) (j : Json) : Except Failure α :=
  (decoder .value (.ofJson j)).mapError Failure.asShape

end Decoder

end VersionedTopology
