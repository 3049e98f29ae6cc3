/-
  VersionedTopology.Json.Basic

  JSON values and when two of them are the same.

  An object keeps its members in the order in which they were first written and
  holds each name once; a later member of the same name replaces the value in
  place. Two values are the same when their canonical forms are equal: members
  sorted by name, and one zero among the doubles.
-/

import VersionedTopology.Json.Number

namespace VersionedTopology

/-- A JSON value. -/
inductive Json where
  | null
  | bool (b : Bool)
  | number (n : Number)
  | string (s : String)
  | array (items : List Json)
  | object (members : List (String × Json))
deriving Repr, Inhabited

namespace Json

/-! ## Decidable equality -/

mutual

/-- Equality of values, member by member. -/
def decEq : (a b : Json) → Decidable (a = b)
  | .null, b => match b with
    | .null => isTrue rfl
    | .bool _ | .number _ | .string _ | .array _ | .object _ => isFalse nofun
  | .bool x, b => match b with
    | .bool y => if h : x = y then isTrue (h ▸ rfl) else isFalse fun e => h (Json.bool.inj e)
    | .null | .number _ | .string _ | .array _ | .object _ => isFalse nofun
  | .number x, b => match b with
    | .number y => if h : x = y then isTrue (h ▸ rfl) else isFalse fun e => h (Json.number.inj e)
    | .null | .bool _ | .string _ | .array _ | .object _ => isFalse nofun
  | .string x, b => match b with
    | .string y => if h : x = y then isTrue (h ▸ rfl) else isFalse fun e => h (Json.string.inj e)
    | .null | .bool _ | .number _ | .array _ | .object _ => isFalse nofun
  | .array xs, b => match b with
    | .array ys => match decEqItems xs ys with
      | isTrue h => isTrue (h ▸ rfl)
      | isFalse h => isFalse fun e => h (Json.array.inj e)
    | .null | .bool _ | .number _ | .string _ | .object _ => isFalse nofun
  | .object xs, b => match b with
    | .object ys => match decEqMembers xs ys with
      | isTrue h => isTrue (h ▸ rfl)
      | isFalse h => isFalse fun e => h (Json.object.inj e)
    | .null | .bool _ | .number _ | .string _ | .array _ => isFalse nofun

def decEqItems : (xs ys : List Json) → Decidable (xs = ys)
  | [], [] => isTrue rfl
  | [], _ :: _ | _ :: _, [] => isFalse nofun
  | x :: xs, y :: ys =>
    match decEq x y, decEqItems xs ys with
    | isTrue h, isTrue k => isTrue (h ▸ k ▸ rfl)
    | isFalse h, _ => isFalse fun e => h (List.cons.inj e).1
    | _, isFalse k => isFalse fun e => k (List.cons.inj e).2

def decEqMembers : (xs ys : List (String × Json)) → Decidable (xs = ys)
  | [], [] => isTrue rfl
  | [], _ :: _ | _ :: _, [] => isFalse nofun
  | (a, x) :: xs, (b, y) :: ys =>
    match decEq x y, decEqMembers xs ys with
    | isTrue h, isTrue k =>
      if n : a = b then isTrue (n ▸ h ▸ k ▸ rfl)
      else isFalse fun e => n (Prod.mk.inj (List.cons.inj e).1).1
    | isFalse h, _ => isFalse fun e => h (Prod.mk.inj (List.cons.inj e).1).2
    | _, isFalse k => isFalse fun e => k (List.cons.inj e).2

end

instance : DecidableEq Json := decEq

/-! ## Members of an object -/

/-- Sets a member: in place when the name is there, else at the end. -/
def setMember (name : String) (value : Json) : List (String × Json) → List (String × Json)
  | [] => [(name, value)]
  | (n, v) :: rest =>
    if n = name then (n, value) :: rest else (n, v) :: setMember name value rest

/-- The member of an object, if the value is an object that has it. -/
def get? (name : String) : Json → Option Json
  | .object members => (members.find? (·.1 = name)).map (·.2)
  | _ => none

def isNull : Json → Bool
  | .null => true
  | _ => false

/-- An absent value is written as null. -/
def orNull (f : α → Json) : Option α → Json
  | none => .null
  | some a => f a

def ofNat (n : Nat) : Json := .number (.int n)

def strings (xs : List String) : Json := .array (xs.map .string)

/-! ## Sameness -/

/-- Inserts a member into a list sorted by name, before the members of greater names. -/
def insertSorted (m : String × Json) : List (String × Json) → List (String × Json)
  | [] => [m]
  | n :: rest => if n.1 < m.1 then n :: insertSorted m rest else m :: n :: rest

/-- Members sorted by name. -/
def sortMembers (members : List (String × Json)) : List (String × Json) :=
  members.foldr insertSorted []

mutual

/-- The canonical form of a value. -/
def canon : Json → Json
  | .null => .null
  | .bool b => .bool b
  | .number n => .number n.canon
  | .string s => .string s
  | .array items => .array (canonItems items)
  | .object members => .object (sortMembers (canonMembers members))

def canonItems : List Json → List Json
  | [] => []
  | x :: xs => canon x :: canonItems xs

def canonMembers : List (String × Json) → List (String × Json)
  | [] => []
  | (k, v) :: rest => (k, canon v) :: canonMembers rest

end

/-- Equality of JSON values: whatever the order of members, integers apart from doubles, and both
zeros alike. -/
def Same (a b : Json) : Prop := a.canon = b.canon

instance (a b : Json) : Decidable (Same a b) := inferInstanceAs (Decidable (a.canon = b.canon))

/-- `Same` on values that may be absent. -/
def SameOption : Option Json → Option Json → Prop
  | none, none => True
  | some a, some b => Same a b
  | _, _ => False

instance : (a b : Option Json) → Decidable (SameOption a b)
  | none, none => isTrue trivial
  | some a, some b => inferInstanceAs (Decidable (Same a b))
  | none, some _ => isFalse not_false
  | some _, none => isFalse not_false

@[simp] theorem Same.refl (a : Json) : Same a a := rfl

theorem Same.symm {a b : Json} (h : Same a b) : Same b a := Eq.symm h

theorem Same.trans {a b c : Json} (h : Same a b) (k : Same b c) : Same a c := Eq.trans h k

/-- Whether a value of a list is the same as the given one. -/
def member (x : Json) (xs : List Json) : Bool := xs.any fun y => decide (Same y x)

end Json

end VersionedTopology
