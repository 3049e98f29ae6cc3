/-
  VersionedTopology.Json.Document

  A JSON text as a tree that keeps the place where the text breaks off.

  A typed reader looks at a text from left to right and stops at its first
  problem, which may be a value of the wrong shape long before the place where
  the text itself is malformed. So reading a text never fails: the tree holds
  what could be read, and the fault stands in it where it was met. A member that
  a reader ignores is checked less strictly than one that it reads; a fault that
  only a reader of the value meets leaves the rest of the tree in place.
-/

import VersionedTopology.Json.Basic

namespace VersionedTopology

/-- Why a text is no JSON: it ends too early, or no longer text could mend it. -/
inductive Fault where
  | truncated
  | malformed
deriving DecidableEq, Repr, Inhabited

/-- A JSON text. `number none` is a literal beyond the doubles and `string none` a string with
half a surrogate pair: both can be ignored but not read. `ending` is the fault met where a comma
or the closing bracket was due. `broken` is a value whose text is at fault, with the fault that a
reader meets, the one met when it is ignored, and its first character if there was one. -/
inductive Document where
  | null
  | bool (b : Bool)
  | number (reading : Option Number)
  | string (reading : Option String)
  | array (items : List Document) (ending : Option Fault)
  | object (members : List (Option String × Document)) (ending : Option Fault)
  | broken (read skip : Fault) (first : Option Char)
deriving Repr, Inhabited

namespace Document

/-! ## Characters -/

def isBlank (c : Char) : Bool := c = ' ' || c = '\n' || c = '\t' || c = '\r'

def skipBlanks (cs : List Char) : List Char := cs.dropWhile isBlank

def utf8Size (cs : List Char) : Nat := cs.foldl (fun n c => n + c.utf8Size) 0

def hexValue (c : Char) : Option Nat :=
  if '0' ≤ c ∧ c ≤ '9' then some (c.toNat - 48)
  else if 'a' ≤ c ∧ c ≤ 'f' then some (c.toNat - 87)
  else if 'A' ≤ c ∧ c ≤ 'F' then some (c.toNat - 55)
  else none

/-- The four hexadecimal digits of an escape. Fewer than four remaining bytes are a truncated
text, whatever they are. -/
def hexEscape (cs : List Char) : Except Fault (Nat × List Char) :=
  if utf8Size (cs.take 4) < 4 then .error .truncated
  else
    match cs with
    | a :: b :: c :: d :: rest =>
      match hexValue a, hexValue b, hexValue c, hexValue d with
      | some a, some b, some c, some d => .ok (((a * 16 + b) * 16 + c) * 16 + d, rest)
      | _, _, _, _ => .error .malformed
    | _ => .error .malformed

/-! ## Strings -/

/-- What a string scan found: a closed string and the text after it, or a fault for a reader and
one for a text that is ignored. -/
inductive StringScan where
  | closed (reading : Option String) (rest : List Char)
  | broken (read skip : Fault)

/-- The character of a one letter escape. -/
def plainEscape (c : Char) : Option Char :=
  if c = '"' || c = '\\' || c = '/' then some c
  else if c = 'b' then some (Char.ofNat 8)
  else if c = 'f' then some (Char.ofNat 12)
  else if c = 'n' then some '\n'
  else if c = 'r' then some '\r'
  else if c = 't' then some '\t'
  else none

def isHighSurrogate (n : Nat) : Bool := 0xD800 ≤ n && n ≤ 0xDBFF

def isLowSurrogate (n : Nat) : Bool := 0xDC00 ≤ n && n ≤ 0xDFFF

/-- The low half that has to follow a high surrogate. -/
def lowSurrogate : List Char → Except Fault (Nat × List Char)
  | [] => .error .truncated
  | '\\' :: [] => .error .truncated
  | '\\' :: 'u' :: rest =>
    match hexEscape rest with
    | .error f => .error f
    | .ok (n, rest) => if isLowSurrogate n then .ok (n, rest) else .error .malformed
  | _ => .error .malformed

/-- Scans a string after its opening quote. `acc` holds the characters so far, in reverse order;
`spoiled` is the fault that a reader has met already. -/
def scanString : Nat → List Char → List Char → Option Fault → StringScan
  | 0, _, _, _ => .broken .malformed .malformed
  | _ + 1, [], _, spoiled => .broken (spoiled.getD .truncated) .truncated
  | fuel + 1, c :: cs, acc, spoiled =>
    let fail (f : Fault) : StringScan := .broken (spoiled.getD f) f
    if c = '"' then
      .closed (if spoiled.isNone then some (String.ofList acc.reverse) else none) cs
    else if c.toNat < 32 then fail .malformed
    else if c ≠ '\\' then scanString fuel cs (c :: acc) spoiled
    else
      match cs with
      | [] => fail .truncated
      | 'u' :: cs =>
        match hexEscape cs with
        | .error f => fail f
        | .ok (n, rest) =>
          if isHighSurrogate n then
            match lowSurrogate rest with
            | .ok (low, rest') =>
              scanString fuel rest'
                (Char.ofNat (0x10000 + (n - 0xD800) * 0x400 + (low - 0xDC00)) :: acc) spoiled
            | .error f => scanString fuel rest acc (some (spoiled.getD f))
          else if isLowSurrogate n then
            scanString fuel rest acc (some (spoiled.getD .malformed))
          else scanString fuel rest (Char.ofNat n :: acc) spoiled
      | e :: cs =>
        match plainEscape e with
        | some c => scanString fuel cs (c :: acc) spoiled
        | none => fail .malformed

/-! ## Numbers -/

/-- Digits read into a significand of 64 bits. -/
structure Significand where
  value : Nat
  /-- Digits taken into the value. -/
  taken : Nat
  /-- Digits that came after the value was full. -/
  dropped : Nat

/-- Takes digits while the significand fits 64 bits; the others are only counted. -/
def Significand.extend : Significand → List Char → Significand × List Char
  | s, [] => (s, [])
  | s, c :: cs =>
    if c.isDigit then
      let next := s.value * 10 + (c.toNat - 48)
      if s.dropped = 0 && next ≤ Number.maxUnsigned then
        extend { s with value := next, taken := s.taken + 1 } cs
      else extend { s with dropped := s.dropped + 1 } cs
    else (s, c :: cs)

/-- The value of an exponent, which is cut off beyond 32 bits. -/
def exponentValue (digits : List Char) : Option Nat :=
  let n := digits.foldl (fun n c => n * 10 + (c.toNat - 48)) 0
  if n < 2147483648 then some n else none

/-- An exponent, after its letter: the number with this significand, and the rest. -/
def scanExponent (negative : Bool) (significand : Nat) (start : Int) (cs : List Char) :
    Document × List Char :=
  let (down, cs) := match cs with
    | '+' :: rest => (false, rest)
    | '-' :: rest => (true, rest)
    | _ => (false, cs)
  match cs with
  | [] => (.broken .truncated .malformed (some '0'), [])
  | c :: _ =>
    if c.isDigit then
      let digits := cs.takeWhile Char.isDigit
      let rest := cs.dropWhile Char.isDigit
      match exponentValue digits with
      | some e =>
        (.number (Number.ofScientific negative significand (if down then start - e else start + e)),
          rest)
      | none =>
        if significand ≠ 0 ∧ !down then (.number none, rest)
        else (.number (Number.ofScientific negative 0 0), rest)
    else (.broken .malformed .malformed (some '0'), cs)

/-- What follows the digits before the point. Digits after the point go on filling the significand
as long as they fit it, also when digits before the point were dropped. -/
def scanFraction (negative : Bool) (s : Significand) (cs : List Char) : Document × List Char :=
  match cs with
  | '.' :: cs =>
    match cs with
    | [] => (.broken .truncated .malformed (some '0'), [])
    | c :: _ =>
      if c.isDigit then
        let (t, rest) := Significand.extend { value := s.value, taken := 0, dropped := 0 } cs
        let value := t.value
        let start : Int := s.dropped - (t.taken : Int)
        match rest with
        | e :: rest' =>
          if e = 'e' || e = 'E' then scanExponent negative value start rest'
          else (.number (Number.ofScientific negative value start), rest)
        | [] => (.number (Number.ofScientific negative value start), rest)
      else (.broken .malformed .malformed (some '0'), cs)
  | e :: rest =>
    if e = 'e' || e = 'E' then scanExponent negative s.value s.dropped rest
    else if s.dropped = 0 then (.number (some (Number.ofInteger negative s.value)), cs)
    else (.number (Number.ofScientific negative s.value s.dropped), cs)
  | [] =>
    if s.dropped = 0 then (.number (some (Number.ofInteger negative s.value)), cs)
    else (.number (Number.ofScientific negative s.value s.dropped), cs)

/-- A number after its sign. No further digit may follow a leading zero. -/
def scanNumber (negative : Bool) (cs : List Char) : Document × List Char :=
  match cs with
  | [] => (.broken .truncated .malformed (some '-'), [])
  | '0' :: rest =>
    match rest with
    | c :: _ =>
      if c.isDigit then (.broken .malformed .malformed (some '0'), rest)
      else scanFraction negative ⟨0, 1, 0⟩ rest
    | [] => scanFraction negative ⟨0, 1, 0⟩ rest
  | c :: _ =>
    if c.isDigit then
      let (s, rest) := Significand.extend ⟨0, 0, 0⟩ cs
      scanFraction negative s rest
    else (.broken .malformed .malformed (some '-'), cs)

/-! ## Values -/

/-- A literal word: the letters that have to follow, and the value they spell. -/
def scanWord (first : Char) (value : Document) : List Char → List Char → Document × List Char
  | [], cs => (value, cs)
  | _ :: _, [] => (.broken .truncated .truncated (some first), [])
  | w :: ws, c :: cs =>
    if w = c then scanWord first value ws cs
    else (.broken .malformed .malformed (some first), cs)

mutual

/-- Scans a value; the flag tells that the text broke off inside it. -/
def scanValue : Nat → List Char → Document × List Char × Bool
  | 0, cs => (.broken .malformed .malformed none, cs, true)
  | fuel + 1, cs =>
    let scalar (r : Document × List Char) : Document × List Char × Bool :=
      (r.1, r.2, match r.1 with | .broken .. => true | _ => false)
    match skipBlanks cs with
    | [] => (.broken .truncated .truncated none, [], true)
    | 'n' :: rest => scalar (scanWord 'n' .null ['u', 'l', 'l'] rest)
    | 't' :: rest => scalar (scanWord 't' (.bool true) ['r', 'u', 'e'] rest)
    | 'f' :: rest => scalar (scanWord 'f' (.bool false) ['a', 'l', 's', 'e'] rest)
    | '-' :: rest => scalar (scanNumber true rest)
    | '"' :: rest =>
      match scanString (rest.length + 1) rest [] none with
      | .closed reading rest => (.string reading, rest, false)
      | .broken read skip => (.broken read skip (some '"'), [], true)
    | '[' :: rest =>
      match skipBlanks rest with
      | [] => (.array [] (some .truncated), [], true)
      | ']' :: rest => (.array [] none, rest, false)
      | rest =>
        let (items, ending, rest, stop) := scanItems fuel rest
        (.array items ending, rest, stop)
    | '{' :: rest =>
      match skipBlanks rest with
      | [] => (.object [] (some .truncated), [], true)
      | '}' :: rest => (.object [] none, rest, false)
      | rest =>
        let (members, ending, rest, stop) := scanMembers fuel rest
        (.object members ending, rest, stop)
    | c :: rest =>
      if c.isDigit then scalar (scanNumber false (c :: rest))
      else (.broken .malformed .malformed (some c), rest, true)

/-- Scans the items of an array, the first of which is due. -/
def scanItems : Nat → List Char → List Document × Option Fault × List Char × Bool
  | 0, cs => ([], some .malformed, cs, true)
  | fuel + 1, cs =>
    let (item, rest, stop) := scanValue fuel cs
    if stop then ([item], none, rest, true)
    else
      match skipBlanks rest with
      | [] => ([item], some .truncated, [], true)
      | ']' :: rest => ([item], none, rest, false)
      | ',' :: rest =>
        let (items, ending, rest, stop) := scanItems fuel rest
        (item :: items, ending, rest, stop)
      | rest => ([item], some .malformed, rest, true)

/-- Scans the members of an object, the first of which is due. -/
def scanMembers :
    Nat → List Char → List (Option String × Document) × Option Fault × List Char × Bool
  | 0, cs => ([], some .malformed, cs, true)
  | fuel + 1, cs =>
    match skipBlanks cs with
    | [] => ([], some .truncated, [], true)
    | '"' :: rest =>
      match scanString (rest.length + 1) rest [] none with
      | .broken read _ => ([], some read, [], true)
      | .closed name rest =>
        match skipBlanks rest with
        | [] => ([(name, .broken .truncated .truncated none)], none, [], true)
        | ':' :: rest =>
          let (value, rest, stop) := scanValue fuel rest
          if stop then ([(name, value)], none, rest, true)
          else
            match skipBlanks rest with
            | [] => ([(name, value)], some .truncated, [], true)
            | '}' :: rest => ([(name, value)], none, rest, false)
            | ',' :: rest =>
              let (members, ending, rest, stop) := scanMembers fuel rest
              ((name, value) :: members, ending, rest, stop)
            | rest => ([(name, value)], some .malformed, rest, true)
        | c :: rest => ([(name, .broken .malformed .malformed (some c))], none, rest, true)
    | rest => ([], some .malformed, rest, true)

end

/-- A whole text: its value, and whether anything but blanks follows it. -/
structure Text where
  root : Document
  trailing : Bool

/-- Reads a text. Each step of the scan consumes a character, so the length bounds them. -/
def ofText (text : String) : Text :=
  let cs := text.toList
  let (root, rest, stop) := scanValue (2 * cs.length + 2) cs
  ⟨root, !stop && !(skipBlanks rest).isEmpty⟩

/-! ## Values as documents, and back -/

mutual

/-- The document of a value, which has no fault. -/
def ofJson : Json → Document
  | .null => .null
  | .bool b => .bool b
  | .number n => .number (some n)
  | .string s => .string (some s)
  | .array items => .array (ofItems items) none
  | .object members => .object (ofMembers members) none

def ofItems : List Json → List Document
  | [] => []
  | x :: xs => ofJson x :: ofItems xs

def ofMembers : List (String × Json) → List (Option String × Document)
  | [] => []
  | (k, v) :: rest => (some k, ofJson v) :: ofMembers rest

end

mutual

/-- The first fault met when a value is ignored. -/
def skip : Document → Option Fault
  | .broken _ f _ => some f
  | .array items ending => (skipItems items).or ending
  | .object members ending => (skipMembers members).or ending
  | _ => none

def skipItems : List Document → Option Fault
  | [] => none
  | x :: xs => (skip x).or (skipItems xs)

def skipMembers : List (Option String × Document) → Option Fault
  | [] => none
  | (_, v) :: rest => (skip v).or (skipMembers rest)

end

mutual

/-- Reads the value; brackets may be nested `depth` deep. -/
def read (depth : Nat) : Document → Except Fault Json
  | .null => .ok .null
  | .bool b => .ok (.bool b)
  | .number (some n) => .ok (.number n)
  | .number none => .error .malformed
  | .string (some s) => .ok (.string s)
  | .string none => .error .malformed
  | .broken f _ _ => .error f
  | .array items ending =>
    match depth with
    | 0 => .error .malformed
    | depth + 1 =>
      match readItems depth items, ending with
      | .error f, _ => .error f
      | .ok _, some f => .error f
      | .ok items, none => .ok (.array items)
  | .object members ending =>
    match depth with
    | 0 => .error .malformed
    | depth + 1 =>
      match readMembers depth [] members, ending with
      | .error f, _ => .error f
      | .ok _, some f => .error f
      | .ok members, none => .ok (.object members)

def readItems (depth : Nat) : List Document → Except Fault (List Json)
  | [] => .ok []
  | x :: xs =>
    match read depth x with
    | .error f => .error f
    | .ok x =>
      match readItems depth xs with
      | .error f => .error f
      | .ok xs => .ok (x :: xs)

/-- Later members of a name replace the earlier one in place. -/
def readMembers (depth : Nat) (acc : List (String × Json)) :
    List (Option String × Document) → Except Fault (List (String × Json))
  | [] => .ok acc
  | (none, _) :: _ => .error .malformed
  | (some k, v) :: rest =>
    match read depth v with
    | .error f => .error f
    | .ok v => readMembers depth (Json.setMember k v acc) rest

end

/-- How deep brackets may be nested in a text. -/
def maxDepth : Nat := 127

end Document

/-- The value of a text, if it is one JSON value. -/
def Json.ofText (text : String) : Except Fault Json :=
  let t := Document.ofText text
  match t.root.read Document.maxDepth with
  | .error f => .error f
  | .ok j => if t.trailing then .error .malformed else .ok j

end VersionedTopology
