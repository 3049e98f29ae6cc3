/-
  VersionedTopology.Http.Host

  The host of a URL, in its one normal form.

  A name whose last part is a number is an address of version 4, a host in square
  brackets one of version 6; everything else is a domain name, in lower case.
-/

import VersionedTopology.Http.Percent

namespace VersionedTopology.Http

/-- Why a text is no URL. -/
inductive UrlFault where
  | noScheme
  | emptyHost
  | invalidPort
  | invalidDomain
  | invalidAddress4
  | invalidAddress6
  | invalidCharacter
deriving DecidableEq, Repr, Inhabited

def UrlFault.text : UrlFault → String
  | noScheme => "relative URL without a base"
  | emptyHost => "empty host"
  | invalidPort => "invalid port number"
  | invalidDomain => "invalid international domain name"
  | invalidAddress4 => "invalid IPv4 address"
  | invalidAddress6 => "invalid IPv6 address"
  | invalidCharacter => "invalid domain character"

namespace Host

/-! ## Addresses of version 4 -/

/-- The value of digits to a base, if all of them are digits to that base. -/
def number? (base : Nat) (cs : List Char) : Option Nat :=
  cs.foldl (fun n c => do
    let n ← n
    let d ← Document.hexValue c
    if d < base then some (base * n + d) else none) (some 0)

/-- One part of an address: hexadecimal after `0x`, octal after a zero, or decimal. -/
def part? : List Char → Option Nat
  | [] => none
  | '0' :: 'x' :: cs => number? 16 cs
  | ['0'] => some 0
  | '0' :: cs => number? 8 cs
  | cs => number? 10 cs

/-- The parts of a name; one dot may end it. -/
def parts (cs : List Char) : List (List Char) :=
  let ps := Text.split '.' cs
  if ps.length > 1 && ps.getLast?.any List.isEmpty then ps.dropLast else ps

/-- Whether the last part of a name is a number. -/
def endsInNumber (cs : List Char) : Bool :=
  (parts cs).getLast?.any fun p =>
    (!p.isEmpty && p.all Char.isDigit) || (p.take 2 = ['0', 'x'] && (part? p).isSome)

/-- The address with the given parts; the last one fills up what the others leave open. -/
def combine : Nat → List Nat → Option Nat
  | _, [] => none
  | open', [last] => if last < Nat.pow 256 open' then some last else none
  | open', p :: ps =>
    if p < 256 then
      (combine (open' - 1) ps).map fun rest => p * Nat.pow 256 (open' - 1) + rest
    else none

/-- An address of version 4 in decimal form. -/
def address4? (cs : List Char) : Option String := do
  let ps := parts cs
  if ps.length > 4 then none
  else
    let ns ← ps.mapM part?
    let n ← combine 4 ns
    some (".".intercalate ([n / 16777216, n / 65536 % 256, n / 256 % 256, n % 256].map toString))

/-! ## Addresses of version 6 -/

/-- Groups of up to four hexadecimal digits; four decimal parts may stand for the last two. -/
def groups? : List (List Char) → Option (List Nat)
  | [] => some []
  | [g] =>
    if g.contains '.' then do
      let ns ← (Text.split '.' g).mapM fun p =>
        if p.isEmpty || (p.length > 1 && p.head? = some '0') then none else number? 10 p
      match ns with
      | [a, b, c, d] =>
        if [a, b, c, d].all (· < 256) then some [256 * a + b, 256 * c + d] else none
      | _ => none
    else if g.isEmpty || g.length > 4 then none
    else (number? 16 g).map ([·])
  | g :: gs => do
    if g.isEmpty || g.length > 4 then none
    else
      let n ← number? 16 g
      let ns ← groups? gs
      some (n :: ns)

/-- The groups of a text without the mark for left out zeros. -/
def sideGroups? (cs : List Char) : Option (List Nat) :=
  if cs.isEmpty then some [] else groups? (Text.split ':' cs)

/-- The text before and after the first double colon. -/
def cutDouble : List Char → Option (List Char × List Char)
  | ':' :: ':' :: cs => some ([], cs)
  | c :: cs => (cutDouble cs).map fun (a, b) => (c :: a, b)
  | [] => none

/-- The eight groups of an address. -/
def address6? (cs : List Char) : Option (List Nat) := do
  match cutDouble cs with
  | none =>
    let gs ← sideGroups? cs
    if gs.length = 8 then some gs else none
  | some (a, b) =>
    let x ← sideGroups? a
    let y ← sideGroups? b
    if x.length + y.length ≤ 7 && !a.contains '.' then
      some (x ++ List.replicate (8 - x.length - y.length) 0 ++ y)
    else none

/-- The length of the zeros at the start. -/
def zeros (gs : List Nat) : Nat := (gs.takeWhile (· = 0)).length

/-- Where the first of the longest runs of zeros starts, and its length. -/
def longestRun (gs : List Nat) : Nat × Nat :=
  (List.range gs.length).foldl (fun best i =>
    let n := zeros (gs.drop i)
    if n > best.2 then (i, n) else best) (0, 0)

/-- An address of version 6 with its longest run of zeros left out. -/
def text6 (gs : List Nat) : String :=
  let hex (ns : List Nat) : String :=
    ":".intercalate (ns.map fun n => String.ofList (Nat.toDigits 16 n))
  let (start, n) := longestRun gs
  if n < 2 then hex gs else hex (gs.take start) ++ "::" ++ hex (gs.drop (start + n))

/-! ## Hosts -/

/-- Characters that no host holds. -/
def isForbidden (c : Char) : Bool := c.toNat = 0 || "\t\n\r #/:<>?@[\\]^|".toList.contains c

/-- Characters that no domain name holds. -/
def isForbiddenInDomain (c : Char) : Bool := isForbidden c || isControlOrWide c || c = '%'

/-- The host of a URL whose scheme is known to name hosts. -/
def normal (cs : List Char) : Except UrlFault String :=
  match cs with
  | '[' :: cs =>
    if cs.getLast? = some ']' then
      match address6? cs.dropLast with
      | some gs => .ok ("[" ++ text6 gs ++ "]")
      | none => .error .invalidAddress6
    else .error .invalidAddress6
  | cs =>
    match decodeSegment (String.ofList cs) with
    | none => .error .invalidDomain
    | some name =>
      let name := name.toList.map Char.toLower
      if name.isEmpty then .error .emptyHost
      else if name.any isForbiddenInDomain then .error .invalidDomain
      else if endsInNumber name then
        match address4? name with
        | some a => .ok a
        | none => .error .invalidAddress4
      else .ok (String.ofList name)

/-- The host of a URL of any other scheme, which is kept as it is. -/
def unknown (cs : List Char) : Except UrlFault String :=
  match cs with
  | '[' :: _ => normal cs
  | cs =>
    if cs.any isForbidden then .error .invalidCharacter
    else .ok (String.ofList (encode isControlOrWide cs))

end Host

end VersionedTopology.Http
