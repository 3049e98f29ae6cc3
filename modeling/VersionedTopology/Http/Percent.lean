/-
  VersionedTopology.Http.Percent

  Percent coding of texts, and the form coding of queries.

  A byte is written as `%` and two upper case hexadecimal digits. Each place of a
  URL has its own set of characters that have to be coded there. Reading leaves
  a percent sign alone that no two hexadecimal digits follow.
-/

import VersionedTopology.Json.Document
import VersionedTopology.Text.Blank
import VersionedTopology.Text.Utf8

namespace VersionedTopology.Http

/-! ## Writing -/

/-- The two digits of a byte. -/
def hexByte (b : UInt8) : List Char :=
  let digit (n : Nat) : Char := "0123456789ABCDEF".toList.getD n '0'
  ['%', digit (b.toNat / 16), digit (b.toNat % 16)]

/-- Codes the characters of a set. -/
def encode (coded : Char → Bool) (cs : List Char) : List Char :=
  cs.flatMap fun c =>
    if coded c then (Text.bytes (String.singleton c)).flatMap hexByte else [c]

/-- Controls and everything beyond ASCII. -/
def isControlOrWide (c : Char) : Bool := c.toNat < 32 || 126 < c.toNat

def codedInFragment (c : Char) : Bool :=
  isControlOrWide c || " \"<>`".toList.contains c

def codedInQuery (c : Char) : Bool := isControlOrWide c || " \"#<>".toList.contains c

def codedInPath (c : Char) : Bool :=
  codedInFragment c || c = '#' || c = '?' || c = '{' || c = '}'

/-- Inside one segment of a path. -/
def codedInSegment (c : Char) : Bool := codedInPath c || c = '/' || c = '%'

def codedInUserinfo (c : Char) : Bool := codedInPath c || "/:;=@[\\]^|".toList.contains c

/-- Codes a name or a value of a query. -/
def formEncode (s : String) : String :=
  String.ofList ((Text.bytes s).flatMap fun b =>
    let c := Char.ofNat b.toNat
    if b < 128 && (c.isAlphanum || c = '*' || c = '-' || c = '.' || c = '_') then [c]
    else if c = ' ' then ['+']
    else hexByte b)

/-! ## Reading -/

/-- The bytes of a coded text. -/
def decodeBytes : List UInt8 → List UInt8
  | 0x25 :: a :: b :: rest =>
    match Document.hexValue (Char.ofNat a.toNat), Document.hexValue (Char.ofNat b.toNat) with
    | some x, some y => UInt8.ofNat (16 * x + y) :: decodeBytes rest
    | _, _ => 0x25 :: decodeBytes (a :: b :: rest)
  | b :: rest => b :: decodeBytes rest
  | [] => []

/-- The text of a coded path segment, if it is UTF-8. -/
def decodeSegment (s : String) : Option String := Text.ofBytes? (decodeBytes (Text.bytes s))

/-- The text of a coded name or value of a query. -/
def formDecode (cs : List Char) : String :=
  let spaced := cs.map fun c => if c = '+' then ' ' else c
  Text.ofBytesLenient (decodeBytes (Text.bytes (String.ofList spaced)))

/-- The pairs of a query; empty parts between ampersands are passed over. -/
def queryPairs (query : String) : List (String × String) :=
  ((Text.split '&' query.toList).filter fun part => !part.isEmpty).map fun part =>
    (formDecode (part.takeWhile (· ≠ '=')), formDecode ((part.dropWhile (· ≠ '=')).drop 1))

end VersionedTopology.Http
