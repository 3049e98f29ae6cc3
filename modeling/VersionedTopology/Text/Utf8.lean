/-
  VersionedTopology.Text.Utf8

  Texts as bytes in UTF-8.

  Bytes that are no UTF-8 can still be shown: every maximal part that could have
  begun a character but does not complete one becomes one replacement character.
-/

namespace VersionedTopology.Text

/-- The bytes of a text. -/
def bytes (s : String) : List UInt8 := s.toUTF8.toList

/-- The text with the given bytes, if they are UTF-8. -/
def ofBytes? (bs : List UInt8) : Option String := String.fromUTF8? ⟨bs.toArray⟩

/-- What stands for bytes that are no character. -/
def replacement : Char := Char.ofNat 0xFFFD

/-- How many bytes a character takes that starts with the given one, and the range of the second
byte. -/
def leadByte (b : UInt8) : Option (Nat × UInt8 × UInt8) :=
  if b < 0x80 then some (1, 0x80, 0xBF)
  else if b < 0xC2 then none
  else if b < 0xE0 then some (2, 0x80, 0xBF)
  else if b = 0xE0 then some (3, 0xA0, 0xBF)
  else if b = 0xED then some (3, 0x80, 0x9F)
  else if b < 0xF0 then some (3, 0x80, 0xBF)
  else if b = 0xF0 then some (4, 0x90, 0xBF)
  else if b < 0xF4 then some (4, 0x80, 0xBF)
  else if b = 0xF4 then some (4, 0x80, 0x8F)
  else none

/-- The bytes that go on a character: those allowed in second place, then continuations. -/
def followers (count : Nat) (low high : UInt8) : List UInt8 → List UInt8
  | [] => []
  | b :: bs =>
    match count with
    | 0 => []
    | count + 1 =>
      if low ≤ b ∧ b ≤ high then b :: followers count 0x80 0xBF bs else []

/-- The number written by a complete character. -/
def scalar : List UInt8 → Nat
  | [a] => a.toNat
  | [a, b] => (a.toNat - 0xC0) * 64 + (b.toNat - 0x80)
  | [a, b, c] => ((a.toNat - 0xE0) * 64 + (b.toNat - 0x80)) * 64 + (c.toNat - 0x80)
  | [a, b, c, d] =>
    (((a.toNat - 0xF0) * 64 + (b.toNat - 0x80)) * 64 + (c.toNat - 0x80)) * 64 + (d.toNat - 0x80)
  | _ => 0xFFFD

/-- Reads characters from bytes; each step consumes at least one of them. -/
def lenientChars : Nat → List UInt8 → List Char
  | 0, _ => []
  | _, [] => []
  | fuel + 1, b :: bs =>
    match leadByte b with
    | none => replacement :: lenientChars fuel bs
    | some (size, low, high) =>
      let rest := followers (size - 1) low high bs
      let c := if rest.length + 1 = size then Char.ofNat (scalar (b :: rest)) else replacement
      c :: lenientChars fuel (bs.drop rest.length)

/-- The text that the bytes show as. -/
def ofBytesLenient (bs : List UInt8) : String :=
  match ofBytes? bs with
  | some s => s
  | none => String.ofList (lenientChars bs.length bs)

end VersionedTopology.Text
