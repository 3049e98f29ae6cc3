/-
  VersionedTopology.Json.Printer

  The two written forms of a JSON value: compact, and indented by two spaces.

  Strings escape the quote, the backslash and the controls below U+0020; five
  controls have a letter, the others four lower case hexadecimal digits. All
  other characters stand for themselves.
-/

import VersionedTopology.Json.Basic

namespace VersionedTopology.Json

/-- The character of a hexadecimal digit, in lower case. -/
def hexDigit (n : Nat) : Char := "0123456789abcdef".toList.getD n '0'

/-- The escape of a character inside quotes. -/
def escape (c : Char) : List Char :=
  if c = '"' then ['\\', '"']
  else if c = '\\' then ['\\', '\\']
  else if c = '\n' then ['\\', 'n']
  else if c = '\r' then ['\\', 'r']
  else if c = '\t' then ['\\', 't']
  else if c.toNat = 8 then ['\\', 'b']
  else if c.toNat = 12 then ['\\', 'f']
  else if c.toNat < 32 then
    ['\\', 'u', '0', '0', hexDigit (c.toNat / 16), hexDigit (c.toNat % 16)]
  else [c]

/-- A string in quotes. -/
def quote (s : String) : String :=
  if s.any (fun c => c = '"' || c = '\\' || c.toNat < 32) then
    "\"" ++ String.ofList (s.toList.flatMap escape) ++ "\""
  else "\"" ++ s ++ "\""

mutual

/-- The form without any blank. -/
def compact : Json → String
  | .null => "null"
  | .bool b => if b then "true" else "false"
  | .number n => n.text
  | .string s => quote s
  | .array items => "[" ++ compactItems items ++ "]"
  | .object members => "\x7b" ++ compactMembers members ++ "\x7d"

def compactItems : List Json → String
  | [] => ""
  | [x] => compact x
  | x :: xs => compact x ++ "," ++ compactItems xs

def compactMembers : List (String × Json) → String
  | [] => ""
  | [(k, v)] => quote k ++ ":" ++ compact v
  | (k, v) :: rest => quote k ++ ":" ++ compact v ++ "," ++ compactMembers rest

end

/-- A new line, indented. -/
def newline (depth : Nat) : String := "\n" ++ "".pushn ' ' (2 * depth)

mutual

/-- The form with one item or member a line; `depth` counts the enclosing brackets. Empty brackets
stay together. -/
def indented (depth : Nat) : Json → String
  | .array [] => "[]"
  | .array (x :: xs) =>
    "[" ++ newline (depth + 1) ++ indented (depth + 1) x ++ indentedItems (depth + 1) xs ++
      newline depth ++ "]"
  | .object [] => "\x7b\x7d"
  | .object ((k, v) :: rest) =>
    "\x7b" ++ newline (depth + 1) ++ quote k ++ ": " ++ indented (depth + 1) v ++
      indentedMembers (depth + 1) rest ++ newline depth ++ "\x7d"
  | .null => "null"
  | .bool b => if b then "true" else "false"
  | .number n => n.text
  | .string s => quote s

def indentedItems (depth : Nat) : List Json → String
  | [] => ""
  | x :: xs => "," ++ newline depth ++ indented depth x ++ indentedItems depth xs

def indentedMembers (depth : Nat) : List (String × Json) → String
  | [] => ""
  | (k, v) :: rest =>
    "," ++ newline depth ++ quote k ++ ": " ++ indented depth v ++ indentedMembers depth rest

end

/-- The indented form of a whole document. -/
def pretty (j : Json) : String := indented 0 j

end VersionedTopology.Json
