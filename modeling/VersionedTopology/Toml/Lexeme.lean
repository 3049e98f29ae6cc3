/-
  VersionedTopology.Toml.Lexeme

  The smallest parts of a TOML text: blanks, comments, strings, keys and
  integers.

  A reader takes the characters that are left and gives what it read together
  with the characters after it, or `none` when the text is malformed there.
-/

import VersionedTopology.Json.Document

namespace VersionedTopology.Toml

/-- Reads one part of a text. -/
abbrev Reader (α : Type) := List Char → Option (α × List Char)

/-! ## Blanks and comments -/

def isSpace (c : Char) : Bool := c = ' ' || c = '\t'

def skipSpaces (cs : List Char) : List Char := cs.dropWhile isSpace

/-- Controls that stand nowhere but between lines; a tab is none of them. -/
def isControl (c : Char) : Bool := (c.toNat < 32 && c ≠ '\t') || c.toNat = 127

/-- The rest of a comment up to the end of its line. -/
def skipComment : List Char → Option (List Char)
  | [] => some []
  | '\n' :: cs => some ('\n' :: cs)
  | '\r' :: '\n' :: cs => some ('\n' :: cs)
  | c :: cs => if isControl c then none else skipComment cs

/-- The end of a line: blanks, perhaps a comment, and a line break or the end of the text. -/
def endLine (cs : List Char) : Option (List Char) :=
  let rest :=
    match skipSpaces cs with
    | '#' :: cs => skipComment cs
    | cs => some cs
  match rest with
  | some [] => some []
  | some ('\n' :: cs) => some cs
  | some ('\r' :: '\n' :: cs) => some cs
  | _ => none

/-- Skips blanks, comments and line breaks; `fuel` bounds their number. -/
def skipLines : Nat → List Char → Option (List Char)
  | 0, cs => some cs
  | fuel + 1, cs =>
    match skipSpaces cs with
    | '\n' :: cs => skipLines fuel cs
    | '\r' :: '\n' :: cs => skipLines fuel cs
    | '#' :: cs => (skipComment cs).bind (skipLines fuel)
    | cs => some cs

/-- Skips all blanks, comments and line breaks. -/
def skipAll (cs : List Char) : Option (List Char) := skipLines (cs.length + 1) cs

/-! ## Strings -/

/-- The number written by some hexadecimal digits. -/
def hexNumber (cs : List Char) : Option Nat :=
  cs.foldl (fun n c => do return 16 * (← n) + (← Document.hexValue c)) (some 0)

/-- A character written by its number in a fixed count of hexadecimal digits. -/
def numbered (count : Nat) : Reader Char := fun cs => do
  let digits := cs.take count
  if digits.length < count then none
  else
    let n ← hexNumber digits
    if n.isValidChar then some (Char.ofNat n, cs.drop count) else none

/-- The character of an escape, after the backslash. -/
def escape : Reader Char
  | 'b' :: cs => some (Char.ofNat 8, cs)
  | 't' :: cs => some ('\t', cs)
  | 'n' :: cs => some ('\n', cs)
  | 'f' :: cs => some (Char.ofNat 12, cs)
  | 'r' :: cs => some ('\r', cs)
  | 'e' :: cs => some (Char.ofNat 27, cs)
  | '"' :: cs => some ('"', cs)
  | '\\' :: cs => some ('\\', cs)
  | 'x' :: cs => numbered 2 cs
  | 'u' :: cs => numbered 4 cs
  | 'U' :: cs => numbered 8 cs
  | _ => none

/-- Reads up to a closing quote on the same line; `written` holds the characters so far, last
first. -/
def basicString : Nat → List Char → Reader String
  | 0, _, _ => none
  | _ + 1, written, '"' :: cs => some (String.ofList written.reverse, cs)
  | fuel + 1, written, '\\' :: cs => do
    let (c, cs) ← escape cs
    basicString fuel (c :: written) cs
  | fuel + 1, written, c :: cs => if isControl c then none else basicString fuel (c :: written) cs
  | _, _, [] => none

def literalString : List Char → Reader String
  | _, [] => none
  | written, c :: cs =>
    if c.toNat = 39 then some (String.ofList written.reverse, cs)
    else if isControl c then none
    else literalString (c :: written) cs

/-- A line break right after the opening quotes does not count. -/
def skipFirstBreak : List Char → List Char
  | '\n' :: cs => cs
  | '\r' :: '\n' :: cs => cs
  | cs => cs

/-- Characters that are blanks or line breaks. -/
def isGap (c : Char) : Bool := isSpace c || c = '\n' || c = '\r'

/-- The text after a backslash that ends its line. -/
def foldedLine (cs : List Char) : Option (List Char) :=
  match skipSpaces cs with
  | '\n' :: cs => some (cs.dropWhile isGap)
  | '\r' :: '\n' :: cs => some (cs.dropWhile isGap)
  | _ => none

/-- Reads up to three quotes of a kind. Up to two more of them right before the closing ones belong
to the string. -/
def multiline (quote : Char) : Nat → List Char → Reader String
  | 0, _, _ => none
  | fuel + 1, written, cs =>
    let quotes := (cs.take 5).takeWhile (· = quote)
    if 3 ≤ quotes.length then
      some (String.ofList (quotes.drop 3 ++ written).reverse, cs.drop quotes.length)
    else
      match cs with
      | [] => none
      | '\r' :: '\n' :: cs => multiline quote fuel ('\n' :: '\r' :: written) cs
      | '\n' :: cs => multiline quote fuel ('\n' :: written) cs
      | c :: cs =>
        if c = '\\' && quote = '"' then
          match foldedLine cs with
          | some cs => multiline quote fuel written cs
          | none =>
            match escape cs with
            | some (c, cs) => multiline quote fuel (c :: written) cs
            | none => none
        else if isControl c then none
        else multiline quote fuel (c :: written) cs

/-- The single quote. -/
def single : Char := Char.ofNat 39

/-- A string on one line. -/
def lineString : Reader String
  | [] => none
  | c :: cs =>
    if c = '"' then basicString (cs.length + 1) [] cs
    else if c = single then literalString [] cs
    else none

/-- A string of any of the four kinds. -/
def string : Reader String := fun cs =>
  match cs with
  | a :: b :: c :: rest =>
    if a = b && b = c && (a = '"' || a = single) then
      let rest := skipFirstBreak rest
      multiline a (rest.length + 1) [] rest
    else lineString cs
  | cs => lineString cs

/-! ## Keys -/

def isBareKeyChar (c : Char) : Bool := c.isAlphanum || c = '_' || c = '-'

/-- One part of a key. -/
def simpleKey : Reader String := fun cs =>
  match cs with
  | [] => none
  | c :: _ =>
    if c = '"' || c = single then lineString cs
    else
      let name := cs.takeWhile isBareKeyChar
      if name.isEmpty then none else some (String.ofList name, cs.drop name.length)

/-- The parts of a key, which dots separate. -/
def key : Nat → Reader (List String)
  | 0, _ => none
  | fuel + 1, cs => do
    let (part, cs) ← simpleKey (skipSpaces cs)
    match skipSpaces cs with
    | '.' :: cs =>
      let (parts, cs) ← key fuel cs
      some (part :: parts, cs)
    | cs => some ([part], cs)

/-! ## Integers -/

/-- The digits of a number without the underscores, each of which stands between two digits. -/
def digitsOf (isDigit : Char → Bool) : List Char → Option (List Char)
  | [] => none
  | [c] => if isDigit c then some [c] else none
  | c :: '_' :: d :: cs =>
    if isDigit c && isDigit d then (digitsOf isDigit (d :: cs)).map (c :: ·) else none
  | c :: cs => if isDigit c then (digitsOf isDigit cs).map (c :: ·) else none

/-- The value of digits to a base. -/
def valueOf (base : Nat) (cs : List Char) : Nat :=
  cs.foldl (fun n c => base * n + (Document.hexValue c).getD 0) 0

/-- A decimal number without sign; only zero itself starts with a zero. -/
def decimal (cs : List Char) : Option Nat := do
  let digits ← digitsOf Char.isDigit cs
  match digits with
  | '0' :: _ :: _ => none
  | _ => some (valueOf 10 digits)

/-- An integer: decimal with an optional sign, or to base 16, 8 or 2 after its mark. -/
def integer? (cs : List Char) : Option Int :=
  let marked (base : Nat) (isDigit : Char → Bool) (cs : List Char) : Option Int :=
    (digitsOf isDigit cs).map fun ds => valueOf base ds
  match cs with
  | '+' :: cs => (decimal cs).map fun n => n
  | '-' :: cs => (decimal cs).map fun n => -n
  | '0' :: 'x' :: cs => marked 16 (fun c => (Document.hexValue c).isSome) cs
  | '0' :: 'o' :: cs => marked 8 (fun c => '0' ≤ c && c ≤ '7') cs
  | '0' :: 'b' :: cs => marked 2 (fun c => c = '0' || c = '1') cs
  | cs => (decimal cs).map fun n => n

/-- Characters of words and numbers. -/
def isWordChar (c : Char) : Bool :=
  c.isAlphanum || c = '_' || c = '+' || c = '-' || c = '.' || c = ':'

end VersionedTopology.Toml
