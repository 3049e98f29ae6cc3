/-
  VersionedTopology.CommandLine.Scan

  Reading the words of a command line.

  Words are read from left to right. A key with a value takes the rest of its
  word, or the next word, which must not look like a key itself. A value is only
  checked when the word after it is read, so a key that is not known is told
  before a value that does not parse. Behind a lone double dash every word is a
  value. A command hands all following words to its own level.
-/

import VersionedTopology.CommandLine.Grammar
import VersionedTopology.Text.Unsigned

namespace VersionedTopology.CommandLine

/-- What was given with a key. -/
inductive Value where
  | present
  | text (s : String)
  | number (n : Nat)
deriving DecidableEq, Repr, Inhabited

/-- The keys that were given, the last one first. -/
abbrev Found := List (Key × Value)

/-! ## Values -/

/-- A port, which may have either sign as long as it is in range. -/
def readPort (s : String) : Except Text.NumberFault Nat :=
  match s.toList with
  | ['-'] => .error .invalidDigit
  | '-' :: digits => Text.readDigits 0 0 digits
  | _ => Text.readUnsigned Text.max16 s

/-- Checks the value of a key. -/
def Key.read (k : Key) (s : String) : Except Rejection Value :=
  let number (n : Except Text.NumberFault Nat) : Except Rejection Value :=
    match n with
    | .ok n => .ok (.number n)
    | .error _ => .error .badValue
  match k.shape with
  | .switch => .error .surplusValue
  | .text => .ok (.text s)
  | .path => if s.isEmpty then .error .missingValue else .ok (.text s)
  | .port => number (readPort s)
  | .number => number (Text.readUnsigned Text.max64 s)

/-! ## The state of a scan -/

/-- What a level has read so far. -/
structure Scan where
  found : Found := []
  /-- A key whose value has not come yet, or has not been checked yet. -/
  pending : Option (Key × Option String) := none
  /-- Behind a lone double dash. -/
  trailing : Bool := false
deriving DecidableEq, Repr, Inhabited

namespace Scan

def has (s : Scan) (k : Key) : Bool := (s.found.lookup k).isSome

/-- Notes a key, unless it was given before or its value does not parse. -/
def note (s : Scan) (k : Key) (v : Except Rejection Value) : Except Rejection Scan :=
  if s.has k then .error .repeated
  else
    match v with
    | .error r => .error r
    | .ok v => .ok { s with found := (k, v) :: s.found }

/-- Checks the value that is pending. -/
def settle (s : Scan) : Except Rejection Scan :=
  match s.pending with
  | none => .ok s
  | some (_, none) => .error .missingValue
  | some (k, some value) => { s with pending := none }.note k (k.read value)

/-- The key that takes the next word, if that is a plain one. -/
def awaiting (s : Scan) : Option Key :=
  match s.pending with
  | some (k, none) => if s.trailing then none else some k
  | _ => none

/-- Takes a switch. -/
def switch (s : Scan) (k : Key) : Except Rejection Scan := do
  let s ← s.settle
  s.note k (.ok .present)

/-- Takes a key whose value is to come. -/
def await (s : Scan) (k : Key) : Except Rejection Scan := do
  let s ← s.settle
  .ok { s with pending := some (k, none) }

/-- Takes a key with a value that stands in the same word. -/
def attach (s : Scan) (k : Key) (value : String) : Except Rejection Scan := do
  let s ← s.settle
  s.note k (k.read value)

/-- Ends with a rejection, unless there is a problem with what came before. -/
def finish (s : Scan) (r : Rejection) : Except Rejection Scan := do
  let _ ← s.settle
  .error r

end Scan

/-! ## Words -/

/-- A word as its place makes it read. -/
inductive Word where
  | command (verb : Verb)
  | help
  /-- A lone double dash. -/
  | divider
  | long (name : String) (value : Option String)
  | letters (cs : List Char)
  | plain
deriving DecidableEq, Repr, Inhabited

/-- The parts of a word around its first equals sign. -/
def splitAtEquals : List Char → List Char × Option (List Char)
  | [] => ([], none)
  | '=' :: cs => ([], some cs)
  | c :: cs =>
    let (name, value) := splitAtEquals cs
    (c :: name, value)

/-- Reads a word that is no command. -/
def Word.ofText (word : String) : Word :=
  match word.toList with
  | ['-', '-'] => .divider
  | '-' :: '-' :: cs =>
    let (name, value) := splitAtEquals cs
    .long (String.ofList name) (value.map String.ofList)
  | '-' :: c :: cs => .letters (c :: cs)
  | _ => .plain

/-- Reads a word where it stands. -/
def Level.wordAt (l : Level) (s : Scan) (word : String) : Word :=
  if s.trailing then .plain
  else if s.awaiting.isSome then .ofText word
  else if l.isHelp word then .help
  else
    match l.verb? word with
    | some v => .command v
    | none => .ofText word

/-! ## Taking words -/

/-- Takes a word with two dashes. -/
def Level.takeLong (l : Level) (s : Scan) (name : String) (value : Option String) :
    Except Rejection Scan :=
  match l.long? name, value with
  | none, _ => .error .unknownArgument
  | some .help, none => s.finish .help
  | some .version, none => s.finish .version
  | some (.key k), none => if k.shape = .switch then s.switch k else s.await k
  | some (.key k), some value =>
    if k.shape = .switch then .error .surplusValue else s.attach k value
  | some _, some _ => .error .surplusValue

/-- Takes letters behind one dash. A key with a value takes the rest, without an equals sign. -/
def Level.takeLetters (l : Level) (s : Scan) : List Char → Except Rejection Scan
  | [] => .ok s
  | c :: cs =>
    match l.short? c with
    | none => .error .unknownArgument
    | some .help => s.finish .help
    | some .version => s.finish .version
    | some (.key k) =>
      if k.shape = .switch then
        match s.switch k with
        | .error r => .error r
        | .ok s => takeLetters l s cs
      else
        match cs with
        | [] => s.await k
        | '=' :: value => s.attach k (String.ofList value)
        | value => s.attach k (String.ofList value)

/-- Takes a word without a dash. -/
def Level.takePlain (l : Level) (s : Scan) (word : String) : Except Rejection Scan :=
  match s.awaiting with
  | some k => .ok { s with pending := some (k, some word) }
  | none =>
    match l.positional with
    | some k =>
      if s.has k || s.pending.any (fun p => p.1 = k) then .error .unknownArgument
      else do
        let s ← s.settle
        .ok { s with pending := some (k, some word) }
    | none =>
      if l = .outer && !(s.trailing && (l.isHelp word || (l.verb? word).isSome)) then
        .error .unknownCommand
      else .error .unknownArgument

/-- What help is asked for: a command, or the help itself. -/
def helpFor : List String → Rejection
  | [] => .help
  | [topic] => if topic = "help" || (Verb.ofWord? topic).isSome then .help else .unknownCommand
  | _ => .unknownCommand

/-- Reads the words of a level up to a command, which is given back with the words behind it. -/
def Level.scan (l : Level) :
    Scan → List String → Except Rejection (Scan × Option (Verb × List String))
  | s, [] => .ok (s, none)
  | s, word :: rest =>
    let goOn (s : Except Rejection Scan) :
        Except Rejection (Scan × Option (Verb × List String)) :=
      match s with
      | .error r => .error r
      | .ok s => scan l s rest
    match l.wordAt s word with
    | .command v => .ok (s, some (v, rest))
    | .help => .error (helpFor rest)
    | .divider => goOn (.ok { s with trailing := true })
    | .long name value => goOn (l.takeLong s name value)
    | .letters cs => goOn (l.takeLetters s cs)
    | .plain => goOn (l.takePlain s word)

end VersionedTopology.CommandLine
