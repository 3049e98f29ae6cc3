/-
  VersionedTopology.CommandLine.Invocation

  What a command line asks for.

  The keys before a command and the keys behind it are read separately, so one
  key may be given in both places; the one behind the command counts. Problems
  behind the command are told before problems with the value in front of it.
-/

import VersionedTopology.CommandLine.Scan

namespace VersionedTopology.CommandLine

/-- A command with everything it needs. -/
inductive Command where
  /-- Runs the development server. -/
  | serve (host : Option String) (port : Option Nat) (seed : Option String)
  /-- Prints a version. -/
  | print (version : Option VersionNumber)
  /-- Applies a file of constraints. -/
  | apply (file : String) (force : Bool)
  /-- Goes to a neighbour of a version, and makes it current on the server when told so. -/
  | step (direction : Direction) (version : Option VersionNumber) (select : Bool)
  /-- Makes a version current on the server. -/
  | select (version : VersionNumber)
  | diff (source target : String)
  | inSync (source target : String)
  | constraints
deriving DecidableEq, Repr, Inhabited

/-- The environment that is meant when none is named. -/
def defaultEnvironment : String := "default"

/-- A command, and what holds for all commands. -/
structure Invocation where
  verbose : Bool := false
  quiet : Bool := false
  jsonMode : Bool := false
  config : Option String := none
  url : Option String := none
  apiKey : Option String := none
  architecture : Option String := none
  environment : String := defaultEnvironment
  command : Command
deriving DecidableEq, Repr, Inhabited

namespace Found

def has (f : Found) (k : Key) : Bool := (f.lookup k).isSome

def text? (f : Found) (k : Key) : Option String :=
  match f.lookup k with
  | some (.text s) => some s
  | _ => none

def number? (f : Found) (k : Key) : Option Nat :=
  match f.lookup k with
  | some (.number n) => some n
  | _ => none

end Found

/-- What has to be given. -/
def required (a : Option α) : Except Rejection α :=
  match a with
  | some a => .ok a
  | none => .error .missingArgument

/-- The command of a verb with the keys behind it. -/
def Verb.command (f : Found) : Verb → Except Rejection Command
  | serve => .ok (.serve (f.text? .host) (f.number? .port) (f.text? .seed))
  | print => .ok (.print (f.number? .version))
  | apply => do .ok (.apply (← required (f.text? .file)) (f.has .force))
  | step d => .ok (.step d (f.number? .version) (f.has .select))
  | select => do .ok (.select (← required (f.number? .version)))
  | diff => do .ok (.diff (← required (f.text? .source)) (← required (f.text? .target)))
  | inSync => do .ok (.inSync (← required (f.text? .source)) (← required (f.text? .target)))
  | constraints => .ok .constraints

namespace Invocation

/-- A command with the keys that hold for all commands. -/
def ofFound (f : Found) (command : Command) : Invocation :=
  { verbose := f.has .verbose
    quiet := f.has .quiet
    jsonMode := f.has .jsonMode
    config := f.text? .config
    url := f.text? .url
    apiKey := f.text? .apiKey
    architecture := f.text? .architecture
    environment := (f.text? .environment).getD defaultEnvironment
    command }

/-- Reads the words of a command line. -/
def ofWords (words : List String) : Except Rejection Invocation := do
  let (outer, next) ← Level.outer.scan {} words
  match next with
  | none =>
    let outer ← outer.settle
    .error (if outer.found.isEmpty then .helpForNothing else .missingCommand)
  | some (verb, rest) =>
    let (inner, _) ← (Level.inner verb).scan {} rest
    let inner ← inner.settle
    let command ← verb.command inner.found
    let outer ← outer.settle
    .ok (ofFound (inner.found ++ outer.found) command)

end Invocation

end VersionedTopology.CommandLine
