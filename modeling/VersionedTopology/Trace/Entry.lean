/-
  VersionedTopology.Trace.Entry

  Lines of the log.

  A line says how serious it is, which part of the program it comes from, and what
  happened. It is written as text, or as a JSON object. Text may end up on a
  terminal, so the characters that a terminal could take for orders are written
  out there.
-/

import VersionedTopology.Json.Printer

namespace VersionedTopology.Trace

/-- How serious a line is, the most serious first. -/
inductive Level where
  | error
  | warn
  | info
  | debug
  | trace
deriving DecidableEq, Repr, Inhabited

namespace Level

/-- Greater for less serious lines. -/
def rank : Level → Nat
  | error => 1
  | warn => 2
  | info => 3
  | debug => 4
  | trace => 5

def text : Level → String
  | error => "ERROR"
  | warn => "WARN"
  | info => "INFO"
  | debug => "DEBUG"
  | trace => "TRACE"

end Level

/-- The part of the program that a line comes from. -/
inductive Origin where
  | program
  | settings
  | commands
  | server
  | workspace
deriving DecidableEq, Repr, Inhabited

/-- The path by which filters select an origin. -/
def Origin.path : Origin → String
  | program => "archsync"
  | settings => "archsync::config"
  | commands => "archsync::cli::commands"
  | server => "archsync::api"
  | workspace => "archsync_core::workspace"

/-- A line of the log. -/
structure Entry where
  level : Level
  origin : Origin
  message : String
deriving DecidableEq, Repr, Inhabited

/-- A character as it is written to a terminal. -/
def terminalChar (c : Char) : List Char :=
  let code := c.toNat
  if code = 7 ∨ code = 8 ∨ code = 12 ∨ code = 27 ∨ code = 127 then
    ['\\', 'x', Json.hexDigit (code / 16), Json.hexDigit (code % 16)]
  else if 128 ≤ code ∧ code ≤ 159 then
    ['\\', 'u', '\x7b', Json.hexDigit (code / 16), Json.hexDigit (code % 16), '\x7d']
  else [c]

namespace Entry

/-- The line as text. -/
def text (e : Entry) : String :=
  e.level.text ++ " " ++ e.origin.path ++ ": " ++
    String.ofList (e.message.toList.flatMap terminalChar)

/-- The line as a JSON object. -/
def toJson (e : Entry) : Json :=
  .object [("level", .string e.level.text), ("fields", .object [("message", .string e.message)]),
    ("target", .string e.origin.path)]

end Entry

end VersionedTopology.Trace
