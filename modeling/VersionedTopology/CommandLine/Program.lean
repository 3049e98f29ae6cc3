/-
  VersionedTopology.CommandLine.Program

  The program as a process: its words and environment variables in, its output,
  messages and exit code out.

  Messages are written beside the results, so that results stay readable by other
  programs. Which of the logged ones are written is for the filter in the
  environment to say, or else for the standard one.
-/

import VersionedTopology.CommandLine.Execute
import VersionedTopology.Trace.Filter

namespace VersionedTopology.CommandLine

/-- What is told when no command is run. -/
def Rejection.text : Rejection → String
  | help | helpForNothing =>
    "Usage: archsync [OPTIONS] <COMMAND>\n\nCommands: " ++
      ", ".intercalate (Verb.all.map Verb.word) ++ ", help\nOptions: " ++
      ", ".intercalate (Key.common.map fun k => "--" ++ k.long) ++ ", --help, --version"
  | version => "archsync " ++ programVersion
  | missingCommand => "error: a subcommand is required"
  | unknownCommand => "error: unrecognized subcommand"
  | unknownArgument => "error: unexpected argument"
  | missingArgument => "error: a required argument was not provided"
  | missingValue => "error: a value is required"
  | badValue => "error: invalid value"
  | surplusValue => "error: unexpected value"
  | repeated => "error: an argument cannot be used multiple times"

/-- Whether what is told is what was asked for. -/
def Rejection.isAnswer : Rejection → Bool
  | help | version => true
  | _ => false

/-- What a process leaves behind. -/
structure Exit where
  code : Nat
  printed : String := ""
  messages : List Message := []
  /-- The log is written as JSON objects. -/
  jsonLog : Bool := false
deriving Inhabited

/-- The filter of a process. -/
def filterOf (env : Variables) (verbose : Bool) : Trace.Filter :=
  ((env.lookup "RUST_LOG").bind Trace.Filter.ofText?).getD (Trace.Filter.standard verbose)

/-- The messages that are written. -/
def written (f : Trace.Filter) (ms : List Message) : List Message :=
  ms.filter fun
    | .told _ => true
    | .logged e => f.allows e

/-- The end of a process that has run a command. -/
def Exit.ofRun (i : Invocation) (env : Variables) (result : Except Error Ending)
    (s : Session) : Exit :=
  let (code, last) :=
    match result with
    | .ok _ => (0, [])
    | .error e => (1, [Message.logged ⟨.error, .program, "Error: " ++ e.text⟩])
  { code
    printed := s.printed
    messages := written (filterOf env i.verbose) (s.messages ++ last)
    jsonLog := env.lookup "ARCHSYNC_LOG_FORMAT" = some "json" }

/-- Runs the program. -/
def runProgram (words : List String) (files : Files) (env : Variables)
    (network : Http.Network) : Exit :=
  match Invocation.ofWords words with
  | .error r =>
    if r.isAnswer then { code := 0, printed := lines [r.text] }
    else { code := 2, messages := [.told r.text] }
  | .ok i =>
    let (result, s) := ((i.execute files env).run).run { network }
    Exit.ofRun i env result s

/-- A message as it is written. -/
def Message.text (jsonLog : Bool) : Message → String
  | told line => line
  | logged e => if jsonLog then e.toJson.compact else e.text

end VersionedTopology.CommandLine
