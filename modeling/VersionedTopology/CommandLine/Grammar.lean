/-
  VersionedTopology.CommandLine.Grammar

  The words of the command line.

  There are nine commands. Each takes keys: switches, options with a value, and
  in one case a value without a name. Some keys may stand before the command as
  well as behind it. This module only tells which word means what where.
-/

import VersionedTopology.History.Pointers

namespace VersionedTopology.CommandLine

/-- The commands. -/
inductive Verb where
  | serve
  | print
  | apply
  | step (direction : Direction)
  | select
  | diff
  | inSync
  | constraints
deriving DecidableEq, Repr, Inhabited

/-- Everything that can be given besides a command. -/
inductive Key where
  | verbose
  | quiet
  | jsonMode
  | config
  | url
  | apiKey
  | architecture
  | environment
  | host
  | port
  | seed
  | version
  | file
  | force
  | select
  | source
  | target
deriving DecidableEq, Repr, Inhabited

/-- What has to be given with a key. -/
inductive Shape where
  /-- Nothing: the key is a switch. -/
  | switch
  /-- Any text. -/
  | text
  /-- A path, which is not empty. -/
  | path
  | port
  | number
deriving DecidableEq, Repr, Inhabited

/-- Why a command line is refused, or answered without running a command. -/
inductive Rejection where
  | help
  | version
  /-- Nothing at all was given. -/
  | helpForNothing
  | missingCommand
  | unknownCommand
  /-- A word that is known nowhere, or not here. -/
  | unknownArgument
  | missingArgument
  /-- A key without its value. -/
  | missingValue
  /-- A value that does not parse. -/
  | badValue
  /-- A value for a switch. -/
  | surplusValue
  /-- A key that was given twice. -/
  | repeated
deriving DecidableEq, Repr, Inhabited

/-- Where a word stands: before the command, or behind it. -/
inductive Level where
  | outer
  | inner (verb : Verb)
deriving DecidableEq, Repr, Inhabited

/-- What a word that begins with a dash means. -/
inductive Mark where
  | key (k : Key)
  | help
  | version
deriving DecidableEq, Repr, Inhabited

/-! ## Commands -/

namespace Verb

def all : List Verb :=
  [serve, print, apply, step .previous, step .next, select, diff, inSync, constraints]

def word : Verb → String
  | serve => "serve"
  | print => "show"
  | apply => "apply"
  | step .previous => "previous"
  | step .next => "next"
  | select => "select"
  | diff => "diff"
  | inSync => "insync"
  | constraints => "constraints"

def ofWord? (s : String) : Option Verb := all.find? fun v => v.word = s

/-- The keys that only this command takes by name. -/
def keys : Verb → List Key
  | serve => [.host, .port, .seed]
  | print => [.version]
  | apply => [.file, .force]
  | step _ => [.version, .select]
  | select => []
  | diff => [.source, .target]
  | inSync => [.source, .target]
  | constraints => []

/-- The key whose value this command takes without a name. -/
def positional : Verb → Option Key
  | select => some .version
  | _ => none

end Verb

/-! ## Keys -/

namespace Key

/-- The keys that every command takes, and that may stand before it. -/
def common : List Key :=
  [verbose, quiet, jsonMode, config, url, apiKey, architecture, environment]

def long : Key → String
  | verbose => "verbose"
  | quiet => "quiet"
  | jsonMode => "json-mode"
  | config => "config"
  | url => "url"
  | apiKey => "api-key"
  | architecture => "architecture"
  | environment => "environment"
  | host => "host"
  | port => "port"
  | seed => "seed"
  | version => "version"
  | file => "file"
  | force => "force"
  | select => "select"
  | source => "source"
  | target => "target"

def short : Key → Option Char
  | verbose => some 'v'
  | quiet => some 'q'
  | config => some 'c'
  | architecture => some 'a'
  | environment => some 'e'
  | host => some 'H'
  | port => some 'p'
  | file => some 'f'
  | source => some 's'
  | target => some 't'
  | _ => none

def shape : Key → Shape
  | verbose | quiet | jsonMode | force | select => .switch
  | config | seed | file => .path
  | port => .port
  | version => .number
  | url | apiKey | architecture | environment | host | source | target => .text

end Key

/-! ## Levels -/

namespace Level

/-- The keys that can be given by name. -/
def keys : Level → List Key
  | outer => Key.common
  | inner v => v.keys ++ Key.common

/-- The key whose value can be given without a name. -/
def positional : Level → Option Key
  | outer => none
  | inner v => v.positional

/-- The command that a word names. Behind a command there is none. -/
def verb? (l : Level) (s : String) : Option Verb :=
  match l with
  | outer => Verb.ofWord? s
  | inner _ => none

/-- Whether a word asks for help as a command does. -/
def isHelp (l : Level) (s : String) : Bool := l = outer && s = "help"

/-- The meaning of a name behind two dashes. -/
def long? (l : Level) (name : String) : Option Mark :=
  if name = "help" then some .help
  else if l = outer && name = "version" then some .version
  else (l.keys.find? fun k => k.long = name).map .key

/-- The meaning of a letter behind one dash. -/
def short? (l : Level) (c : Char) : Option Mark :=
  if c = 'h' then some .help
  else if l = outer && c = 'V' then some .version
  else (l.keys.find? fun k => k.short = some c).map .key

end Level

end VersionedTopology.CommandLine
