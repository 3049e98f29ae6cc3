/-
  VersionedTopology.Trace.Filter

  Which lines of the log are written.

  A filter is a list of directives. A directive names the beginning of a path and
  the least serious level that is written for it; without a path it is meant for
  everything. Of the directives that fit a line the one with the longest path
  decides, and of equal ones the last. A line that none fits is not written.
-/

import VersionedTopology.Text.Blank
import VersionedTopology.Text.Unsigned
import VersionedTopology.Trace.Entry

namespace VersionedTopology.Trace

/-- The lines up to a level of the paths with a beginning; without a level, none of them. -/
structure Directive where
  stem : String := ""
  upTo : Option Level
deriving DecidableEq, Repr, Inhabited

/-- Directives in the order they were given. -/
abbrev Filter := List Directive

/-- The levels that numbers stand for; zero turns off. -/
def levelOfNumber? : Nat → Option (Option Level)
  | 0 => some none
  | 1 => some (some .error)
  | 2 => some (some .warn)
  | 3 => some (some .info)
  | 4 => some (some .debug)
  | 5 => some (some .trace)
  | _ => none

/-- A level as it may be written, as a number or in letters of either case. -/
def levelOfWord? (word : String) : Option (Option Level) :=
  match Text.readUnsigned Text.max64 word with
  | .ok n => levelOfNumber? n
  | .error _ =>
    match word.toLower with
    | "off" => some none
    | "error" => some (some .error)
    | "warn" => some (some .warn)
    | "info" => some (some .info)
    | "debug" => some (some .debug)
    | "trace" => some (some .trace)
    | _ => none

namespace Directive

/-- Whether a directive may begin with a character. -/
def canBegin (c : Char) : Bool := c = '-' || c = ':' || c = '_' || c.isAlphanum

/-- Reads a level, a path, or a path with a level. A path alone is written at every level. -/
def ofText? (item : String) : Option Directive :=
  let item := Text.trim item
  match item.toList with
  | [] => none
  | first :: _ =>
    if !canBegin first || item.toList.contains '[' then none
    else
      match (Text.split '=' item.toList).map String.ofList with
      | [word] =>
        match levelOfWord? word with
        | some upTo => some { upTo }
        | none => some { stem := word, upTo := some .trace }
      | [stem, ""] => some { stem, upTo := some .trace }
      | [stem, word] => (levelOfWord? word).map fun upTo => { stem, upTo }
      | _ => none

/-- Whether a directive is meant for a path. -/
def fits (d : Directive) (path : String) : Bool := path.startsWith d.stem

/-- Whether a directive writes lines of a level. -/
def writes (d : Directive) (l : Level) : Bool := d.upTo.any fun upTo => l.rank ≤ upTo.rank

end Directive

namespace Filter

/-- Reads directives separated by commas. An empty text stands for errors only. -/
def ofText? (text : String) : Option Filter :=
  if text.isEmpty then some [{ upTo := some .error }]
  else ((Text.split ',' text.toList).map String.ofList).mapM Directive.ofText?

/-- The filter that holds when none is given. -/
def standard (verbose : Bool) : Filter :=
  [{ stem := "archsync", upTo := some (if verbose then .debug else .info) }]

/-- The directive that decides about a path. -/
def deciding (f : Filter) (path : String) : Option Directive :=
  f.foldl (fun best d =>
    if !d.fits path then best
    else
      match best with
      | none => some d
      | some b => if b.stem.length ≤ d.stem.length then some d else some b) none

/-- Whether a line is written. -/
def allows (f : Filter) (e : Entry) : Bool :=
  (f.deciding e.origin.path).any fun d => d.writes e.level

end Filter

end VersionedTopology.Trace
