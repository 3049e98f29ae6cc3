/-
  VersionedTopology.CommandLine.Files

  The files that a command reads.

  A path leads to a directory, to a file, or nowhere, and then it tells why. The
  paths of a listing are followed from the working directory step by step, so
  that a step out of a directory needs that directory, and no step leads out of
  a file. Nothing is known of what lies above the working directory.
-/

import VersionedTopology.Error
import VersionedTopology.Json.Decode

namespace VersionedTopology.CommandLine

/-- Why a file cannot be read. -/
inductive FileFault where
  | missing
  | notDirectory
  | isDirectory
  | nameTooLong
  | badName
  | notText
deriving DecidableEq, Repr, Inhabited

/-- A fault as the system words it. -/
def FileFault.text : FileFault → String
  | missing => "No such file or directory (os error 2)"
  | notDirectory => "Not a directory (os error 20)"
  | isDirectory => "Is a directory (os error 21)"
  | nameTooLong => "File name too long (os error 36)"
  | badName => "file name contained an unexpected NUL byte"
  | notText => "stream did not contain valid UTF-8"

/-- What a path leads to. -/
inductive Node where
  | directory
  /-- A file with its size in bytes, and its content if that is text. -/
  | file (size : Nat) (content : Option String)
deriving DecidableEq, Repr, Inhabited

/-- Where paths lead. -/
abbrev Files := String → Except FileFault Node

namespace Files

/-! ## Reading -/

def cannotRead (path : String) (f : FileFault) : Error :=
  .invalidInput ("cannot read '" ++ path ++ "': " ++ f.text)

/-- The text of a file. -/
def readText (files : Files) (path : String) : Except Error String :=
  match files path with
  | .error f => .error (cannotRead path f)
  | .ok .directory => .error (cannotRead path .isDirectory)
  | .ok (.file _ none) => .error (cannotRead path .notText)
  | .ok (.file _ (some content)) => .ok content

/-- Whether a path leads to a file. -/
def isFile (files : Files) (path : String) : Bool :=
  match files path with
  | .ok (.file ..) => true
  | _ => false

/-- How many bytes an input file may have. -/
def maxInput : Nat := 16 * 1024 * 1024

/-- Reads an input file as JSON. -/
def readJson (files : Files) (decoder : Decoder α) (path : String) : Except Error α :=
  match files path with
  | .error f => .error (cannotRead path f)
  | .ok .directory => .error (.invalidInput ("'" ++ path ++ "' is not a regular file"))
  | .ok (.file size content) =>
    if size > maxInput then
      .error (.invalidInput ("'" ++ path ++ "' is " ++ toString size ++ " bytes, limit is " ++
        toString maxInput))
    else
      match content with
      | none => .error (cannotRead path .notText)
      | some text =>
        match decoder.ofText text with
        | .ok a => .ok a
        | .error _ => .error (.invalidInput ("invalid JSON in '" ++ path ++ "'"))

/-! ## Listings -/

/-- A place below the working directory by the names that lead there, the last one first; `none` is
above it. -/
abbrev Place := Option (List String)

/-- The names of a path; the last one is empty when it ends in a slash. -/
def namesOf (path : String) : List String := path.splitOn "/"

/-- Files by the names that lead to them, the last one first. A directory exists as soon as
something is in it. -/
abbrev Listing := List (List String × Node)

/-- A listing from names with their contents. A name that ends in a slash is a directory. -/
def listing (entries : List (String × Node)) : Listing :=
  entries.map fun (path, node) =>
    match (namesOf path).reverse with
    | "" :: names => (names, .directory)
    | names => (names, node)

/-- What is at a place. -/
def Listing.at? (l : Listing) : Place → Option Node
  | none => some .directory
  | some [] => some .directory
  | some names =>
    match l.lookup names with
    | some node => some node
    | none => if l.any fun e => names.isSuffixOf e.1 then some .directory else none

/-- The longest name that a file can have, in bytes. -/
def maxName : Nat := 255

/-- The longest path that can be looked up, in bytes. -/
def maxPath : Nat := 4095

/-- Follows names from a place on. -/
def Listing.follow (l : Listing) (place : Place) : List String → Except FileFault Node
  | [] =>
    match l.at? place with
    | some node => .ok node
    | none => .error .missing
  | name :: names =>
    match l.at? place with
    | none => .error .missing
    | some (.file ..) => .error .notDirectory
    | some .directory =>
      if name = "" ∨ name = "." then follow l place names
      else if name = ".." then
        match place with
        | none => follow l none names
        | some [] => follow l none names
        | some (_ :: above) => follow l (some above) names
      else if name.utf8ByteSize > maxName then .error .nameTooLong
      else
        match place with
        | none => .error .missing
        | some below => follow l (some (name :: below)) names

/-- The files of a listing. -/
def ofListing (l : Listing) : Files := fun path =>
  if path.contains '\x00' then .error .badName
  else if path.utf8ByteSize > maxPath then .error .nameTooLong
  else if path.isEmpty then .error .missing
  else if path.startsWith "/" then l.follow none (namesOf path)
  else l.follow (some []) (namesOf path)

end Files

end VersionedTopology.CommandLine
