/-
  VersionedTopology.Http.Url

  URLs in their normal form.

  Reading a URL normalises it: scheme and host in lower case, no default port, no
  dot segments, and everything coded that has to be. The well known schemes name
  a host and take a backslash for a slash; of any other scheme a URL may consist
  of plain text, which nothing can be appended to.
-/

import VersionedTopology.Http.Host

namespace VersionedTopology.Http

/-- Who is addressed: user and password as they are written before the host, the host, and a port
that is not the scheme's own. -/
structure Authority where
  user : String := ""
  host : String
  port : Option Nat := none
deriving DecidableEq, Repr, Inhabited

/-- Segments, or text that is no path. -/
inductive UrlPath where
  | segments (segments : List String)
  | plain (content : String)
deriving DecidableEq, Repr, Inhabited

/-- A URL. -/
structure Url where
  scheme : String
  authority : Option Authority
  path : UrlPath
  query : Option String := none
  fragment : Option String := none
deriving DecidableEq, Repr, Inhabited

namespace Url

/-! ## Writing -/

def Authority.text (a : Authority) : String :=
  a.user ++ a.host ++ (match a.port with
    | none => ""
    | some p => ":" ++ toString p)

def pathText (segments : List String) : String :=
  String.join (segments.map fun s => "/" ++ s)

def marked (mark : String) : Option String → String
  | none => ""
  | some s => mark ++ s

/-- The written form. -/
def text (u : Url) : String :=
  u.scheme ++ ":" ++
    (match u.authority with
      | some a => "//" ++ Authority.text a
      | none =>
        match u.path with
        | .segments ("" :: _ :: _) => "/."
        | _ => "") ++
    (match u.path with
      | .segments ss => pathText ss
      | .plain s => s) ++
    marked "?" u.query ++ marked "#" u.fragment

/-- What a request for the URL names: path and query. -/
def target (u : Url) : String :=
  (match u.path with
    | .segments ss => pathText ss
    | .plain s => s) ++ marked "?" u.query

/-- Whether paths can be appended. -/
def isBase (u : Url) : Bool :=
  match u.path with
  | .segments _ => true
  | .plain _ => false

def hasHost (u : Url) : Bool := u.authority.any fun a => a.host ≠ ""

def isHttp (u : Url) : Bool := u.scheme = "http" || u.scheme = "https"

/-! ## User and password -/

/-- The user in front of the host, with a password if there is one. -/
def credentials? (u : Url) : Option (String × Option String) := do
  let a ← u.authority
  let written := a.user.toList.filter (· ≠ '@')
  let name ← decodeSegment (String.ofList (written.takeWhile (· ≠ ':')))
  let password := match written.dropWhile (· ≠ ':') with
    | _ :: cs => decodeSegment (String.ofList cs)
    | [] => none
  if name.isEmpty && password.isNone then none else some (name, password)

/-- The URL without user and password. -/
def withoutUser (u : Url) : Url :=
  { u with authority := u.authority.map fun a => { a with user := "" } }

/-! ## Appending -/

/-- Characters that are passed over wherever they stand. -/
def isSkipped (c : Char) : Bool := c = '\t' || c = '\n' || c = '\r'

/-- Schemes that name a host, with their own ports. -/
def defaultPorts : List (String × Nat) :=
  [("http", 80), ("https", 443), ("ws", 80), ("wss", 443), ("ftp", 21)]

def isSpecial (scheme : String) : Bool := (defaultPorts.lookup scheme).isSome || scheme = "file"

/-- A name as one segment of a path. -/
def codedSegment (special : Bool) (name : String) : String :=
  String.ofList (encode (fun c => codedInSegment c || (special && c = '\\'))
    (name.toList.filter fun c => !isSkipped c))

/-- A path without the empty segment at its end; one that holds nothing else is empty. -/
def dropEmptyEnd (ss : List String) : List String :=
  let kept := if ss.getLast? = some "" then ss.dropLast else ss
  if kept = [""] then [] else kept

/-- A path with a name at its end. A name of dots only is left out, since it would lead elsewhere.
One that is of dots only without what is passed over does lead there: a dot to an empty segment,
two dots to one in place of the last segment. A path of one empty segment counts as empty. -/
def appendName (special : Bool) (ss : List String) (name : String) : List String :=
  if name = "." || name = ".." then ss
  else
    let ss := if ss = [""] then [] else ss
    let coded := codedSegment special name
    if coded = "." then ss ++ [""]
    else if coded = ".." then ss.dropLast ++ [""]
    else ss ++ [coded]

/-- The URL with names appended to its path. -/
def append (u : Url) (names : List String) : Url :=
  match u.path with
  | .plain _ => u
  | .segments ss =>
    { u with path := .segments (names.foldl (appendName (isSpecial u.scheme)) (dropEmptyEnd ss)) }

/-- The URL with a field appended to its query. -/
def withField (u : Url) (name value : String) : Url :=
  let field := formEncode name ++ "=" ++ formEncode value
  { u with query := some (match u.query with
      | none => field
      | some "" => field
      | some q => q ++ "&" ++ field) }

/-! ## Reading -/

/-- The scheme, in lower case, and what follows its colon. -/
def cutScheme (cs : List Char) : Option (String × List Char) :=
  let name := cs.takeWhile fun c => c.isAlphanum || c = '+' || c = '-' || c = '.'
  match name, cs.drop name.length with
  | c :: _, ':' :: rest =>
    if c.isAlpha then some (String.ofList (name.map Char.toLower), rest) else none
  | _, _ => none

/-- A segment that stands for the segment before it, or for nothing. -/
def dots (s : List Char) : Option Nat :=
  let plain := (String.ofList (s.map Char.toLower)).replace "%2e" "."
  if plain = "." then some 1 else if plain = ".." then some 2 else none

/-- Segments without those that dots take away; `kept` is the path so far, last segment first. -/
def resolve (kept : List String) : List (List Char) → List String
  | [] => kept.reverse
  | [s] =>
    match dots s with
    | some 1 => ("" :: kept).reverse
    | some _ => ("" :: kept.drop 1).reverse
    | none => (String.ofList (encode codedInPath s) :: kept).reverse
  | s :: rest =>
    match dots s with
    | some 1 => resolve kept rest
    | some _ => resolve (kept.drop 1) rest
    | none => resolve (String.ofList (encode codedInPath s) :: kept) rest

/-- The segments of a path that starts with a slash or is empty. -/
def readPath (special : Bool) (cs : List Char) : List String :=
  let cs := if special then cs.map fun c => if c = '\\' then '/' else c else cs
  match cs with
  | [] => if special then [""] else []
  | _ :: rest => resolve [] (Text.split '/' rest)

/-- A host and the port behind it. -/
def cutPort (cs : List Char) : List Char × Option (List Char) :=
  let bracketed := (cs.takeWhile (· ≠ ']')).length
  let inside := if cs.head? = some '[' then bracketed else 0
  let host := cs.take inside ++ (cs.drop inside).takeWhile (· ≠ ':')
  match cs.drop host.length with
  | ':' :: port => (host, some port)
  | _ => (host, none)

/-- A port; none at all is allowed. -/
def readPort (scheme : String) (cs : List Char) : Except UrlFault (Option Nat) :=
  if cs.isEmpty then .ok none
  else if !cs.all Char.isDigit then .error .invalidPort
  else
    let n := cs.foldl (fun n c => 10 * n + (c.toNat - 48)) 0
    if n > 65535 then .error .invalidPort
    else .ok (if defaultPorts.lookup scheme = some n then none else some n)

/-- User and password as they are written before a host. -/
def readUser (cs : List Char) : String :=
  let name := String.ofList (encode codedInUserinfo (cs.takeWhile (· ≠ ':')))
  let password := String.ofList (encode codedInUserinfo ((cs.dropWhile (· ≠ ':')).drop 1))
  if name = "" && password = "" then ""
  else if password = "" then name ++ "@"
  else name ++ ":" ++ password ++ "@"

/-- The authority between two slashes and the path. -/
def readAuthority (scheme : String) (cs : List Char) : Except UrlFault Authority := do
  let special := isSpecial scheme
  let host := (cs.reverse.takeWhile (· ≠ '@')).reverse
  let user := readUser (cs.take (cs.length - host.length - 1))
  let (name, port) := cutPort host
  if name.isEmpty && (special || port.isSome || user ≠ "") then .error .emptyHost
  else
    let name ← if special then Host.normal name else Host.unknown name
    let port ← readPort scheme (port.getD [])
    .ok { user, host := name, port }

/-- The rest of a URL between its scheme and its query. -/
def readRest (scheme : String) (cs : List Char) :
    Except UrlFault (Option Authority × UrlPath) := do
  let slash (c : Char) : Bool := c = '/' || c = '\\'
  if scheme = "file" then
    match cs with
    | a :: b :: rest =>
      if slash a && slash b then
        let host := rest.takeWhile fun c => !slash c
        let name ← if host.isEmpty then .ok "" else Host.normal host
        let name := if name = "localhost" then "" else name
        .ok (some { host := name }, .segments (readPath true (rest.drop host.length)))
      else .ok (some { host := "" }, .segments (readPath true (if slash a then cs else '/' :: cs)))
    | _ => .ok (some { host := "" },
        .segments (readPath true (if cs.head?.any slash then cs else '/' :: cs)))
  else if isSpecial scheme then
    let cs := cs.dropWhile slash
    let authority := cs.takeWhile fun c => !slash c
    let a ← readAuthority scheme authority
    .ok (some a, .segments (readPath true (cs.drop authority.length)))
  else
    match cs with
    | '/' :: '/' :: cs =>
      let authority := cs.takeWhile (· ≠ '/')
      let a ← readAuthority scheme authority
      .ok (some a, .segments (readPath false (cs.drop authority.length)))
    | '/' :: _ => .ok (none, .segments (readPath false cs))
    | _ => .ok (none, .plain (String.ofList (encode isControlOrWide cs)))

/-- Blanks and controls at the ends of a URL do not count. -/
def isTrimmed (c : Char) : Bool := c.toNat ≤ 32

/-- Reads a URL. -/
def ofText (s : String) : Except UrlFault Url := do
  let cs := ((s.toList.dropWhile isTrimmed).reverse.dropWhile isTrimmed).reverse.filter
    fun c => !isSkipped c
  match cutScheme cs with
  | none => .error .noScheme
  | some (scheme, rest) =>
    let special := isSpecial scheme
    let main := rest.takeWhile (· ≠ '#')
    let fragment := (rest.drop main.length).tail?
    let hier := main.takeWhile (· ≠ '?')
    let query := (main.drop hier.length).tail?
    let (authority, path) ← readRest scheme hier
    let coded (set : Char → Bool) (cs : List Char) : String := String.ofList (encode set cs)
    .ok { scheme, authority, path
          query := query.map
            (coded fun c => codedInQuery c || (special && c.toNat = 39))
          fragment := fragment.map (coded codedInFragment) }

end Url

end VersionedTopology.Http
