/-
  VersionedTopology.Http.MediaType

  Whether a content type announces JSON.

  A media type is a type and a subtype, which may end in a suffix after a plus;
  parameters follow. JSON is announced by an application type whose subtype or
  suffix is `json`, in any case.
-/

namespace VersionedTopology.Http

/-- Characters of a name in a header field. -/
def isTokenChar (c : Char) : Bool :=
  c.isAlphanum || "!#$%&*+-.^_|~".toList.contains c || c.toNat = 39 || c.toNat = 96

/-- Whether parameters are well formed, from the place where a name is due. -/
def areParameters : Nat → List Char → Bool
  | 0, _ => false
  | _, [] => true
  | fuel + 1, ' ' :: cs => areParameters fuel cs
  | fuel + 1, cs =>
    let name := cs.takeWhile isTokenChar
    match cs.drop name.length with
    | '=' :: '"' :: rest =>
      let quoted := rest.takeWhile (· ≠ '"')
      match rest.drop quoted.length with
      | '"' :: rest =>
        !name.isEmpty && !quoted.isEmpty &&
          match rest.dropWhile (· = ' ') with
          | [] => true
          | ';' :: rest => areParameters fuel rest
          | _ => false
      | _ => false
    | '=' :: rest =>
      let value := rest.takeWhile isTokenChar
      !name.isEmpty &&
        match rest.drop value.length with
        | [] => true
        | ';' :: rest => !value.isEmpty && areParameters fuel rest
        | _ => false
    | _ => false

/-- The part of a subtype before its last plus, and the suffix after it. -/
def cutSuffix (cs : List Char) : List Char × Option (List Char) :=
  let suffix := (cs.reverse.takeWhile (· ≠ '+')).reverse
  if suffix.length < cs.length && suffix.length + 1 < cs.length then
    (cs.take (cs.length - suffix.length - 1), some suffix)
  else (cs, none)

/-- Whether a content type announces JSON. -/
def announcesJson (value : String) : Bool :=
  let cs := value.toList.map Char.toLower
  let type := cs.takeWhile isTokenChar
  match cs.drop type.length with
  | '/' :: rest =>
    let subtype := rest.takeWhile isTokenChar
    let wellFormed :=
      match rest.drop subtype.length with
      | [] => true
      | c :: rest => (c = ';' || c = ' ') && areParameters (rest.length + 1) rest
    let (name, suffix) := cutSuffix subtype
    wellFormed && type = "application".toList &&
      (name = "json".toList || suffix = some "json".toList)
  | _ => false

end VersionedTopology.Http
