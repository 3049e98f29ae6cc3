/-
  VersionedTopology.Http.ApiKey

  The key that requests have to bear.

  The check looks at every byte of both keys, whatever the first difference is,
  and at their lengths at the end, so the time it takes tells nothing about where
  a wrong key differs.
-/

import VersionedTopology.Text.Utf8

namespace VersionedTopology.Http

/-- A key, which is not empty. -/
structure ApiKey where
  text : String
  nonempty : text ≠ ""
deriving Repr

namespace ApiKey

/-- The key with a text; the empty text is no key and leaves the server open. -/
def ofText? (s : String) : Option ApiKey := if h : s = "" then none else some ⟨s, h⟩

/-- Bytes, filled up with zeros to a length. -/
def padded (n : Nat) (bs : List UInt8) : List UInt8 := bs ++ List.replicate (n - bs.length) 0

/-- Whether two lists of bytes of one length agree, looking at all of them. -/
def agree (xs ys : List UInt8) : Bool :=
  ((xs.zip ys).foldl (fun acc (x, y) => acc ||| (x ^^^ y)) 0) = 0

/-- Whether a text is the key. -/
def accepts (k : ApiKey) (provided : String) : Bool :=
  let given := Text.bytes provided
  let expected := Text.bytes k.text
  let n := max given.length expected.length
  agree (padded n given) (padded n expected) && given.length = expected.length

end ApiKey

end VersionedTopology.Http
