/-
  VersionedTopology.Settings.Environment

  Settings from environment variables.

  A variable that holds nothing but white space counts as not set. A request rate
  that is no number is passed over with a warning.
-/

import VersionedTopology.Settings.Basic
import VersionedTopology.Text.Blank

namespace VersionedTopology

/-- Environment variables by name. -/
abbrev Variables := List (String × String)

namespace Variables

/-- The value of a variable that is set and not blank. -/
def value? (vs : Variables) (name : String) : Option String :=
  (vs.lookup name).filter fun v => !Text.isBlankText v

end Variables

namespace Settings

/-- The origins in a list separated by commas. -/
def originsOf (list : String) : List String :=
  ((Text.split ',' list.toList).map fun part => Text.trim (String.ofList part)).filter
    fun origin => !origin.isEmpty

/-- The rate in the variables: a new one, or why it is passed over. -/
def rateOf (vs : Variables) : Option (Except String Nat) :=
  (vs.value? "ARCHSYNC_RATE_LIMIT").map fun raw =>
    match Text.readUnsigned Text.max32 (Text.trim raw) with
    | .ok n => .ok n
    | .error f => .error ("Ignoring ARCHSYNC_RATE_LIMIT '" ++ raw ++ "': " ++ f.text)

/-- The settings under the variables. -/
def withVariables (s : Settings) (vs : Variables) : Settings :=
  let key := vs.value? "ARCHSYNC_API_KEY"
  { client := { s.client with
      baseUrl := (vs.value? "ARCHSYNC_URL").getD s.client.baseUrl
      apiKey := key.or s.client.apiKey }
    server := { s.server with
      apiKey := key.or s.server.apiKey
      rateLimit := match rateOf vs with
        | some (.ok n) => n
        | _ => s.server.rateLimit
      corsOrigins := ((vs.value? "ARCHSYNC_CORS_ORIGINS").map originsOf).or
        s.server.corsOrigins } }

/-- The warnings about the variables. -/
def warnings (vs : Variables) : List String :=
  match rateOf vs with
  | some (.error w) => [w]
  | _ => []

end Settings

end VersionedTopology
