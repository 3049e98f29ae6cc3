/-
  VersionedTopology.Http.Announce

  What a server says about its settings when it starts.
-/

import VersionedTopology.Http.ApiKey
import VersionedTopology.Http.Cors
import VersionedTopology.Settings.Basic
import VersionedTopology.Trace.Entry

namespace VersionedTopology.Http

open Trace

def inform (message : String) : Entry := ⟨.info, .server, message⟩

def caution (message : String) : Entry := ⟨.warn, .server, message⟩

/-- Which web pages may read answers. The usual ones go without saying. -/
def announceOrigins : Option (List String) → List Entry
  | none => []
  | some ["*"] => [caution "CORS: Allowing ALL origins. This is insecure outside development!"]
  | some origins =>
    (origins.map fun origin =>
      if isHeaderValue origin then inform ("CORS: Allowing origin: " ++ origin)
      else caution ("CORS: Invalid origin '" ++ origin ++ "': failed to parse header value")) ++
    (if origins.any isHeaderValue then []
      else [caution "CORS: No valid origins configured, defaulting to localhost only"])

/-- Whether requests need a key, how many may pass, and which web pages may read answers. -/
def announce (s : ServerSettings) : List Entry :=
  [ if (s.apiKey.bind ApiKey.ofText?).isSome then inform "API key authentication enabled"
    else caution
      "API key authentication DISABLED. Set ARCHSYNC_API_KEY to require a bearer key.",
    if s.rateLimit = 0 then inform "Rate limiting disabled"
    else inform ("Rate limiting enabled: " ++ toString s.rateLimit ++ " requests/second") ] ++
  announceOrigins s.corsOrigins

end VersionedTopology.Http
