/-
  VersionedTopology.Settings.Wire

  Settings as JSON and as TOML.

  Every setting may be left out and then keeps its default; one that is not known
  is refused, so that a misspelt name does not pass unnoticed.
-/

import VersionedTopology.Error
import VersionedTopology.Settings.Basic
import VersionedTopology.Toml.Document
import VersionedTopology.Wire.Request

namespace VersionedTopology

open Decoder

namespace ClientSettings

def toJson (s : ClientSettings) : Json :=
  .object [("base_url", .string s.baseUrl), ("api_key", Json.orNull .string s.apiKey),
    ("timeout_secs", .ofNat s.timeoutSeconds), ("can_overwrite", .bool s.canOverwrite)]

def fields : List (RecordField ClientSettings) :=
  [ field "base_url" .defaulted string fun baseUrl s => { s with baseUrl },
    field "api_key" .defaulted (option string) fun apiKey s => { s with apiKey },
    field "timeout_secs" .defaulted unsigned64 fun timeoutSeconds s => { s with timeoutSeconds },
    field "can_overwrite" .defaulted bool fun canOverwrite s => { s with canOverwrite } ]

def decoder : Decoder ClientSettings := record fields {} true

end ClientSettings

namespace ServerSettings

def toJson (s : ServerSettings) : Json :=
  .object [("host", .string s.host), ("port", .ofNat s.port), ("rate_limit", .ofNat s.rateLimit),
    ("cors_origins", Json.orNull Json.strings s.corsOrigins),
    ("api_key", Json.orNull .string s.apiKey), ("schema", s.schema.toJson)]

def fields : List (RecordField ServerSettings) :=
  [ field "host" .defaulted string fun host s => { s with host },
    field "port" .defaulted (unsigned Text.max16) fun port s => { s with port },
    field "rate_limit" .defaulted (unsigned Text.max32) fun rateLimit s => { s with rateLimit },
    field "cors_origins" .defaulted (option (list string)) fun corsOrigins s =>
      { s with corsOrigins },
    field "api_key" .defaulted (option string) fun apiKey s => { s with apiKey },
    field "schema" .defaulted Schema.decoder fun schema s => { s with schema } ]

/-- Reads settings over given ones. -/
def decoderOver (start : ServerSettings) : Decoder ServerSettings := record fields start true

def decoder : Decoder ServerSettings := decoderOver {}

end ServerSettings

namespace Settings

def toJson (s : Settings) : Json :=
  .object [("client", s.client.toJson), ("server", s.server.toJson)]

def fields : List (RecordField Settings) :=
  [ field "client" .defaulted ClientSettings.decoder fun client s => { s with client },
    field "server" .defaulted ServerSettings.decoder fun server s => { s with server } ]

def decoder : Decoder Settings := record fields {} true

/-- Reads a TOML text over the defaults. -/
def ofToml (text : String) : Except Error Settings :=
  let refused : Except Error Settings := .error (.invalidInput "invalid configuration")
  match Toml.ofText? text with
  | none => refused
  | some j =>
    match Decoder.ofValue decoder j with
    | .ok s => .ok s
    | .error _ => refused

end Settings

end VersionedTopology
