import RecordSearch.Settings.Basic

/-! The written form of settings. Absent members take their defaults, at both levels. -/
namespace RecordSearch
open Json

def EngineSettings.toValue (e : EngineSettings) : Value :=
  .obj [
    ("password", Value.orNull .str e.password),
    ("request_timeout", Value.double e.requestTimeout),
    ("url", .str e.url),
    ("username", Value.orNull .str e.username),
    ("verify_ssl", .bool e.verifySsl)]

def Settings.toValue (s : Settings) : Value :=
  .obj [
    ("engine", s.engine.toValue),
    ("indexing", .obj [("bulk", .bool s.bulk)]),
    ("mappings", .ofMap s.mappings),
    ("query", s.query.toValue),
    ("soft_delete", .bool s.softDelete)]

structure EngineSettings.Draft where
  url : Option String := none
  username : Option (Option String) := none
  password : Option (Option String) := none
  requestTimeout : Option Float := none
  verifySsl : Option Bool := none

def EngineSettings.Draft.finish (d : Draft) : EngineSettings :=
  let start : EngineSettings := {}
  { url := d.url.getD start.url
    username := d.username.getD start.username
    password := d.password.getD start.password
    requestTimeout := d.requestTimeout.getD start.requestTimeout
    verifySsl := d.verifySsl.getD start.verifySsl }

structure Settings.Draft where
  engine : Option EngineSettings := none
  mappings : Option (KeyMap Value) := none
  softDelete : Option Bool := none
  query : Option Query.Policy := none
  bulk : Option Bool := none

def Settings.Draft.finish (d : Draft) : Settings :=
  let start : Settings := {}
  { engine := d.engine.getD start.engine
    mappings := d.mappings.getD start.mappings
    softDelete := d.softDelete.getD start.softDelete
    query := d.query.getD start.query
    bulk := d.bulk.getD start.bulk }

def EngineSettings.member (d : Draft) (name : String) : Decoder Draft := fun c =>
  match name with
  | "url" => do return { d with url := some (← Decode.once d.url Decode.text c) }
  | "username" => do
    return { d with username := some (← Decode.once d.username (Decode.optional Decode.text) c) }
  | "password" => do
    return { d with password := some (← Decode.once d.password (Decode.optional Decode.text) c) }
  | "request_timeout" => do
    return { d with requestTimeout := some (← Decode.once d.requestTimeout Decode.double c) }
  | "verify_ssl" => do return { d with verifySsl := some (← Decode.once d.verifySsl Decode.flag c) }
  | _ => do Decode.ignored c; return d

def EngineSettings.decode : Decoder EngineSettings := fun c =>
  Draft.finish <$>
    Decode.record ["url", "username", "password", "request_timeout", "verify_ssl"] 0 member {} c

def Settings.indexingMember (d : Option Bool) (name : String) : Decoder (Option Bool) := fun c =>
  match name with
  | "bulk" => do return some (← Decode.once d Decode.flag c)
  | _ => do Decode.ignored c; return d

def Settings.decodeIndexing : Decoder Bool := fun c =>
  (·.getD false) <$> Decode.record ["bulk"] 0 indexingMember none c

def Settings.member (d : Draft) (name : String) : Decoder Draft := fun c =>
  match name with
  | "engine" => do return { d with engine := some (← Decode.once d.engine EngineSettings.decode c) }
  | "mappings" => do
    return { d with mappings := some (← Decode.once d.mappings (Decode.table Decode.free) c) }
  | "soft_delete" => do
    return { d with softDelete := some (← Decode.once d.softDelete Decode.flag c) }
  | "query" => do return { d with query := some (← Decode.once d.query Query.Policy.decode c) }
  | "indexing" => do return { d with bulk := some (← Decode.once d.bulk decodeIndexing c) }
  | _ => do Decode.ignored c; return d

def Settings.decode : Decoder Settings := fun c =>
  Draft.finish <$>
    Decode.record ["engine", "mappings", "soft_delete", "query", "indexing"] 0 member {} c

end RecordSearch
