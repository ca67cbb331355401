import RecordSearch.Settings.Codec
import RecordSearch.Yaml.Decode

/-! Settings as they stand in a settings file. Sections and entries may be left out, and other
entries are not looked at. -/
namespace RecordSearch
open Yaml

def EngineSettings.entry (d : Draft) (name : String) : Yaml.Decoder Draft := fun c =>
  match name with
  | "url" => do return { d with url := ← Decode.once d.url Decode.text c }
  | "username" => do return { d with username := ← Decode.once d.username Decode.optionalText c }
  | "password" => do return { d with password := ← Decode.once d.password Decode.optionalText c }
  | "request_timeout" => do
    return { d with requestTimeout := ← Decode.once d.requestTimeout Decode.double c }
  | "verify_ssl" => do return { d with verifySsl := ← Decode.once d.verifySsl Decode.flag c }
  | _ => return d

def EngineSettings.ofNode : Yaml.Decoder EngineSettings :=
  fun c => Draft.finish <$> Decode.record entry {} c

def Query.Policy.entry (d : Draft) (name : String) : Yaml.Decoder Draft := fun c =>
  match name with
  | "default_operator" => do
    return { d with operator := ← Decode.once d.operator (Decode.choice TextOperator.choices) c }
  | "filter_context" => do
    return { d with
      filterContext := ← Decode.once d.filterContext (Decode.choice FilterContext.choices) c }
  | "default_page_size" => do return { d with pageSize := ← Decode.once d.pageSize Decode.word32 c }
  | _ => return d

def Query.Policy.ofNode : Yaml.Decoder Query.Policy :=
  fun c => Draft.finish <$> Decode.record entry {} c

namespace Settings

def indexingEntry (d : Option Bool) (name : String) : Yaml.Decoder (Option Bool) := fun c =>
  match name with
  | "bulk" => Decode.once d Decode.flag c
  | _ => return d

def indexingOfNode : Yaml.Decoder Bool :=
  fun c => (·.getD false) <$> Decode.record indexingEntry none c

def entry (d : Draft) (name : String) : Yaml.Decoder Draft := fun c =>
  match name with
  | "engine" => do return { d with engine := ← Decode.once d.engine EngineSettings.ofNode c }
  | "mappings" => do
    return { d with mappings := ← Decode.once d.mappings (Decode.table Decode.free) c }
  | "soft_delete" => do return { d with softDelete := ← Decode.once d.softDelete Decode.flag c }
  | "query" => do return { d with query := ← Decode.once d.query Query.Policy.ofNode c }
  | "indexing" => do return { d with bulk := ← Decode.once d.bulk indexingOfNode c }
  | _ => return d

def ofNode : Yaml.Decoder Settings := fun c => Draft.finish <$> Decode.record entry {} c

/-- The settings that a text says. An empty text says nothing, which leaves the defaults. -/
def ofText? (text : List Char) : Option Settings := do
  let document ← Document.ofText? text
  return (← document.decode ofNode).getD {}

end Settings
end RecordSearch
