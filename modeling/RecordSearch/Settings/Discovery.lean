import RecordSearch.FileTree
import RecordSearch.Log
import RecordSearch.Settings.Yaml
import RecordSearch.Text.Utf8

/-! Where settings come from: a file named by the environment, the first of the usual files, or the
defaults. What the environment says replaces what the file says, and nothing is taken that is not
valid. -/
namespace RecordSearch.Settings

inductive ReadFault
  | missing
  /-- The system bars the way: the path goes on behind a file, or the file cannot be opened. -/
  | blocked
  | directory
  | notText
deriving DecidableEq

inductive LoadFault
  | unreadable (fault : ReadFault)
  | malformed
  | invalid (reason : Invalid)

def readText : FileEntry → Except ReadFault (List Char)
  | .missing => .error .missing
  | .blocked => .error .blocked
  | .locked => .error .blocked
  | .directory => .error .directory
  | .file content =>
    match Text.Utf8.decode? content with
    | some text => .ok text
    | none => .error .notText

def ofFile (e : FileEntry) : Except LoadFault Settings :=
  match readText e with
  | .error fault => .error (.unreadable fault)
  | .ok text =>
    match ofText? text with
    | some s => .ok s
    | none => .error .malformed

def Overlay.ofEnvironment (env : String → Option String) : Overlay :=
  { host := env "OPENSEARCH_HOST"
    username := env "OPENSEARCH_USER"
    password := env "OPENSEARCH_PASS"
    softDelete := env "OPENSEARCH_SOFT_DELETE" }

/-- What a program can see when it looks for its settings: the environment, what stands at a path,
and the directory for the user's own files, if there is one. -/
structure Surroundings where
  env : String → Option String
  entry : String → FileEntry
  userDirectory : Option String

namespace Surroundings

def present (s : Surroundings) (path : String) : Bool :=
  match s.entry path with
  | .missing => false
  | .blocked => false
  | .locked => true
  | .directory => true
  | .file _ => true

def named (s : Surroundings) : Option String := s.env "OPENSEARCH_SETTINGS_PATH"

def places (s : Surroundings) : List String :=
  ["opensearch.yml", "config/opensearch.yml"] ++
    (s.userDirectory.map (· ++ "/scout-opensearch/opensearch.yml")).toList

def chosen (s : Surroundings) : Option String := (s.named.toList ++ s.places).find? s.present

def notices (s : Surroundings) : List Log.Line :=
  let passedOver := (s.named.filter fun path => !s.present path).toList.map fun path =>
    ⟨.warn, "OPENSEARCH_SETTINGS_PATH points to missing file " ++ path ++
      ", searching default locations"⟩
  let taken := match s.chosen with
    | some path => "Loading settings from: " ++ path
    | none => "No settings file found, using defaults"
  passedOver ++ [⟨.info, taken⟩]

end Surroundings

def discover (s : Surroundings) : Except LoadFault Settings := do
  let start ← match s.chosen with
    | some path => ofFile (s.entry path)
    | none => .ok {}
  let settings := start.overlay (.ofEnvironment s.env)
  match settings.validate with
  | .ok () => .ok settings
  | .error reason => .error (.invalid reason)

end RecordSearch.Settings
