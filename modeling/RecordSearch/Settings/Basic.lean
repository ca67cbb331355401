import RecordSearch.Query.Policy
import RecordSearch.Url.Reader

/-! Settings, their defaults, and whether they can be used. -/
namespace RecordSearch

/-- Where the engine is and how to talk to it. The timeout is in seconds. -/
structure EngineSettings where
  url : String := "http://localhost:9200"
  username : Option String := none
  password : Option String := none
  requestTimeout : Float := 5.0
  verifySsl : Bool := true

/-- All settings. Mappings are by index name; with `bulk` each batch is one request. -/
structure Settings where
  engine : EngineSettings := {}
  mappings : KeyMap Json.Value := KeyMap.empty
  softDelete : Bool := false
  query : Query.Policy := {}
  bulk : Bool := false

namespace Settings

inductive Invalid
  | url (fault : Url.Fault)
  | scheme (name : String)
  | timeout (seconds : Float)

def secondsText (seconds : Float) : String := String.ofList (Decimal.Layout.sentence.text seconds)

def Invalid.message : Invalid → String
  | .url fault => fault.message
  | .scheme name => "Unsupported engine URL scheme: " ++ name
  | .timeout seconds =>
    "request_timeout must be a positive number of seconds, got " ++ secondsText seconds

def validate (s : Settings) : Except Invalid Unit :=
  match Url.ofText s.engine.url with
  | .error fault => .error (.url fault)
  | .ok url =>
    let scheme := String.ofList url.scheme
    if scheme != "http" && scheme != "https" then .error (.scheme scheme)
    else if s.engine.requestTimeout.isFinite && s.engine.requestTimeout > 0 then .ok ()
    else .error (.timeout s.engine.requestTimeout)

structure Overlay where
  host : Option String := none
  username : Option String := none
  password : Option String := none
  softDelete : Option String := none

/-- Variables that are set replace what they name. Only the text `true` turns soft deletes on. -/
def overlay (s : Settings) (o : Overlay) : Settings :=
  { s with
    engine := { s.engine with
      url := o.host.getD s.engine.url
      username := o.username.or s.engine.username
      password := o.password.or s.engine.password }
    softDelete := match o.softDelete with
      | some text => text == "true"
      | none => s.softDelete }

/-- A second overlay changes nothing. -/
theorem overlay_overlay (s : Settings) (o : Overlay) : (s.overlay o).overlay o = s.overlay o := by
  cases o with
  | mk host username password softDelete =>
    cases host <;> cases username <;> cases password <;> cases softDelete <;> rfl

end Settings
end RecordSearch
