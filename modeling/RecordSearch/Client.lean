import RecordSearch.Session
import RecordSearch.Settings.Basic
import RecordSearch.Response.Codec
import RecordSearch.Bulk.Reply

/-! Calls on one engine endpoint. Every call hands one request to the HTTP library and takes the one
answer that the library yields. No call is tried again here; what the library itself does in
between, such as following a redirect, is not looked at. -/
namespace RecordSearch
open Json

def version : String := "0.1.0"

def userAgent : String := "scout-opensearch/" ++ version

structure Client where
  base : String
  username : Option String := none
  password : Option String := none
  mappings : KeyMap Value := KeyMap.empty

/-- Why a timeout in seconds is not a span of time. A negative zero is one. -/
def timeoutFault (seconds : Float) : Option String :=
  if seconds < 0 then some "cannot convert float seconds to Duration: value is negative"
  else if seconds < 18446744073709551616 then none
  else some "cannot convert float seconds to Duration: value is either too big or NaN"

def baseText (u : Url) : String := String.ofList (Text.dropEnd (· == '/') u.chars)

/-- A request the engine refused. The reason is the `error` text or its `reason`, else the phrase or
number of the status. -/
def refusal (status : UInt16) (body : Option String) : Error :=
  let structured := do
    let json ← (decodeText Decode.free (← body)).toOption
    match json.get? "error" with
    | some (.str reason) => some reason
    | some error => (error.get? "reason").bind Value.asText?
    | none => none
  .engine status (structured.getD ((Http.phrase? status).getD (toString status))) body

namespace Client

/-- A client without mappings. The address is looked at first, then the timeout. -/
def ofEngine (e : EngineSettings) : Except Error Client :=
  match Url.ofText e.url with
  | .error fault => .error (.config ("invalid engine URL " ++ e.url ++ ": " ++ fault.message))
  | .ok url =>
    match timeoutFault e.requestTimeout with
    | some fault =>
      .error (.config ("invalid request_timeout " ++ Settings.secondsText e.requestTimeout ++
        ": " ++ fault))
    | none => .ok { base := baseText url, username := e.username, password := e.password }

/-- A client with mappings. The settings are not validated here. -/
def ofSettings (s : Settings) : Except Error Client := do
  let c ← ofEngine s.engine
  return { c with mappings := s.mappings }

def url (c : Client) (segments : List String) : String :=
  String.ofList (c.base.toList ++
    segments.flatMap fun s => '/' :: Text.Percent.encode Text.Percent.isUnreserved s.toList)

end Client

namespace Call

def method : Call → Http.Method
  | .search _ _ => .post
  | .upsert _ _ _ => .put
  | .delete _ _ => .delete
  | .createIndex _ _ => .put
  | .deleteIndex _ => .delete
  | .bulk _ => .post

def segments : Call → List String
  | .search target _ => [target, "_search"]
  | .upsert target id _ => [target, "_doc", id]
  | .delete target id => [target, "_doc", id]
  | .createIndex target _ => [target]
  | .deleteIndex target => [target]
  | .bulk _ => ["_bulk"]

def body : Call → Option (String × String)
  | .search _ document => some ("application/json", document.text)
  | .upsert _ _ payload => some ("application/json", (Value.ofMap payload).text)
  | .createIndex _ mapping => some ("application/json", mapping.text)
  | .bulk operations => some ("application/x-ndjson", Bulk.text operations)
  | .delete _ _ => none
  | .deleteIndex _ => none

end Call

namespace Client

/-- The credentials of the settings. Without a name there are none, even if there is a password. -/
def credentials (c : Client) : List String :=
  match c.username with
  | some name => [Http.basicCredentials name.toList ((c.password.getD "").toList)]
  | none => []

/-- The address a call is sent to: the built text read anew. Only two schemes can be sent. -/
def target? (c : Client) (call : Call) : Option Url :=
  match Url.ofText (c.url call.segments) with
  | .ok u => if u.scheme == "http".toList || u.scheme == "https".toList then some u else none
  | .error _ => none

/-- The request of a call. Credentials in the address come before those of the settings. -/
def request? (c : Client) (call : Call) : Option Http.Request :=
  (c.target? call).map fun u => {
    method := call.method
    url := Http.bareUrl u
    authorization := (Http.urlCredentials u).toList ++ c.credentials
    contentType := (call.body.map (·.1)).toList
    userAgent := [userAgent]
    body := (call.body.map (·.2)).getD "" }

/-- The text of an answer's body, if all of it arrived. It is read as UTF-8: no charset of a content
type is looked at. -/
def bodyText (status : UInt16) (body : Option (List UInt8)) : Option String :=
  (if Http.isBodiless status then some [] else body).map
    fun bytes => String.ofList (Text.Utf8.decodeBody bytes)

/-- Sends a call and judges the answer that the HTTP library yields. The result is the text of a
success, absent if it did not arrive whole; anything but a success is an error. -/
def send (c : Client) (call : Call) : Run (Option String) := do
  Run.say .debug (call.method.name ++ " " ++ c.url call.segments)
  match c.request? call with
  | none => throw .transport
  | some request =>
    match ← Run.exchange call request with
    | .unreachable => throw .transport
    | .dropped => throw .transport
    | .answered status body =>
      let text := bodyText status body
      if Http.isSuccess status then return text
      let error := refusal status text
      Run.say .warn (error.message?.getD "")
      throw error

def decoded {α : Type} (p : Decoder α) (text : Option String) : Run (String × α) :=
  match text with
  | none => throw .transport
  | some text =>
    match decodeText p text with
    | .ok x => return (text, x)
    | .error fault => throw (.invalidResponse fault)

def search (c : Client) (target : String) (document : Value) : Run Response.Search := do
  let (_, answer) ← decoded Response.Search.decode (← c.send (.search target document))
  Run.say .debug ("Search on " ++ target ++ " returned " ++
    toString answer.hits.hits.length ++ " hits")
  return answer

def upsert (c : Client) (target id : String) (payload : Payload) : Run Unit := do
  let _ ← c.send (.upsert target id payload)

def delete (c : Client) (target id : String) : Run Unit := do
  let _ ← c.send (.delete target id)

def deleteIndex (c : Client) (target : String) : Run Unit := do
  let _ ← c.send (.deleteIndex target)

/-- Creates an index from its mapping. Without one the engine does so by itself when a document
comes. -/
def createIndex (c : Client) (target : String) : Run Unit := do
  match c.mappings.get? target with
  | none =>
    throw (.unsupported ("index " ++ target ++
      " has no configured mapping; indices are created automatically when documents are added"))
  | some mapping =>
    let _ ← c.send (.createIndex target mapping)

/-- Sends operations together. Nothing is sent where there are none; one failed operation fails the
whole. -/
def bulk (c : Client) (operations : List Bulk.Operation) : Run Unit := do
  if operations.isEmpty then return
  let (text, reply) ← decoded Bulk.Reply.decode (← c.send (.bulk operations))
  match reply.firstFailure with
  | some (status, reason) =>
    Run.say .warn ("Bulk request failed (" ++ toString status ++ "): " ++ reason)
    throw (.engine status reason (some text))
  | none => Run.say .debug ("Bulk request applied " ++ toString operations.length ++ " operations")

end Client
end RecordSearch
