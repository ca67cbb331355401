import RecordSearch.Url.Basic
import RecordSearch.Text.Base64

/-! Requests as they go out, and what comes back. -/
namespace RecordSearch.Http

inductive Method
  | post
  | put
  | delete
deriving DecidableEq

def Method.name : Method → String
  | .post => "POST"
  | .put => "PUT"
  | .delete => "DELETE"

/-- A request. The address holds neither user nor fragment: these are not sent as parts of it. -/
structure Request where
  method : Method
  url : Url
  authorization : List String
  contentType : List String
  userAgent : List String
  body : String

/-- What becomes of a request that is handed to the HTTP library: no connection is made and nothing
is sent, the connection closes without an answer, or an answer comes. The answer is the one the
library yields in the end; interim answers and redirects it has followed are its own affair. The
octets of an answer are absent if they end before their announced number. -/
inductive Outcome
  | unreachable
  | dropped
  | answered (status : UInt16) (body : Option (List UInt8))

/-- Answers with these statuses have no body, whatever follows. -/
def isBodiless (status : UInt16) : Bool := status == 101 || status == 204 || status == 304

def basicCredentials (username password : List Char) : String :=
  "Basic " ++ String.ofList (Text.Base64.encode (Text.Utf8.encode (username ++ ':' :: password)))

/-- The credentials in an address, percent-decoded. A name or password that is not UTF-8 is left
out. -/
def urlCredentials (u : Url) : Option String :=
  match Text.Utf8.decode? (Text.Percent.decode u.username) with
  | none => none
  | some username =>
    let password := u.password.bind fun p => Text.Utf8.decode? (Text.Percent.decode p)
    if username.isEmpty && password.isNone then none
    else some (basicCredentials username (password.getD []))

def bareUrl (u : Url) : Url := { u with username := [], password := none, fragment := none }

end RecordSearch.Http
