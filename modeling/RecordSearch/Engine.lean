import RecordSearch.Indexer
import RecordSearch.Query.Document
import RecordSearch.Response.Reconcile

/-! The search engine as the application sees it: requests in, records out. -/
namespace RecordSearch
open Json

/-- Who runs query documents: the engine itself, or a replacement that answers the last of the
documents so far. -/
inductive Executor
  | engine
  | custom (answer : List Execution → Except Error Response.Search)

structure Engine where
  settings : Settings
  client : Client
  executor : Executor

namespace Engine
variable {R : Type}

def create (s : Settings) : Run Engine := do
  match s.validate with
  | .error invalid => throw (.config invalid.message)
  | .ok () =>
    let client ← (Client.ofSettings s : Except Error Client)
    Run.say .info ("Search engine configured for " ++ client.base)
    return ⟨s, client, .engine⟩

def indexer (e : Engine) : Indexer := Indexer.ofSettings e.client e.settings

def compile (e : Engine) (type : RecordType R) (request : Query.Request) : Run Value := do
  let document := Query.compile e.settings.query type.fields request
  match request.raw with
  | some _ => Run.say .debug "Using raw query document"
  | none => Run.say .debug ("Compiled query document: " ++ document.text)
  return document

def run (e : Engine) (target : String) (document : Value) : Run Response.Search := do
  match e.executor with
  | .engine => e.client.search target document
  | .custom answer =>
    let executions ← modifyGet fun s : Session =>
      let executions := s.executions ++ [⟨target, document⟩]
      (executions, { s with executions })
    match answer executions with
    | .ok response => return response
    | .error error => throw error

def execute (e : Engine) (type : RecordType R) (request : Query.Request) : Run Response.Search := do
  e.run type.indexName (← e.compile type request)

def searchRaw (e : Engine) (type : RecordType R) (document : Value) : Run Response.Search :=
  e.run type.indexName document

def search (e : Engine) (type : RecordType R) (store : RecordStore R)
    (request : Query.Request) : Run (Response.Page R) := do
  let response ← e.execute type request
  Run.say .debug ("Search on " ++ type.indexName ++ " matched " ++
    toString response.totalCount ++ " documents")
  Response.reconcile type store response

def paginate (e : Engine) (type : RecordType R) (store : RecordStore R) (request : Query.Request)
    (perPage page : UInt32) : Run (Response.Page R) :=
  e.search type store { request with perPage := some perPage, page := some page }

def update (e : Engine) (type : RecordType R) (records : List R) : Run Unit :=
  e.indexer.index type records

def delete (e : Engine) (type : RecordType R) (records : List R) : Run Unit :=
  e.indexer.unindex type records

def createIndex (e : Engine) (name : String) : Run Unit := e.client.createIndex name

def deleteIndex (e : Engine) (name : String) : Run Unit := e.client.deleteIndex name

def flush (e : Engine) (type : RecordType R) : Run Unit := e.deleteIndex type.indexName

end Engine
end RecordSearch
