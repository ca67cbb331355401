import RecordSearch.Error
import RecordSearch.Log
import RecordSearch.Bulk.Operation
import RecordSearch.Http.Request

/-! Runs against an engine and the application, with all that they leave behind. -/
namespace RecordSearch
open Json

inductive Call
  | search (target : String) (document : Value)
  | upsert (target id : String) (payload : Payload)
  | delete (target id : String)
  | createIndex (target : String) (mapping : Value)
  | deleteIndex (target : String)
  | bulk (operations : List Bulk.Operation)

/-- The other side of the wire: what becomes of the last of the calls so far. -/
abbrev Peer := List Call → Http.Outcome

def Peer.unreachable : Peer := fun _ => .unreachable

/-- The outcomes in order, one for each call; after the last of them nobody is there any more. -/
def Peer.ofList (outcomes : List Http.Outcome) : Peer :=
  fun calls => outcomes.getD (calls.length - 1) .unreachable

structure Exchange where
  call : Call
  request : Http.Request

/-- A query document handed to a replacement of the engine's search. -/
structure Execution where
  target : String
  document : Value

structure Session where
  peer : Peer
  log : List Log.Line := []
  exchanges : List Exchange := []
  lookups : List (List String) := []
  executions : List Execution := []

/-- Work in a session. What has happened stays when the work fails. -/
abbrev Run := ExceptT Error (StateM Session)

namespace Run

def say (level : Log.Level) (message : String) : Run Unit :=
  modifyGet fun s : Session => ((), { s with log := s.log ++ [Log.Line.mk level message] })

/-- Hands a request to the other side. What is not sent leaves no trace. -/
def exchange (call : Call) (request : Http.Request) : Run Http.Outcome :=
  modifyGet fun s : Session =>
    match s.peer (s.exchanges.map (·.call) ++ [call]) with
    | .unreachable => (.unreachable, s)
    | outcome => (outcome, { s with exchanges := s.exchanges ++ [⟨call, request⟩] })

def lookUp {R : Type} (store : RecordStore R) (ids : List String) : Run (List R) := do
  modifyGet fun s : Session => ((), { s with lookups := s.lookups ++ [ids] })
  match store ids with
  | .ok records => return records
  | .error cause => throw (.store cause)

end Run
end RecordSearch
