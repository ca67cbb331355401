import RecordSearch.Engine
import RecordSearch.Proofs.Indexer.Twins

/-! What an application asks of an engine, and engines that differ in nothing but the credentials of
their client. -/
namespace RecordSearch
open Json
variable {a b : List String} {R : Type}

namespace Engine

/-- What an application can ask of an engine, with all that it hands over for it. -/
inductive Command : Type 1
  | search {R : Type} (type : RecordType R) (store : RecordStore R) (request : Query.Request)
  | paginate {R : Type} (type : RecordType R) (store : RecordStore R) (request : Query.Request)
      (perPage page : UInt32)
  | execute {R : Type} (type : RecordType R) (request : Query.Request)
  | searchRaw {R : Type} (type : RecordType R) (document : Value)
  | update {R : Type} (type : RecordType R) (records : List R)
  | delete {R : Type} (type : RecordType R) (records : List R)
  | flush {R : Type} (type : RecordType R)
  | createIndex (name : String)
  | deleteIndex (name : String)
  | bulk (operations : List Bulk.Operation)

namespace Command

def Result : Command → Type
  | @search R _ _ _ => Response.Page R
  | @paginate R _ _ _ _ _ => Response.Page R
  | execute _ _ => Response.Search
  | searchRaw _ _ => Response.Search
  | _ => Unit

def work (e : Engine) : (k : Command) → Run k.Result
  | search type store request => e.search type store request
  | paginate type store request perPage page => e.paginate type store request perPage page
  | execute type request => e.execute type request
  | searchRaw type document => e.searchRaw type document
  | update type records => e.update type records
  | delete type records => e.delete type records
  | flush type => e.flush type
  | createIndex name => e.createIndex name
  | deleteIndex name => e.deleteIndex name
  | bulk operations => e.client.bulk operations

abbrev Outcome := (k : Command) × Except Error k.Result

end Command

def serve (e : Engine) : List Command → Session → List Command.Outcome × Session
  | [], s => ([], s)
  | k :: rest, s =>
    let (x, t) := (k.work e).result s
    let (outcomes, u) := e.serve rest t
    (⟨k, x⟩ :: outcomes, u)

/-- Two engines that compile requests and put in batches in the same way, and the credentials that
each of them sends. -/
structure Twins (a b : List String) (e f : Engine) : Prop where
  client : e.client.Twins a b f.client
  query : e.settings.query = f.settings.query
  softDelete : e.settings.softDelete = f.settings.softDelete
  bulk : e.settings.bulk = f.settings.bulk
  executor : e.executor = f.executor

namespace Twins
variable {e f : Engine} (h : Twins a b e f)
include h

theorem indexer_eq : f.indexer = ⟨f.client, e.settings.softDelete, e.settings.bulk⟩ := by
  rw [h.softDelete, h.bulk]
  rfl

theorem run (target : String) (document : Value) :
    Run.Twins a b (e.run target document) (f.run target document) := by
  unfold Engine.run
  rw [h.executor]
  cases f.executor with
  | engine => exact h.client.search target document
  | custom answer =>
    refine .bind (.modifyGet (fun _ => rfl) (fun _ => rfl) fun _ => rfl) fun executions => ?_
    cases answer executions with
    | ok response => exact .pure _
    | error error => exact .throw _

theorem execute (type : RecordType R) (request : Query.Request) :
    Run.Twins a b (e.execute type request) (f.execute type request) := by
  have hcompile : e.compile type request = f.compile type request := by
    rw [Engine.compile, h.query, Engine.compile]
  unfold Engine.execute
  rw [hcompile]
  refine .bind ?_ fun document => h.run _ document
  unfold Engine.compile
  cases request.raw with
  | none => exact .bind (.say _ _) fun _ => .pure _
  | some raw => exact .bind (.say _ _) fun _ => .pure _

theorem search (type : RecordType R) (store : RecordStore R) (request : Query.Request) :
    Run.Twins a b (e.search type store request) (f.search type store request) := by
  refine .bind (h.execute type request) fun response => .bind (.say _ _) fun _ => ?_
  exact .ite (.pure _) (.bind (.lookUp _ _) fun _ => .bind (.say _ _) fun _ => .pure _)

/-- Whatever is asked of both comes to the same. -/
theorem work (k : Command) : Run.Twins a b (k.work e) (k.work f) := by
  cases k with
  | search type store request => exact h.search type store request
  | paginate type store request perPage page => exact h.search type store _
  | execute type request => exact h.execute type request
  | searchRaw type document => exact h.run type.indexName document
  | update type records =>
    change Run.Twins a b (e.indexer.index type records) (f.indexer.index type records)
    rw [h.indexer_eq]
    exact Indexer.twins_index h.client _ _ type records
  | delete type records =>
    change Run.Twins a b (e.indexer.unindex type records) (f.indexer.unindex type records)
    rw [h.indexer_eq]
    exact Indexer.twins_unindex h.client _ _ type records
  | flush type => exact h.client.deleteIndex type.indexName
  | createIndex name => exact h.client.createIndex name
  | deleteIndex name => exact h.client.deleteIndex name
  | bulk operations => exact h.client.bulk operations

/-- So it is with any number of commands, whatever each of them comes to. -/
theorem serve (commands : List Command) {s t : Session} (hst : s.veiled = t.veiled) :
    TwinEnds a b s t (e.serve commands s) (f.serve commands t) := by
  induction commands generalizing s t with
  | nil => exact ⟨rfl, hst, .of_eq rfl rfl, .of_eq rfl rfl⟩
  | cons k rest ih =>
    obtain ⟨hresult, hveiled, hfirst, hsecond⟩ := h.work k s t hst
    obtain ⟨hlater, hlast, hfirst', hsecond'⟩ := ih hveiled
    have hboth :=
      congrArg₂ (fun x outcomes => (⟨k, x⟩ : Command.Outcome) :: outcomes) hresult hlater
    exact ⟨hboth, hlast, hfirst.trans hfirst', hsecond.trans hsecond'⟩

end Twins
end Engine
end RecordSearch
