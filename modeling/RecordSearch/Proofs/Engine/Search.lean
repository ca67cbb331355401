import RecordSearch.Engine
import RecordSearch.Proofs.Client.Search
import RecordSearch.Proofs.Response.RankOrder

/-! What a search comes to, from the request to the records. -/
namespace RecordSearch.Engine
open Json
variable {R : Type} {e : Engine} {type : RecordType R} {store : RecordStore R}
  {request : Query.Request} {s t : Session} {answer : Response.Search} {fetched : List R}

def document (e : Engine) (type : RecordType R) (request : Query.Request) : Value :=
  Query.compile e.settings.query type.fields request

def compiled (e : Engine) (type : RecordType R) (request : Query.Request) (s : Session) : Session :=
  s.reporting .debug (if request.raw.isSome then "Using raw query document"
    else "Compiled query document: " ++ (e.document type request).text)

/-- Compiling leaves nothing behind but a line of the log. -/
theorem result_compile (e : Engine) (type : RecordType R) (request : Query.Request) (s : Session) :
    (e.compile type request).result s =
      (.ok (e.document type request), e.compiled type request s) := by
  unfold compile compiled
  cases request.raw <;> rfl

/-- A replacement of the engine's search is handed the query document and nothing is sent. -/
theorem result_run_custom {f : List Execution → Except Error Response.Search} {target : String}
    {document : Value} (he : e.executor = .custom f)
    (ha : f (s.executions ++ [⟨target, document⟩]) = .ok answer) :
    (e.run target document).result s =
      (.ok answer, { s with executions := s.executions ++ [⟨target, document⟩] }) := by
  unfold run
  rw [he]
  dsimp only
  rw [Run.result_bind, Run.result_modifyGet]
  dsimp only
  rw [ha]
  rfl

/-- A query document that cannot be run ends the search. -/
theorem result_search_of_error {error : Error}
    (hrun : (e.run type.indexName (e.document type request)).result (e.compiled type request s) =
        (.error error, t)) :
    (e.search type store request).result s = (.error error, t) := by
  have hexecute : (e.execute type request).result s = (.error error, t) := by
    unfold execute
    rw [Run.result_bind_ok (result_compile ..), hrun]
  unfold search
  rw [Run.result_bind_error hexecute]

def matched (type : RecordType R) (answer : Response.Search) (s : Session) : Session :=
  s.reporting .debug ("Search on " ++ type.indexName ++ " matched " ++
    toString answer.totalCount ++ " documents")

/-- A search is running the compiled request and reconciling the answer. -/
theorem result_search_of_ok
    (hrun : (e.run type.indexName (e.document type request)).result (e.compiled type request s) =
        (.ok answer, t)) :
    (e.search type store request).result s =
      (Response.reconcile type store answer).result (matched type answer t) := by
  have hexecute : (e.execute type request).result s = (.ok answer, t) := by
    unfold execute
    rw [Run.result_bind_ok (result_compile ..), hrun]
  unfold search
  rw [Run.result_bind_ok hexecute, Run.result_bind_ok (Run.result_say ..)]
  rfl

theorem result_search
    (hrun : (e.run type.indexName (e.document type request)).result (e.compiled type request s) =
        (.ok answer, t))
    (hf : answer.ids ≠ [] → store answer.ids = .ok fetched) :
    ∃ u, (e.search type store request).result s =
      (.ok ⟨Response.inRankOrder type.key answer.ids fetched, answer.totalCount,
        answer.totalIsExact⟩, u) ∧ u.peer = t.peer := by
  obtain ⟨u, hreconcile, hu⟩ := Response.result_reconcile hf (matched type answer t)
  exact ⟨u, (result_search_of_ok hrun).trans hreconcile, hu⟩

end RecordSearch.Engine
