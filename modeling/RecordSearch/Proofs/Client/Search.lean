import RecordSearch.Proofs.Client.Failure

/-! What running a query document leaves behind. -/
namespace RecordSearch.Client
open Json
variable {c : Client} {target : String} {document : Value} {request : Http.Request} {s : Session}
  {status : UInt16} {body : Option (List UInt8)} {text : String} {answer : Response.Search}

def searched (c : Client) (target : String) (document : Value) (request : Http.Request)
    (answer : Response.Search) (s : Session) : Session :=
  ((c.announced (.search target document) s).sending (.search target document) request).reporting
    .debug ("Search on " ++ target ++ " returned " ++ toString answer.hits.hits.length ++ " hits")

/-- An answer that can be read is the result. -/
theorem result_search (h : c.request? (.search target document) = some request)
    (hp : s.peer (s.calls ++ [.search target document]) = .answered status body)
    (hs : Http.isSuccess status = true) (ht : bodyText status body = some text)
    (hd : decodeText Response.Search.decode text = .ok answer) :
    (c.search target document).result s =
      (.ok answer, c.searched target document request answer s) := by
  unfold search
  rw [Run.result_bind_ok (result_send_of_success h hp hs),
    Run.result_bind_ok (result_decoded ht hd _), Run.result_bind_ok (Run.result_say ..)]
  rfl

/-- A call that is not answered by a success ends the search. -/
theorem result_search_of_error {e : Error} {t : Session}
    (h : (c.send (.search target document)).result s = (.error e, t)) :
    (c.search target document).result s = (.error e, t) := by
  unfold search
  rw [Run.result_bind_error h]

/-- So does a success whose text does not arrive whole or cannot be read. -/
theorem result_search_of_unread {e : Error}
    (h : c.request? (.search target document) = some request)
    (hp : s.peer (s.calls ++ [.search target document]) = .answered status body)
    (hs : Http.isSuccess status = true)
    (hd : ∀ t, (decoded Response.Search.decode (bodyText status body)).result t = (.error e, t)) :
    (c.search target document).result s =
      (.error e,
        (c.announced (.search target document) s).sending (.search target document) request) := by
  unfold search
  rw [Run.result_bind_ok (result_send_of_success h hp hs), Run.result_bind_error (hd _)]

end RecordSearch.Client
