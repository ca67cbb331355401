import RecordSearch.Proofs.Bulk.Visit
import RecordSearch.Proofs.Client.Send

/-! What sending operations together leaves behind. -/
namespace RecordSearch.Client
open Json

/-- Sends operations together, and looks for a failure among the outcomes in the order in which
`visit` comes to them. -/
def bulkBy (c : Client) (visit : Bulk.Reply → List Bulk.Item)
    (operations : List Bulk.Operation) : Run Unit := do
  if operations.isEmpty then return
  let (text, reply) ← decoded Bulk.Reply.decode (← c.send (.bulk operations))
  match Bulk.failureAmong reply.errors (visit reply) with
  | some (status, reason) =>
    Run.say .warn ("Bulk request failed (" ++ toString status ++ "): " ++ reason)
    throw (.engine status reason (some text))
  | none => Run.say .debug ("Bulk request applied " ++ toString operations.length ++ " operations")

/-- Outcomes under one item are visited by their keys. -/
theorem bulkBy_outcomes (c : Client) (operations : List Bulk.Operation) :
    c.bulkBy Bulk.Reply.outcomes operations = c.bulk operations :=
  rfl

variable {c : Client} {operations : List Bulk.Operation} {request : Http.Request} {s : Session}
  {status : UInt16} {body : Option (List UInt8)} {text : String} {reply : Bulk.Reply}
  {visit : Bulk.Reply → List Bulk.Item}

private def conclude (count : Nat) (text : String)
    (failure : Option (UInt16 × String)) : Run Unit := do
  match failure with
  | some (status, reason) =>
    Run.say .warn ("Bulk request failed (" ++ toString status ++ "): " ++ reason)
    throw (.engine status reason (some text))
  | none => Run.say .debug ("Bulk request applied " ++ toString count ++ " operations")

section Visit

private theorem result_bulkBy_of_success (hne : operations ≠ [])
    (h : c.request? (.bulk operations) = some request)
    (hp : s.peer (s.calls ++ [.bulk operations]) = .answered status body)
    (hs : Http.isSuccess status = true) :
    (c.bulkBy visit operations).result s =
      (decoded Bulk.Reply.decode (bodyText status body) >>= fun x =>
        conclude operations.length x.1 (Bulk.failureAmong x.2.errors (visit x.2))).result
        ((c.announced (.bulk operations) s).sending (.bulk operations) request) := by
  have hempty : ¬operations.isEmpty = true := by simpa using hne
  unfold bulkBy
  rw [if_neg hempty]
  change ((c.send (.bulk operations)) >>= _).result s = _
  rw [Run.result_bind_ok (result_send_of_success h hp hs)]
  rfl

private theorem result_bulkBy (hne : operations ≠ [])
    (h : c.request? (.bulk operations) = some request)
    (hp : s.peer (s.calls ++ [.bulk operations]) = .answered status body)
    (hs : Http.isSuccess status = true) (ht : bodyText status body = some text)
    (hd : decodeText Bulk.Reply.decode text = .ok reply) :
    (c.bulkBy visit operations).result s =
      (conclude operations.length text (Bulk.failureAmong reply.errors (visit reply))).result
      ((c.announced (.bulk operations) s).sending (.bulk operations) request) := by
  rw [result_bulkBy_of_success hne h hp hs, Run.result_bind_ok (result_decoded ht hd _)]

/-- An answer that reports no failure is a success. -/
theorem result_bulkBy_of_none (hne : operations ≠ [])
    (h : c.request? (.bulk operations) = some request)
    (hp : s.peer (s.calls ++ [.bulk operations]) = .answered status body)
    (hs : Http.isSuccess status = true) (ht : bodyText status body = some text)
    (hd : decodeText Bulk.Reply.decode text = .ok reply)
    (hf : Bulk.failureAmong reply.errors (visit reply) = none) :
    ((c.bulkBy visit operations).result s).1 = .ok () ∧
    ((c.bulkBy visit operations).result s).2.exchanges =
      s.exchanges ++ [⟨.bulk operations, request⟩] := by
  rw [result_bulkBy hne h hp hs ht hd, hf]
  exact ⟨rfl, rfl⟩

/-- The first failure that an answer reports is the error, with the text of the whole answer. -/
theorem result_bulkBy_of_some (hne : operations ≠ [])
    (h : c.request? (.bulk operations) = some request)
    (hp : s.peer (s.calls ++ [.bulk operations]) = .answered status body)
    (hs : Http.isSuccess status = true) (ht : bodyText status body = some text)
    (hd : decodeText Bulk.Reply.decode text = .ok reply) {code : UInt16} {reason : String}
    (hf : Bulk.failureAmong reply.errors (visit reply) = some (code, reason)) :
    ((c.bulkBy visit operations).result s).1 = .error (.engine code reason (some text)) ∧
    ((c.bulkBy visit operations).result s).2.exchanges =
      s.exchanges ++ [⟨.bulk operations, request⟩] := by
  rw [result_bulkBy hne h hp hs ht hd, hf]
  exact ⟨rfl, rfl⟩

/-- What fails before there is an answer to read is the error. -/
theorem result_bulkBy_of_error {e : Error} {t : Session} (hne : operations ≠ [])
    (h : (c.send (.bulk operations)).result s = (.error e, t)) :
    (c.bulkBy visit operations).result s = (.error e, t) := by
  have hempty : ¬operations.isEmpty = true := by simpa using hne
  unfold bulkBy
  rw [if_neg hempty]
  change (c.send (.bulk operations) >>= _).result s = _
  rw [Run.result_bind_error h]

/-- An answer that does not arrive whole or cannot be read is an error, though the request was a
success. -/
theorem result_bulkBy_of_unread {e : Error} (hne : operations ≠ [])
    (h : c.request? (.bulk operations) = some request)
    (hp : s.peer (s.calls ++ [.bulk operations]) = .answered status body)
    (hs : Http.isSuccess status = true)
    (hd : ∀ t, (decoded Bulk.Reply.decode (bodyText status body)).result t = (.error e, t)) :
    (c.bulkBy visit operations).result s =
      (.error e, (c.announced (.bulk operations) s).sending (.bulk operations) request) := by
  rw [result_bulkBy_of_success hne h hp hs, Run.result_bind_error (hd _)]

end Visit

theorem result_bulk_of_none (hne : operations ≠ [])
    (h : c.request? (.bulk operations) = some request)
    (hp : s.peer (s.calls ++ [.bulk operations]) = .answered status body)
    (hs : Http.isSuccess status = true) (ht : bodyText status body = some text)
    (hd : decodeText Bulk.Reply.decode text = .ok reply) (hf : reply.firstFailure = none) :
    ((c.bulk operations).result s).1 = .ok () ∧
    ((c.bulk operations).result s).2.exchanges =
      s.exchanges ++ [⟨.bulk operations, request⟩] := by
  rw [← bulkBy_outcomes]
  exact result_bulkBy_of_none hne h hp hs ht hd hf

theorem result_bulk_of_some (hne : operations ≠ [])
    (h : c.request? (.bulk operations) = some request)
    (hp : s.peer (s.calls ++ [.bulk operations]) = .answered status body)
    (hs : Http.isSuccess status = true) (ht : bodyText status body = some text)
    (hd : decodeText Bulk.Reply.decode text = .ok reply) {code : UInt16} {reason : String}
    (hf : reply.firstFailure = some (code, reason)) :
    ((c.bulk operations).result s).1 = .error (.engine code reason (some text)) ∧
    ((c.bulk operations).result s).2.exchanges =
      s.exchanges ++ [⟨.bulk operations, request⟩] := by
  rw [← bulkBy_outcomes]
  exact result_bulkBy_of_some hne h hp hs ht hd hf

theorem result_bulk_of_error {e : Error} {t : Session} (hne : operations ≠ [])
    (h : (c.send (.bulk operations)).result s = (.error e, t)) :
    ((c.bulk operations).result s).1 = .error e := by
  rw [← bulkBy_outcomes, result_bulkBy_of_error hne h]

theorem result_bulk_of_cut (hne : operations ≠ [])
    (h : c.request? (.bulk operations) = some request)
    (hp : s.peer (s.calls ++ [.bulk operations]) = .answered status body)
    (hs : Http.isSuccess status = true) (ht : bodyText status body = none) :
    ((c.bulk operations).result s).1 = .error .transport := by
  rw [← bulkBy_outcomes, result_bulkBy_of_unread hne h hp hs (result_decoded_of_cut ht)]

theorem result_bulk_of_fault {fault : Fault} (hne : operations ≠ [])
    (h : c.request? (.bulk operations) = some request)
    (hp : s.peer (s.calls ++ [.bulk operations]) = .answered status body)
    (hs : Http.isSuccess status = true) (ht : bodyText status body = some text)
    (hd : decodeText Bulk.Reply.decode text = .error fault) :
    ((c.bulk operations).result s).1 = .error (.invalidResponse fault) := by
  rw [← bulkBy_outcomes, result_bulkBy_of_unread hne h hp hs (result_decoded_of_fault ht hd)]

end RecordSearch.Client
