import RecordSearch.Proofs.Client.Target
import RecordSearch.Proofs.Run

/-! What sending a call leaves behind. -/
namespace RecordSearch.Client
variable {c : Client} {call : Call} {request : Http.Request} {s : Session}

def announced (c : Client) (call : Call) (s : Session) : Session :=
  s.reporting .debug (call.method.name ++ " " ++ c.url call.segments)

@[simp] theorem announced_peer : (c.announced call s).peer = s.peer := rfl
@[simp] theorem announced_exchanges : (c.announced call s).exchanges = s.exchanges := rfl
@[simp] theorem announced_calls : (c.announced call s).calls = s.calls := rfl

/-- A call without an address is not sent. -/
theorem result_send_of_none (h : c.request? call = none) :
    (c.send call).result s = (.error .transport, c.announced call s) := by
  unfold send
  rw [Run.result_bind_ok (Run.result_say ..), h]
  rfl

private def settle : Http.Outcome → Run (Option String)
  | .unreachable => throw .transport
  | .dropped => throw .transport
  | .answered status body => do
    if Http.isSuccess status then return bodyText status body
    Run.say .warn ((refusal status (bodyText status body)).message?.getD "")
    throw (refusal status (bodyText status body))

private theorem result_send_of_exchange (h : c.request? call = some request)
    {outcome : Http.Outcome} {t : Session}
    (hx : (Run.exchange call request).result (c.announced call s) = (.ok outcome, t)) :
    (c.send call).result s = (settle outcome).result t := by
  have hsay : (Run.say .debug (call.method.name ++ " " ++ c.url call.segments)).result s =
      (.ok (), c.announced call s) := rfl
  unfold send
  rw [Run.result_bind_ok hsay, h]
  change (Run.exchange call request >>= _).result _ = _
  rw [Run.result_bind_ok hx]
  rfl

theorem result_send_of_unreachable (h : c.request? call = some request)
    (hp : s.peer (s.calls ++ [call]) = .unreachable) :
    (c.send call).result s = (.error .transport, c.announced call s) :=
  result_send_of_exchange h (Run.result_exchange_unreachable request hp)

private theorem result_exchange_of_eq {outcome : Http.Outcome}
    (hp : s.peer (s.calls ++ [call]) = outcome) (ho : outcome ≠ .unreachable) :
    (Run.exchange call request).result (c.announced call s) =
      (.ok outcome, (c.announced call s).sending call request) := by
  subst hp
  exact Run.result_exchange (s := c.announced call s) request ho

theorem result_send_of_dropped (h : c.request? call = some request)
    (hp : s.peer (s.calls ++ [call]) = .dropped) :
    (c.send call).result s = (.error .transport, (c.announced call s).sending call request) :=
  result_send_of_exchange h (result_exchange_of_eq hp nofun)

variable {status : UInt16} {body : Option (List UInt8)}

theorem result_send_of_success (h : c.request? call = some request)
    (hp : s.peer (s.calls ++ [call]) = .answered status body) (hs : Http.isSuccess status = true) :
    (c.send call).result s =
      (.ok (bodyText status body), (c.announced call s).sending call request) := by
  rw [result_send_of_exchange h (result_exchange_of_eq hp nofun), settle, if_pos hs]
  rfl

def refused (c : Client) (call : Call) (request : Http.Request) (error : Error)
    (s : Session) : Session :=
  ((c.announced call s).sending call request).reporting .warn (error.message?.getD "")

/-- Anything but a success is reported, and is the error. -/
theorem result_send_of_refusal (h : c.request? call = some request)
    (hp : s.peer (s.calls ++ [call]) = .answered status body) (hs : Http.isSuccess status = false) :
    (c.send call).result s =
      (.error (refusal status (bodyText status body)),
        c.refused call request (refusal status (bodyText status body)) s) := by
  rw [result_send_of_exchange h (result_exchange_of_eq hp nofun), settle, hs, if_neg (by decide),
    Run.result_bind_ok (Run.result_say ..)]
  rfl

/-- A call that succeeds has gone out once and has been answered by a success; one that fails has
gone out at most once. -/
theorem send_cases (c : Client) (call : Call) (s : Session) :
    (∃ request status body, c.request? call = some request ∧
      s.peer (s.calls ++ [call]) = .answered status body ∧
      Http.isSuccess status = true ∧
      (c.send call).result s =
        (.ok (bodyText status body), (c.announced call s).sending call request)) ∨
    ∃ e t, (c.send call).result s = (.error e, t) ∧ t.peer = s.peer ∧
      (t.exchanges = s.exchanges ∨
        ∃ request, c.request? call = some request ∧
          t.exchanges = s.exchanges ++ [⟨call, request⟩]) := by
  cases hr : c.request? call with
  | none => exact .inr ⟨_, _, result_send_of_none hr, rfl, .inl rfl⟩
  | some request =>
    cases hp : s.peer (s.calls ++ [call]) with
    | unreachable => exact .inr ⟨_, _, result_send_of_unreachable hr hp, rfl, .inl rfl⟩
    | dropped => exact .inr ⟨_, _, result_send_of_dropped hr hp, rfl, .inr ⟨request, rfl, rfl⟩⟩
    | answered status body =>
      cases hs : Http.isSuccess status with
      | true => exact .inl ⟨request, status, body, rfl, rfl, hs, result_send_of_success hr hp hs⟩
      | false => exact .inr ⟨_, _, result_send_of_refusal hr hp hs, rfl, .inr ⟨request, rfl, rfl⟩⟩

/-- A call that reaches the other side goes out as its own request, whatever comes back. -/
theorem send_exchanges (h : c.request? call = some request)
    (hp : s.peer (s.calls ++ [call]) ≠ .unreachable) :
    ((c.send call).result s).2.exchanges = s.exchanges ++ [⟨call, request⟩] := by
  cases ho : s.peer (s.calls ++ [call]) with
  | unreachable => exact absurd ho hp
  | dropped =>
    rw [result_send_of_dropped h ho]
    rfl
  | answered status body =>
    cases hs : Http.isSuccess status with
    | true =>
      rw [result_send_of_success h ho hs]
      rfl
    | false =>
      rw [result_send_of_refusal h ho hs]
      rfl

/-- Where the result is not looked at, the session is that of the call. -/
theorem result_discard (c : Client) (call : Call) (s : Session) :
    ((do let _ ← c.send call : Run Unit).result s).2 = ((c.send call).result s).2 := by
  rcases h : (c.send call).result s with ⟨e | text, t⟩
  · rw [Run.result_bind_error h]
  · rw [Run.result_bind_ok h]
    rfl

section Decoded
variable {α : Type} {p : Json.Decoder α} {answer : Option String} {text : String}

theorem result_decoded {x : α} (ht : answer = some text) (hd : Json.decodeText p text = .ok x)
    (s : Session) :
    (decoded p answer).result s = (.ok (text, x), s) := by
  rw [ht, decoded, hd]
  rfl

theorem result_decoded_of_cut (ht : answer = none) (s : Session) :
    (decoded p answer).result s = (.error .transport, s) := by
  rw [ht, decoded]
  rfl

theorem result_decoded_of_fault {fault : Json.Fault} (ht : answer = some text)
    (hd : Json.decodeText p text = .error fault) (s : Session) :
    (decoded p answer).result s = (.error (.invalidResponse fault), s) := by
  rw [ht, decoded, hd]
  rfl

end Decoded

end RecordSearch.Client
