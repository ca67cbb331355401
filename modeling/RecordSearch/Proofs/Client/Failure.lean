import RecordSearch.Proofs.Client.Send

/-! How calls fail, and what has gone out when they do. -/
namespace RecordSearch

namespace Session

def summaries (s : Session) : List Log.Line := s.log.filter (·.level = .info)

theorem summaries_reporting (s : Session) (level : Log.Level) (message : String) :
    (s.reporting level message).summaries =
      s.summaries ++ if level = .info then [⟨level, message⟩] else [] := by
  rw [summaries, reporting, List.filter_append, summaries]
  cases level <;> rfl

@[simp] theorem summaries_sending (s : Session) (call : Call) (request : Http.Request) :
    (s.sending call request).summaries = s.summaries := rfl

end Session

namespace Client
variable {c : Client} {call : Call} {request : Http.Request} {s : Session}

@[simp] theorem announced_summaries : (c.announced call s).summaries = s.summaries := by
  rw [announced, Session.summaries_reporting, if_neg (by decide), List.append_nil]

@[simp] theorem refused_summaries (error : Error) :
    (c.refused call request error s).summaries = s.summaries := by
  rw [refused, Session.summaries_reporting, if_neg (by decide), List.append_nil,
    Session.summaries_sending, announced_summaries]

/-- A call is one half of an exchange; the other half is its own request. -/
def Exchanges (c : Client) (call : Call) (x : Exchange) : Prop :=
  x.call = call ∧ c.request? call = some x.request

theorem exchanges_mk (h : c.request? call = some request) : c.Exchanges call ⟨call, request⟩ :=
  ⟨rfl, h⟩

/-- A call fails at what becomes of it, with an error; and this has gone out by then. Nothing goes
out without an address or a connection, and nothing comes back then or when the connection is
closed. Any other failure is told with the status and the text of the answer. -/
inductive Fails (c : Client) (call : Call) : Http.Outcome → Error → List Call → Prop
  | unaddressed {outcome : Http.Outcome} (h : c.request? call = none) :
      Fails c call outcome .transport []
  | unreachable : Fails c call .unreachable .transport []
  | dropped {request : Http.Request} (h : c.request? call = some request) :
      Fails c call .dropped .transport [call]
  | refused {request : Http.Request} {status : UInt16} {body : Option (List UInt8)}
      {reason : String} (h : c.request? call = some request) (hs : Http.isSuccess status = false)
      (hr : refusal status (bodyText status body) = .engine status reason (bodyText status body)) :
      Fails c call (.answered status body) (.engine status reason (bodyText status body)) [call]

end Client
end RecordSearch
