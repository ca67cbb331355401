import Mathlib.Data.List.Forall2
import RecordSearch.Session

/-! Work in a session, followed one step after another. -/
namespace RecordSearch

namespace Session

def calls (s : Session) : List Call := s.exchanges.map (·.call)

def reporting (s : Session) (level : Log.Level) (message : String) : Session :=
  { s with log := s.log ++ [⟨level, message⟩] }

def sending (s : Session) (call : Call) (request : Http.Request) : Session :=
  { s with exchanges := s.exchanges ++ [⟨call, request⟩] }

variable (s : Session) (level : Log.Level) (message : String) (call : Call) (request : Http.Request)

@[simp] theorem reporting_peer : (s.reporting level message).peer = s.peer := rfl
@[simp] theorem reporting_exchanges : (s.reporting level message).exchanges = s.exchanges := rfl

@[simp] theorem sending_peer : (s.sending call request).peer = s.peer := rfl
@[simp] theorem sending_exchanges :
    (s.sending call request).exchanges = s.exchanges ++ [⟨call, request⟩] := rfl

@[simp] theorem sending_calls : (s.sending call request).calls = s.calls ++ [call] := by
  simp [calls]

end Session

namespace Run
variable {α β R : Type}

/-- What work comes to when it starts in a session, and the session it leaves behind. -/
def result (x : Run α) (s : Session) : Except Error α × Session := StateT.run (ExceptT.run x) s

@[simp] theorem result_pure (a : α) (s : Session) : (pure a : Run α).result s = (.ok a, s) := rfl

/-- Work after a failure is not begun. -/
theorem result_bind (x : Run α) (f : α → Run β) (s : Session) :
    (x >>= f).result s = match x.result s with
      | (.ok a, t) => (f a).result t
      | (.error e, t) => (.error e, t) := by
  rcases h : x.result s with ⟨a | e, t⟩ <;>
    simp only [result, ExceptT.run_bind, StateT.run_bind] at h ⊢ <;> rw [h] <;> rfl

theorem result_bind_ok {x : Run α} {s t : Session} {a : α} (h : x.result s = (.ok a, t))
    (f : α → Run β) :
    (x >>= f).result s = (f a).result t := by
  rw [result_bind, h]

theorem result_bind_error {x : Run α} {s t : Session} {e : Error} (h : x.result s = (.error e, t))
    (f : α → Run β) :
    (x >>= f).result s = (.error e, t) := by
  rw [result_bind, h]

@[simp] theorem result_say (level : Log.Level) (message : String) (s : Session) :
    (say level message).result s = (.ok (), s.reporting level message) := rfl

theorem result_modifyGet (f : Session → α × Session) (s : Session) :
    (modifyGet f : Run α).result s = (.ok (f s).1, (f s).2) := rfl

/-- What is not sent leaves no trace. -/
theorem result_exchange_unreachable {call : Call} {s : Session} (request : Http.Request)
    (h : s.peer (s.calls ++ [call]) = .unreachable) :
    (exchange call request).result s = (.ok .unreachable, s) := by
  unfold Session.calls at h
  rw [exchange, result_modifyGet]
  simp only [h]

theorem result_exchange {call : Call} {s : Session} (request : Http.Request)
    (h : s.peer (s.calls ++ [call]) ≠ .unreachable) :
    (exchange call request).result s =
      (.ok (s.peer (s.calls ++ [call])), s.sending call request) := by
  unfold Session.calls at h ⊢
  rw [exchange, result_modifyGet]
  cases hp : s.peer (s.exchanges.map (·.call) ++ [call]) with
  | unreachable => contradiction
  | dropped => rfl
  | answered status body => rfl

theorem result_lookUp_ok {store : RecordStore R} {ids : List String} {records : List R}
    (h : store ids = .ok records) (s : Session) :
    (lookUp store ids).result s = (.ok records, { s with lookups := s.lookups ++ [ids] }) := by
  rw [lookUp, result_bind, result_modifyGet]
  simp only [h, result_pure]

theorem result_lookUp_error {store : RecordStore R} {ids : List String} {cause : String}
    (h : store ids = .error cause) (s : Session) :
    (lookUp store ids).result s =
      (.error (.store cause), { s with lookups := s.lookups ++ [ids] }) := by
  rw [lookUp, result_bind, result_modifyGet]
  simp only [h]
  rfl

/-- Work on item after item succeeds where each step does in every session of a kind, and leaves a
session of that kind behind. -/
theorem result_mapM {P : Session → Prop} {Q : α → β → Prop} {f : α → Run β} {xs : List α}
    (step : ∀ x ∈ xs, ∀ s, P s → ∃ y t, (f x).result s = (.ok y, t) ∧ P t ∧ Q x y) {s : Session}
    (hs : P s) :
    ∃ ys t, (xs.mapM f).result s = (.ok ys, t) ∧ P t ∧ List.Forall₂ Q xs ys := by
  induction xs generalizing s with
  | nil => exact ⟨[], s, rfl, hs, .nil⟩
  | cons x xs ih =>
    obtain ⟨y, t, hy, ht, hq⟩ := step x List.mem_cons_self s hs
    obtain ⟨ys, u, hys, hu, hqs⟩ := ih (fun z hz => step z (List.mem_cons_of_mem _ hz)) ht
    refine ⟨y :: ys, u, ?_, hu, .cons hq hqs⟩
    rw [List.mapM_cons, result_bind_ok hy, result_bind_ok hys, result_pure]

end Run
end RecordSearch
