import RecordSearch.Proofs.Client.Failure
import RecordSearch.Proofs.Indexer.Operations

/-! Batches sent as one request after another, up to the first that fails. -/
namespace RecordSearch

namespace Session
variable {s t : Session} {c : Client} {before rest : List Call} {call : Call}

/-- A call made when others have gone out goes out too and is answered by a success, whatever the
body. -/
def Succeeds (s : Session) (c : Client) (before : List Call) (call : Call) : Prop :=
  ∃ request status body, c.request? call = some request ∧
    s.peer (s.calls ++ before ++ [call]) = .answered status body ∧
    Http.isSuccess status = true

def SucceedsAll (s : Session) (c : Client) (calls : List Call) : Prop :=
  ∀ before call, before ++ [call] <+: calls → s.Succeeds c before call

/-- What is made of later calls does not depend on whether an earlier one counts as made in the
session or as one of them. -/
theorem succeeds_cons_iff (hp : t.peer = s.peer) (hc : t.calls = s.calls ++ [call]) (x : Call) :
    s.Succeeds c (call :: before) x ↔ t.Succeeds c before x := by
  rw [Succeeds, Succeeds, hp, hc, List.append_assoc s.calls [call] before, List.singleton_append]

theorem succeedsAll_cons_iff (hp : t.peer = s.peer) (hc : t.calls = s.calls ++ [call]) :
    s.SucceedsAll c (call :: rest) ↔ s.Succeeds c [] call ∧ t.SucceedsAll c rest := by
  constructor
  · intro h
    refine ⟨h [] call (by simp), fun front x hx => ?_⟩
    rw [← succeeds_cons_iff hp hc]
    exact h (call :: front) x (List.cons_prefix_cons.2 ⟨rfl, hx⟩)
  · rintro ⟨hfirst, hrest⟩ front x hx
    cases front with
    | nil =>
      obtain ⟨rfl, -⟩ := List.cons_prefix_cons.1 hx
      exact hfirst
    | cons d front =>
      obtain ⟨rfl, hfront⟩ := List.cons_prefix_cons.1 hx
      exact (succeeds_cons_iff hp hc x).2 (hrest front x hfront)

end Session

namespace Client
variable {c : Client} {s : Session} {calls before : List Call} {call : Call}

/-- How calls made one after another end: all of them succeed, or the first that does not succeed
ends them with its error. -/
inductive Ends (c : Client) (s : Session) (calls : List Call) : Except Error Unit → Session → Prop
  | whole {sent : List Exchange} {t : Session} (hall : s.SucceedsAll c calls)
      (hx : t.exchanges = s.exchanges ++ sent) (hsent : List.Forall₂ c.Exchanges calls sent)
      (hl : t.summaries = s.summaries) : Ends c s calls (.ok ()) t
  | halted {before : List Call} {call : Call} {e : Error} {gone : List Call} {sent : List Exchange}
      {t : Session} (hp : before ++ [call] <+: calls) (hbefore : s.SucceedsAll c before)
      (hf : c.Fails call (s.peer (s.calls ++ before ++ [call])) e gone)
      (hx : t.exchanges = s.exchanges ++ sent)
      (hsent : List.Forall₂ c.Exchanges (before ++ gone) sent)
      (hl : t.summaries = s.summaries) : Ends c s calls (.error e) t

theorem Ends.summaries {x : Except Error Unit} {t : Session}
    (h : Ends c s calls x t) : t.summaries = s.summaries := by
  cases h <;> assumption

/-- A call that succeeds passes its turn on to the calls after it. -/
theorem Ends.cons {x : Except Error Unit} {t u : Session} {request : Http.Request}
    (hr : c.request? call = some request) (hfirst : s.Succeeds c [] call) (hp : t.peer = s.peer)
    (hx : t.exchanges = s.exchanges ++ [⟨call, request⟩]) (hl : t.summaries = s.summaries)
    (h : Ends c t calls x u) : Ends c s (call :: calls) x u := by
  have hc : t.calls = s.calls ++ [call] := by simp [Session.calls, hx]
  have hone := exchanges_mk hr
  cases h with
  | whole hall hu hsent hlu =>
    refine .whole ((Session.succeedsAll_cons_iff hp hc).2 ⟨hfirst, hall⟩) ?_ (.cons hone hsent)
      (hlu.trans hl)
    rw [hu, hx, List.append_assoc, List.singleton_append]
  | halted hpre hbefore hf hu hsent hlu =>
    refine .halted (List.cons_prefix_cons.2 ⟨rfl, hpre⟩)
      ((Session.succeedsAll_cons_iff hp hc).2 ⟨hfirst, hbefore⟩) ?_ ?_ (.cons hone hsent)
      (hlu.trans hl)
    · rw [hp, hc] at hf
      simpa using hf
    · rw [hu, hx, List.append_assoc, List.singleton_append]

end Client

namespace Indexer
variable {R : Type}

variable {i : Indexer} (type : RecordType R) (records : List R)

def target : List R → String
  | [] => ""
  | first :: _ => type.index first

end Indexer

end RecordSearch
