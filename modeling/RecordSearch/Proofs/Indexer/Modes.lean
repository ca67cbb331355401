import RecordSearch.Proofs.Bulk.Written
import RecordSearch.Proofs.Client.Bulk
import RecordSearch.Proofs.Indexer.Operations

/-! Batches sent as one request and as many ask for the same. -/
namespace RecordSearch
open Json

/-- Calls to come, made one after another, are all answered by successes. -/
def Session.Accepts (s : Session) (calls : List Call) : Prop :=
  ∀ k < calls.length,
    ∃ status body, s.peer (s.calls ++ calls.take (k + 1)) = .answered status body ∧
    Http.isSuccess status = true

/-- Operations to come, sent together, are answered by a success that reports no failure. -/
def Session.AcceptsTogether (s : Session) (operations : List Bulk.Operation) : Prop :=
  ∃ status body text reply, s.peer (s.calls ++ [.bulk operations]) = .answered status body ∧
    Http.isSuccess status = true ∧
    Client.bodyText status body = some text ∧ decodeText Bulk.Reply.decode text = .ok reply ∧
    reply.firstFailure = none

theorem Session.Agrees.accepts {s t : Session} (h : t.Agrees s) {calls : List Call}
    (ha : s.Accepts calls) : t.Accepts calls := by
  intro k hk
  rw [h.peer, h.calls]
  exact ha k hk

theorem Session.Agrees.acceptsTogether {s t : Session} (h : t.Agrees s)
    {operations : List Bulk.Operation} (ha : s.AcceptsTogether operations) :
    t.AcceptsTogether operations := by
  unfold Session.AcceptsTogether
  rw [h.peer, h.calls]
  exact ha

namespace Client
variable {c : Client} {u : Url}

/-- Operations that are all accepted are all sent, one by one and in order. -/
theorem each_of_accepts (h : c.IsFor u) (hs : u.Sendable) {operations : List Bulk.Operation}
    {s : Session} (ha : s.Accepts (operations.map (·.call))) :
    ((c.each operations).result s).1 = .ok () ∧
    ((c.each operations).result s).2.calls = s.calls ++ operations.map (·.call) := by
  induction operations generalizing s with
  | nil => exact ⟨rfl, by simp [each_nil]⟩
  | cons o operations ih =>
    obtain ⟨request, hr⟩ := exists_request h hs o.call
    obtain ⟨status, body, hp, hstatus⟩ := ha 0 (by simp)
    have hsend := result_send_of_success (s := s) hr hp hstatus
    have hrest : ((c.announced o.call s).sending o.call request).Accepts
        (operations.map (·.call)) := by
      intro k hk
      obtain ⟨status, body, hp, hstatus⟩ := ha (k + 1) (by simpa using hk)
      exact ⟨status, body, by simpa using hp, hstatus⟩
    obtain ⟨hok, hcalls⟩ := ih hrest
    rw [result_each_of_ok c hsend]
    exact ⟨hok, by simp [hcalls]⟩

end Client

namespace Indexer
variable {R : Type} {i : Indexer} {work : Run Unit} {operations : List Bulk.Operation} {s : Session}

theorem Does.of_accepts {u : Url} (h : i.Does work operations) (hb : i.bulk = false)
    (hc : i.client.IsFor u) (hs : u.Sendable) (ha : s.Accepts (operations.map (·.call))) :
    (work.result s).1 = .ok () ∧ (work.result s).2.calls = s.calls ++ operations.map (·.call) := by
  obtain ⟨t, ht, hok, hagrees⟩ := h s
  rw [carryOut_of_single hb] at hok hagrees
  obtain ⟨heach, hcalls⟩ := Client.each_of_accepts hc hs (ht.accepts ha)
  exact ⟨hok.trans heach, by rw [hagrees.calls, hcalls, ht.calls]⟩

theorem Does.of_acceptsTogether {u : Url} (h : i.Does work operations) (hb : i.bulk = true)
    (hc : i.client.IsFor u) (hs : u.Sendable) (hne : operations ≠ [])
    (ha : s.AcceptsTogether operations) :
    (work.result s).1 = .ok () ∧
    ∃ r, (work.result s).2.exchanges = s.exchanges ++ [⟨.bulk operations, r⟩] ∧
      r.body = Bulk.text operations := by
  obtain ⟨t, ht, hok, hagrees⟩ := h s
  rw [carryOut_of_bulk hb] at hok hagrees
  obtain ⟨request, hr⟩ := Client.exists_request hc hs (.bulk operations)
  obtain ⟨status, body, text, reply, hp, hstatus, htext, hd, hf⟩ := ht.acceptsTogether ha
  obtain ⟨hbulk, hx⟩ := Client.result_bulk_of_none hne hr hp hstatus htext hd hf
  refine ⟨hok.trans hbulk, request, by rw [hagrees.exchanges, hx, ht.exchanges], ?_⟩
  obtain ⟨v, -, rfl⟩ := Option.map_eq_some_iff.1 hr
  rfl

end Indexer

end RecordSearch
