import RecordSearch.Proofs.Bulk.Written
import RecordSearch.Proofs.Client.Bulk

/-! What the success of operations sent together says about each of them. -/
namespace RecordSearch
open Json

namespace Bulk

/-- An item that acknowledges an operation: it holds an outcome, and none that is not a success. -/
def Acknowledges (item : KeyMap Item) : Prop :=
  item.entries ≠ [] ∧ ∀ e ∈ item.entries, Http.isSuccess e.2.status = true ∧ e.2.error = none

namespace Reply

def AcknowledgesAll (r : Reply) (operations : List Operation) : Prop :=
  r.items.length = operations.length ∧ ∀ item ∈ r.items, Acknowledges item

/-- There is one item for each operation, and something in it. -/
def Covers (r : Reply) (operations : List Operation) : Prop :=
  r.items.length = operations.length ∧ ∀ item ∈ r.items, item.entries ≠ []

variable {r : Reply} {operations : List Operation}

/-- Where no failure is reported, operations are acknowledged just by being covered. -/
theorem acknowledgesAll_iff_covers (h : ¬r.Fails) :
    r.AcknowledgesAll operations ↔ r.Covers operations := by
  refine and_congr_right fun _ => forall₂_congr fun item hitem => and_iff_left fun e he => ?_
  exact Classical.not_not.1 fun hn => h (.inr ⟨item, hitem, e, he, hn⟩)

end Reply
end Bulk

/-- Operations that are sent together are answered by a success, and the answer can be read as a
reply. -/
def Session.Replies (s : Session) (c : Client) (operations : List Bulk.Operation)
    (reply : Bulk.Reply) : Prop :=
  ∃ request status body text, c.request? (.bulk operations) = some request ∧
    s.peer (s.calls ++ [.bulk operations]) = .answered status body ∧ Http.isSuccess status = true ∧
    Client.bodyText status body = some text ∧ decodeText Bulk.Reply.decode text = .ok reply

namespace Client
variable {c : Client} {operations : List Bulk.Operation} {s : Session} {reply : Bulk.Reply}

theorem bulk_of_replies (hne : operations ≠ []) (h : s.Replies c operations reply) :
    ((c.bulk operations).result s).1 = .ok () ↔ ¬reply.Fails := by
  obtain ⟨request, status, body, text, hr, hp, hs, ht, hd⟩ := h
  rw [← Bulk.Reply.firstFailure_eq_none_iff_not_fails]
  cases hf : reply.firstFailure with
  | none => exact iff_of_true (result_bulk_of_none hne hr hp hs ht hd hf).1 rfl
  | some failure =>
    rw [(result_bulk_of_some hne hr hp hs ht hd hf).1]
    exact iff_of_false nofun nofun

/-- Nothing but a reply makes a success. -/
theorem replies_of_bulk (hne : operations ≠ []) (h : ((c.bulk operations).result s).1 = .ok ()) :
    ∃ reply, s.Replies c operations reply := by
  rcases send_cases c (.bulk operations) s with
    ⟨request, status, body, hr, hp, hs, -⟩ | ⟨e, t, he, -⟩
  · cases ht : bodyText status body with
    | none =>
      exact nomatch (result_bulk_of_cut hne hr hp hs ht).symm.trans h
    | some text =>
      cases hd : decodeText Bulk.Reply.decode text with
      | error fault =>
        exact nomatch (result_bulk_of_fault hne hr hp hs ht hd).symm.trans h
      | ok reply => exact ⟨reply, request, status, body, text, hr, hp, hs, ht, hd⟩
  · exact nomatch (result_bulk_of_error hne he).symm.trans h

end Client

/-- Operations sent together succeed exactly if they are answered by a reply that reports no
failure. Such a reply acknowledges every operation exactly if it covers all of them: an item too
few, or one with nothing in it, goes unnoticed. -/
theorem bulk_success_acknowledges_iff (c : Client) {operations : List Bulk.Operation}
    (hne : operations ≠ []) (s : Session) :
    (((c.bulk operations).result s).1 = .ok () ↔
      ∃ reply, s.Replies c operations reply ∧ ¬reply.Fails) ∧
    ∀ reply, s.Replies c operations reply →
      ((((c.bulk operations).result s).1 = .ok () →
        reply.errors = false ∧ reply.AcknowledgesAll operations) ↔
        reply.Fails ∨ reply.Covers operations) := by
  refine ⟨⟨fun h => ?_, fun ⟨reply, h, hn⟩ => (Client.bulk_of_replies hne h).2 hn⟩,
    fun reply h => ?_⟩
  · obtain ⟨reply, hreply⟩ := Client.replies_of_bulk hne h
    exact ⟨reply, hreply, (Client.bulk_of_replies hne hreply).1 h⟩
  · rw [Client.bulk_of_replies hne h]
    by_cases hf : reply.Fails
    · exact iff_of_true (fun hn => absurd hf hn) (.inl hf)
    · have herrors : reply.errors = false := Bool.eq_false_iff.2 fun he => hf (.inl he)
      rw [Bulk.Reply.acknowledgesAll_iff_covers hf]
      exact ⟨fun h => .inr (h hf).2, fun h _ => ⟨herrors, h.resolve_left hf⟩⟩

def Session.answering (members : List (String × Value)) : Session where
  peer _ := .answered 200 (some (Bulk.Verdict.octets members))

theorem Session.replies_answering (members : List (String × Value))
    (h : Value.LegibleMembers members) {operations : List Bulk.Operation} {reply : Bulk.Reply}
    (hd : Bulk.Reply.decode ⟨.ofValue (.obj members), .fresh⟩ = .ok reply) :
    (Session.answering members).Replies localClient operations reply := by
  obtain ⟨request, hr⟩ := Client.exists_request localClient_isFor (.inl rfl) (.bulk operations)
  exact ⟨request, 200, _, _, hr, rfl, by decide, rfl,
    ((Bulk.Verdict.writes_octets h).decodeText _).trans hd⟩

theorem deletion_is_acknowledged :
    let reported :=
      Session.answering [("errors", .bool false),
        ("items", .arr [.obj [("delete", .obj [("status", .nat 200)])]])]
    [Bulk.Operation.delete "books" "emma"] ≠ [] ∧
    ((localClient.bulk [.delete "books" "emma"]).result reported).1 = .ok () ∧
    ∃ reply, reported.Replies localClient [.delete "books" "emma"] reply ∧ reply.errors = false ∧
      reply.AcknowledgesAll [.delete "books" "emma"] := by
  intro reported
  have hne : [Bulk.Operation.delete "books" "emma"] ≠ [] := List.cons_ne_nil _ _
  have hreplies : reported.Replies localClient [.delete "books" "emma"]
      ⟨false, [.ofList [("delete", ⟨200, none⟩)]]⟩ :=
    Session.replies_answering [("errors", .bool false),
      ("items", .arr [.obj [("delete", .obj [("status", .nat 200)])]])]
      ⟨trivial, ⟨⟨⟨Bulk.Verdict.legible_nat 200, trivial⟩, trivial⟩, trivial⟩, trivial⟩ rfl
  have hiff := bulk_success_acknowledges_iff localClient hne reported
  have hn : ¬(⟨false, [.ofList [("delete", ⟨200, none⟩)]]⟩ : Bulk.Reply).Fails := by
    rw [← Bulk.Reply.firstFailure_eq_none_iff_not_fails]
    rfl
  have hok := hiff.1.2 ⟨_, hreplies, hn⟩
  exact ⟨hne, hok, _, hreplies, (hiff.2 _ hreplies).2 (.inr ⟨rfl, by decide⟩) hok⟩

/-- An answer without a single item passes for the success of all operations. -/
theorem unreported_deletion_succeeds :
    let silent := Session.answering [("errors", .bool false), ("items", .arr [])]
    ((localClient.bulk [.delete "books" "emma"]).result silent).1 = .ok () ∧
    ∃ reply, silent.Replies localClient [.delete "books" "emma"] reply ∧ reply.items = [] ∧
      ¬reply.AcknowledgesAll [.delete "books" "emma"] := by
  intro silent
  have hreplies : silent.Replies localClient [.delete "books" "emma"] {} :=
    Session.replies_answering [("errors", .bool false), ("items", .arr [])]
      ⟨trivial, trivial, trivial⟩ rfl
  have hn : ¬({} : Bulk.Reply).Fails := by
    rw [← Bulk.Reply.firstFailure_eq_none_iff_not_fails]
    rfl
  exact ⟨(Client.bulk_of_replies (List.cons_ne_nil _ _) hreplies).2 hn, {}, hreplies, rfl,
    fun h => absurd h.1 (by decide)⟩

end RecordSearch
