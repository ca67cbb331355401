import Mathlib.Logic.Function.Basic
import RecordSearch.Proofs.Bulk.ReadBack
import RecordSearch.Proofs.Indexer.Modes

/-! What an engine holds, and an engine that answers by it. -/
namespace RecordSearch
open Json

def Bulk.Operation.place : Bulk.Operation → String × String
  | .index target id _ => (target, id)
  | .delete target id => (target, id)

abbrev Documents := String × String → Option Payload

namespace Documents
variable {d : Documents} {o : Bulk.Operation} {operations : List Bulk.Operation}
  {place : String × String}

def carry (d : Documents) (o : Bulk.Operation) : Documents := Function.update d o.place o.payload?

def carryAll (d : Documents) (operations : List Bulk.Operation) : Documents :=
  operations.foldl carry d

def step (d : Documents) : Call → Documents
  | .upsert target id payload => d.carry (.index target id payload)
  | .delete target id => d.carry (.delete target id)
  | .bulk operations => d.carryAll operations
  | .deleteIndex target => fun place => if place.1 = target then none else d place
  | .search _ _ => d
  | .createIndex _ _ => d

def after (d : Documents) (calls : List Call) : Documents := calls.foldl step d

theorem carryAll_cons (d : Documents) (o : Bulk.Operation) (operations : List Bulk.Operation) :
    d.carryAll (o :: operations) = (d.carry o).carryAll operations := rfl

theorem after_append (d : Documents) (calls later : List Call) :
    d.after (calls ++ later) = (d.after calls).after later :=
  List.foldl_append

theorem step_call (d : Documents) (o : Bulk.Operation) : d.step o.call = d.carry o := by
  cases o <;> rfl

theorem after_concat_call (d : Documents) (calls : List Call) (o : Bulk.Operation) :
    d.after (calls ++ [o.call]) = (d.after calls).carry o := by
  rw [after_append]
  exact step_call ..

/-- Operations sent one by one make the same of the documents as those sent together. -/
theorem after_map_call (d : Documents) (operations : List Bulk.Operation) :
    d.after (operations.map (·.call)) = d.carryAll operations := by
  rw [after, List.foldl_map, carryAll]
  simp only [step_call]

theorem carry_self (d : Documents) (o : Bulk.Operation) : d.carry o o.place = o.payload? :=
  Function.update_self ..

theorem carry_of_ne (d : Documents) (h : place ≠ o.place) : d.carry o place = d place :=
  Function.update_of_ne h ..

/-- Statuses that an operation is answered with: a document that is put in makes a success, one that
is taken out must be there. -/
def Answers (d : Documents) (o : Bulk.Operation) (status : UInt16) : Prop :=
  match o with
  | .index _ _ _ => Http.isSuccess status = true
  | .delete target id => status = if (d (target, id)).isSome then 200 else 404

inductive AnswersAll : Documents → List Bulk.Operation → List UInt16 → Prop
  | nil {d : Documents} : AnswersAll d [] []
  | cons {d : Documents} {o : Bulk.Operation} {operations : List Bulk.Operation} {status : UInt16}
      {statuses : List UInt16} (head : d.Answers o status)
      (tail : AnswersAll (d.carry o) operations statuses) :
      AnswersAll d (o :: operations) (status :: statuses)

/-- Every document that operations take out is there when its turn comes. -/
def Grants : Documents → List Bulk.Operation → Prop
  | _, [] => True
  | d, o :: operations =>
    (o.payload? = none → (d o.place).isSome = true) ∧ (d.carry o).Grants operations

theorem Answers.isSuccess {status : UInt16} (h : d.Answers o status)
    (hg : o.payload? = none → (d o.place).isSome = true) :
    Http.isSuccess status = true := by
  cases o with
  | index target id payload => exact h
  | delete target id =>
    have hthere : (d (target, id)).isSome = true := hg rfl
    rw [Answers, if_pos hthere] at h
    subst h
    decide

theorem AnswersAll.isSuccess {statuses : List UInt16} (h : d.AnswersAll operations statuses)
    (hg : d.Grants operations) :
    ∀ status ∈ statuses, Http.isSuccess status = true := by
  induction h with
  | nil => exact List.forall_mem_nil _
  | cons head tail ih => exact List.forall_mem_cons.2 ⟨head.isSuccess hg.1, ih hg.2⟩

end Documents

/-- A reply with one outcome for each status. A success comes without an error, and the whole fails
with some operation only. -/
structure Bulk.Reply.Reports (reply : Reply) (statuses : List UInt16) : Prop where
  told : reply.outcomes.map (·.status) = statuses
  error : ∀ item ∈ reply.outcomes, Http.isSuccess item.status = true → item.error = none
  errors : reply.errors = true → ∃ status ∈ statuses, Http.isSuccess status = false

theorem Bulk.Reply.Reports.firstFailure {reply : Reply} {statuses : List UInt16}
    (h : reply.Reports statuses)
    (hs : ∀ status ∈ statuses, Http.isSuccess status = true) : reply.firstFailure = none := by
  rw [firstFailure_isNone_iff]
  constructor
  · by_contra he
    obtain ⟨status, hstatus, hfails⟩ := h.errors (Bool.not_eq_false _ ▸ he)
    exact absurd (hs status hstatus) (by simp [hfails])
  · intro item hitem
    have hstatus := hs item.status (h.told ▸ List.mem_map_of_mem hitem)
    rw [Item.failed, h.error item hitem hstatus, hstatus]
    rfl

/-- The other side is an engine that held these documents before the first call. It answers every
operation by what it holds, whether it comes by itself or with others. -/
structure Peer.Keeps (peer : Peer) (d : Documents) : Prop where
  alone (calls : List Call) (o : Bulk.Operation) :
    ∃ status body, peer (calls ++ [o.call]) = .answered status body ∧
      (d.after calls).Answers o status
  together (calls : List Call) {operations : List Bulk.Operation} (hne : operations ≠ []) :
    ∃ status body text reply statuses, peer (calls ++ [.bulk operations]) = .answered status body ∧
      Http.isSuccess status = true ∧
      Client.bodyText status body = some text ∧ decodeText Bulk.Reply.decode text = .ok reply ∧
      (d.after calls).AnswersAll operations statuses ∧ reply.Reports statuses

namespace Documents
variable (d : Documents)

def status (o : Bulk.Operation) : UInt16 :=
  if o.payload?.isSome || (d o.place).isSome then 200 else 404

theorem answers_status (o : Bulk.Operation) : d.Answers o (d.status o) := by
  cases o with
  | index target id payload => exact (by decide : Http.isSuccess 200 = true)
  | delete target id => rfl

def verdict (o : Bulk.Operation) : Bulk.Verdict where
  status := d.status o
  error := none
  isStatus := by
    unfold status
    split <;> decide
  error_of_success := fun _ => rfl

def verdicts : Documents → List Bulk.Operation → List Bulk.Verdict
  | _, [] => []
  | d, o :: operations => d.verdict o :: (d.carry o).verdicts operations

theorem answersAll_verdicts (operations : List Bulk.Operation) :
    d.AnswersAll operations ((d.verdicts operations).map (·.status)) := by
  induction operations generalizing d with
  | nil => exact .nil
  | cons o operations ih => exact .cons (d.answers_status o) (ih (d.carry o))

theorem error_of_mem_verdicts (operations : List Bulk.Operation) :
    ∀ v ∈ d.verdicts operations, v.error = none := by
  induction operations generalizing d with
  | nil => exact List.forall_mem_nil _
  | cons o operations ih => exact List.forall_mem_cons.2 ⟨rfl, ih (d.carry o)⟩

def answer : Call → Http.Outcome
  | .upsert target id payload => .answered (d.status (.index target id payload)) (some [])
  | .delete target id => .answered (d.status (.delete target id)) (some [])
  | .bulk operations =>
    .answered 200 (some (Bulk.Verdict.octets (Bulk.Verdict.report (d.verdicts operations) "index")))
  | _ => .answered 200 (some [])

end Documents

def Peer.keeping (d : Documents) : Peer :=
  fun calls => (calls.getLast?.map (d.after calls.dropLast).answer).getD .unreachable

/-- There is such an engine for any documents. -/
theorem Peer.keeping_keeps (d : Documents) : (keeping d).Keeps d := by
  have hlast (calls : List Call) (call : Call) :
      keeping d (calls ++ [call]) = (d.after calls).answer call := by
    rw [keeping, List.getLast?_concat, List.dropLast_concat]
    rfl
  constructor
  · intro calls o
    rw [hlast]
    refine ⟨(d.after calls).status o, some [], ?_, (d.after calls).answers_status o⟩
    cases o <;> rfl
  · intro calls operations _
    rw [hlast]
    have herror := (d.after calls).error_of_mem_verdicts operations
    have hlisted :=
      Bulk.Verdict.listedIn_report (fun v hv e he => nomatch (herror v hv).symm.trans he) "index"
    obtain ⟨reply, he, ho, hd⟩ := Bulk.Verdict.decode_listed hlisted
    rw [if_pos fun v hv => by rw [Bulk.Verdict.depth, herror v hv]; exact Nat.zero_le _] at hd
    refine ⟨200, _, _, reply, _, rfl, by decide, rfl, hd,
      (d.after calls).answersAll_verdicts operations, ?_, ?_, ?_⟩
    · rw [ho, List.map_map]
      rfl
    · intro item hitem _
      obtain ⟨v, hv, rfl⟩ := List.mem_map.1 (ho ▸ hitem)
      rw [Bulk.Verdict.item, herror v hv]
      rfl
    · intro hreported
      obtain ⟨v, hv, hfails⟩ := List.any_eq_true.1 (he.symm.trans hreported)
      exact ⟨v.status, List.mem_map_of_mem hv, by simpa [Bulk.Verdict.failed] using hfails⟩

end RecordSearch
