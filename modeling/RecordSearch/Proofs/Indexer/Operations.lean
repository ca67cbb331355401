import RecordSearch.Proofs.Client.Send
import RecordSearch.Indexer

/-! The operations a batch of records comes to. -/
namespace RecordSearch

def Bulk.Operation.call : Bulk.Operation → Call
  | .index target id payload => .upsert target id payload
  | .delete target id => .delete target id

structure Session.Agrees (s t : Session) : Prop where
  peer : s.peer = t.peer
  exchanges : s.exchanges = t.exchanges

theorem Session.Agrees.refl (s : Session) : s.Agrees s := ⟨rfl, rfl⟩

theorem Session.Agrees.calls {s t : Session} (h : s.Agrees t) : s.calls = t.calls := by
  rw [Session.calls, h.exchanges, Session.calls]

namespace Client

def each (c : Client) (operations : List Bulk.Operation) : Run Unit :=
  operations.forM fun o => do let _ ← c.send o.call

variable (c : Client)

theorem each_nil : c.each [] = pure () := rfl

theorem each_map {α : Type} (f : α → Bulk.Operation) (xs : List α) :
    c.each (xs.map f) = xs.forM fun x => (do let _ ← c.send (f x).call : Run Unit) := by
  induction xs with
  | nil => rfl
  | cons x xs ih =>
    change (do let _ ← c.send (f x).call : Run Unit) >>= (fun _ => c.each (xs.map f)) = _
    rw [ih]
    rfl

theorem each_cons (o : Bulk.Operation) (operations : List Bulk.Operation) :
    c.each (o :: operations) = (do let _ ← c.send o.call) >>= fun _ => c.each operations := rfl

theorem result_each_of_ok {o : Bulk.Operation} {operations : List Bulk.Operation} {s t : Session}
    {text : Option String} (h : (c.send o.call).result s = (.ok text, t)) :
    (c.each (o :: operations)).result s = (c.each operations).result t := by
  have hone : (do let _ ← c.send o.call : Run Unit).result s = (.ok (), t) := Run.result_bind_ok h _
  rw [each_cons, Run.result_bind_ok hone]

/-- The operations after one that fails are not begun. -/
theorem result_each_of_error {o : Bulk.Operation} {operations : List Bulk.Operation} {s t : Session}
    {e : Error} (h : (c.send o.call).result s = (.error e, t)) :
    (c.each (o :: operations)).result s = (.error e, t) := by
  have hone : (do let _ ← c.send o.call : Run Unit).result s = (.error e, t) :=
    Run.result_bind_error h _
  rw [each_cons, Run.result_bind_error hone]

/-- The requests of operations carried out one by one go out in order, each at most once, until one
fails. -/
theorem each_exchanges (operations : List Bulk.Operation) (s : Session) :
    ∃ sent, ((c.each operations).result s).2.exchanges = s.exchanges ++ sent ∧
      sent.map (·.call) <+: operations.map (·.call) ∧
      ∀ x ∈ sent, c.request? x.call = some x.request := by
  induction operations generalizing s with
  | nil => exact ⟨[], by rw [each_nil]; simp, List.nil_prefix, by simp⟩
  | cons o operations ih =>
    rcases send_cases c o.call s with
      ⟨request, status, body, hrequest, -, -, hr⟩ | ⟨e, t, hr, -, hx⟩
    · obtain ⟨rest, hrest, hpre, hsent⟩ := ih ((c.announced o.call s).sending o.call request)
      rw [result_each_of_ok c hr]
      refine ⟨⟨o.call, request⟩ :: rest, by simp [hrest], ?_, fun x hx => ?_⟩
      · rw [List.map_cons, List.map_cons]
        exact List.cons_prefix_cons.2 ⟨rfl, hpre⟩
      · rcases List.mem_cons.1 hx with rfl | hx
        · exact hrequest
        · exact hsent x hx
    · rw [result_each_of_error c hr]
      rcases hx with hx | ⟨request, hrequest, hx⟩
      · exact ⟨[], by simp [hx], List.nil_prefix, by simp⟩
      · exact ⟨[⟨o.call, request⟩], hx, by simp, by simpa using hrequest⟩

end Client

namespace Indexer
variable {R : Type}

def indexOperations (type : RecordType R) (softDelete : Bool) : List R → List Bulk.Operation
  | [] => []
  | first :: rest => (first :: rest).filterMap fun r =>
      (document type softDelete r).map fun payload => .index (type.index first) (type.key r) payload

def unindexOperations (type : RecordType R) : List R → List Bulk.Operation
  | [] => []
  | first :: rest => (first :: rest).map fun r => .delete (type.index first) (type.key r)

def carryOut (i : Indexer) (operations : List Bulk.Operation) : Run Unit :=
  if i.bulk then i.client.bulk operations else i.client.each operations

theorem carryOut_of_bulk {i : Indexer} (h : i.bulk = true) (operations : List Bulk.Operation) :
    i.carryOut operations = i.client.bulk operations := if_pos h

theorem carryOut_of_single {i : Indexer} (h : i.bulk = false) (operations : List Bulk.Operation) :
    i.carryOut operations = i.client.each operations := if_neg (by simp [h])

/-- Work that comes to carrying out operations, apart from the log. -/
def Does (i : Indexer) (work : Run Unit) (operations : List Bulk.Operation) : Prop :=
  ∀ s, ∃ t, t.Agrees s ∧ (work.result s).1 = ((i.carryOut operations).result t).1 ∧
    (work.result s).2.Agrees ((i.carryOut operations).result t).2

theorem Does.of_nil {i : Indexer} {work : Run Unit} (h : i.Does work []) (s : Session) :
    (work.result s).1 = .ok () ∧ (work.result s).2.exchanges = s.exchanges := by
  obtain ⟨t, ht, hok, hagrees⟩ := h s
  have hnone : (i.carryOut []).result t = (.ok (), t) := by
    unfold carryOut
    split <;> rfl
  rw [hnone] at hok hagrees
  exact ⟨hok, hagrees.exchanges.trans ht.exchanges⟩

private theorem does_nil (i : Indexer) {work : Run Unit}
    (h : ∀ s, ∃ t, t.Agrees s ∧ work.result s = (.ok (), t)) : i.Does work [] := by
  intro s
  obtain ⟨t, ht, hw⟩ := h s
  have hnone : (i.carryOut []).result t = (.ok (), t) := by
    unfold carryOut
    split <;> rfl
  exact ⟨t, ht, by rw [hw, hnone], by rw [hw, hnone]; exact .refl t⟩

private theorem agrees_say (work : Run Unit) (level : Log.Level) (message : String) (s : Session) :
    ((work >>= fun _ => Run.say level message).result s).1 = (work.result s).1 ∧
      ((work >>= fun _ => Run.say level message).result s).2.Agrees (work.result s).2 := by
  rcases h : work.result s with ⟨e | a, t⟩
  · rw [Run.result_bind_error h]
    exact ⟨rfl, .refl t⟩
  · rw [Run.result_bind_ok h]
    exact ⟨rfl, rfl, rfl⟩

private theorem does_then_say (i : Indexer) (operations : List Bulk.Operation) (level : Log.Level)
    (message : String) :
    i.Does (i.carryOut operations >>= fun _ => Run.say level message) operations := by
  intro s
  obtain ⟨hresult, hagrees⟩ := agrees_say (i.carryOut operations) level message s
  exact ⟨s, .refl s, hresult, hagrees⟩

private theorem does_after_say (i : Indexer) {p : Prop} [Decidable p] {work : Run Unit}
    {operations : List Bulk.Operation} (level : Log.Level) (message : String)
    (h : i.Does work operations) :
    i.Does (if p then Run.say level message >>= fun _ => work else work) operations := by
  intro s
  by_cases hp : p
  · obtain ⟨t, ht, hw⟩ := h (s.reporting level message)
    refine ⟨t, ⟨ht.peer, ht.exchanges⟩, ?_⟩
    rw [if_pos hp, Run.result_bind_ok (Run.result_say ..)]
    exact hw
  · rw [if_neg hp]
    exact h s

theorem indexOperations_cons (i : Indexer) (type : RecordType R) (first : R) (rest : List R) :
    indexOperations type i.softDelete (first :: rest) =
      (i.documents type (first :: rest)).map fun d => .index (type.index first) d.1 d.2 := by
  rw [documents, List.map_filterMap]
  simp only [indexOperations, Option.map_map]
  rfl

theorem forM_upsert (c : Client) (target : String) (documents : List (String × Payload)) :
    documents.forM (fun d => c.upsert target d.1 d.2) =
      c.each (documents.map fun d => .index target d.1 d.2) := by
  rw [Client.each_map]
  rfl

theorem forM_delete (c : Client) (target : String) (key : R → String) (records : List R) :
    records.forM (fun r => c.delete target (key r)) =
      c.each (records.map fun r => .delete target (key r)) := by
  rw [Client.each_map]
  rfl

/-- Putting in a batch is carrying out one operation for every document of it. -/
theorem does_index (i : Indexer) (type : RecordType R) (records : List R) :
    i.Does (i.index type records) (indexOperations type i.softDelete records) := by
  cases records with
  | nil => exact does_nil i fun s => ⟨s, .refl s, rfl⟩
  | cons first rest =>
    rw [indexOperations_cons]
    unfold index
    dsimp only
    generalize i.documents type (first :: rest) = documents
    rw [forM_upsert]
    refine does_after_say i _ _ ?_
    cases documents with
    | nil => exact does_nil i fun s => ⟨s, .refl s, rfl⟩
    | cons d documents =>
      rw [List.isEmpty_cons, if_neg (by decide)]
      split
      · next hb =>
        rw [← carryOut_of_bulk hb]
        exact does_then_say i _ _ _
      · next hb =>
        rw [← carryOut_of_single (Bool.eq_false_iff.2 hb)]
        exact does_then_say i _ _ _

/-- Taking out a batch is carrying out one operation for every record of it. -/
theorem does_unindex (i : Indexer) (type : RecordType R) (records : List R) :
    i.Does (i.unindex type records) (unindexOperations type records) := by
  cases records with
  | nil => exact does_nil i fun s => ⟨s, .refl s, rfl⟩
  | cons first rest =>
    unfold unindex unindexOperations
    dsimp only
    rw [forM_delete]
    split
    · next hb =>
      rw [← carryOut_of_bulk hb]
      exact does_then_say i _ _ _
    · next hb =>
      rw [← carryOut_of_single (Bool.eq_false_iff.2 hb)]
      exact does_then_say i _ _ _

inductive Plan (type : RecordType R) (softDelete : Bool) (records : List R) :
    (Indexer → Run Unit) → List Bulk.Operation → Prop
  | index :
      Plan type softDelete records (fun i => i.index type records)
        (indexOperations type softDelete records)
  | unindex :
      Plan type softDelete records (fun i => i.unindex type records)
        (unindexOperations type records)

theorem Plan.does {type : RecordType R} {softDelete : Bool} {records : List R}
    {work : Indexer → Run Unit} {operations : List Bulk.Operation}
    (h : Plan type softDelete records work operations) {i : Indexer}
    (hi : i.softDelete = softDelete) : i.Does (work i) operations := by
  subst hi
  cases h with
  | index => exact does_index i type records
  | unindex => exact does_unindex i type records

end Indexer

def titles : RecordType String where
  indexName := "books"
  key := id
  payload := fun title => if title = "" then .empty else KeyMap.empty.insert "title" (.str title)

end RecordSearch
