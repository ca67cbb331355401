import RecordSearch.Proofs.Indexer.Operations

/-! Which requests go to the documents they are meant for. -/
namespace RecordSearch
open Url

/-- Sent to the place of `u`, to a path that is the one of `u` and three more segments: the index,
the fixed name, and the key. -/
def Http.Request.AddressesDocument (r : Http.Request) (u : Url) (target id : String) : Prop :=
  (∃ path, r.url = Http.bareUrl { u with path }) ∧
    Addresses (stem u.path.segments) r.url.path target id

inductive Call.OnDocument (target id : String) : Call → Prop
  | upsert (payload : Payload) : OnDocument target id (.upsert target id payload)
  | delete : OnDocument target id (.delete target id)

inductive Client.WorksOn (c : Client) (target id : String) : Run Unit → Call → Prop
  | upsert (payload : Payload) :
      WorksOn c target id (c.upsert target id payload) (.upsert target id payload)
  | delete : WorksOn c target id (c.delete target id) (.delete target id)

theorem Call.OnDocument.segments {target id : String} {call : Call}
    (h : call.OnDocument target id) :
    call.segments = [target, "_doc", id] := by
  cases h <;> rfl

namespace Client
variable {c : Client} {u : Url}

theorem WorksOn.onDocument {target id : String} {work : Run Unit} {call : Call}
    (h : c.WorksOn target id work call) :
    call.OnDocument target id := by
  cases h with
  | upsert payload => exact .upsert payload
  | delete => exact .delete

/-- Work on a document leaves the session that its call leaves. -/
theorem WorksOn.session_eq {target id : String} {work : Run Unit} {call : Call}
    (h : c.WorksOn target id work call) (s : Session) :
    (work.result s).2 = ((c.send call).result s).2 := by
  cases h with
  | upsert payload => exact result_discard c _ s
  | delete => exact result_discard c _ s

/-- The path of a call on a document. -/
theorem request?_of_onDocument (h : c.IsFor u) (hq : u.query = none) (hf : u.fragment = none)
    {target id : String} {call : Call} (hc : call.OnDocument target id) {r : Http.Request}
    (hr : c.request? call = some r) :
    r.method = call.method ∧
    r.url = Http.bareUrl { u with
      path := .rooted (documentPath (stem u.path.segments) target id) } := by
  have hs : u.Sendable := (request?_isSome_iff h call).1 (by rw [hr]; rfl)
  obtain ⟨standard, ht⟩ := target?_path h hs hq hf call
  rw [hc.segments] at ht
  have hpath := resolve_document standard (stem u.path.segments) target id
  simp only [List.map_cons, List.map_nil, hpath] at ht
  rw [request?, ht] at hr
  obtain rfl := Option.some.inj hr
  exact ⟨rfl, rfl⟩

theorem addressesDocument_iff (h : c.IsFor u) (hq : u.query = none) (hf : u.fragment = none)
    {target id : String} {call : Call} (hc : call.OnDocument target id) {r : Http.Request}
    (hr : c.request? call = some r) :
    r.AddressesDocument u target id ↔ ¬IsDots target ∧ ¬IsDots id := by
  obtain ⟨-, hurl⟩ := request?_of_onDocument h hq hf hc hr
  rw [Http.Request.AddressesDocument, hurl,
    ← addresses_documentPath_iff (stem u.path.segments) target id]
  exact and_iff_right ⟨_, rfl⟩

/-- The path of a call on a whole index. -/
theorem request?_deleteIndex (h : c.IsFor u) (hq : u.query = none) (hf : u.fragment = none)
    {target : String} (ht : ¬IsDots target) {r : Http.Request}
    (hr : c.request? (.deleteIndex target) = some r) :
    r.url = Http.bareUrl { u with path := .rooted (stem u.path.segments ++ [written target]) } := by
  have hs : u.Sendable := (request?_isSome_iff h _).1 (by rw [hr]; rfl)
  obtain ⟨standard, hpath⟩ := target?_path h hs hq hf (.deleteIndex target)
  have hresolve : resolve (.special standard) (stem u.path.segments).reverse [written target] =
      stem u.path.segments ++ [written target] := by
    rw [resolve_settled standard _ (settled_written ht), resolve]
    simp
  simp only [Call.segments, List.map_cons, List.map_nil, hresolve] at hpath
  rw [request?, hpath] at hr
  obtain rfl := Option.some.inj hr
  rfl

end Client

def Run.Sends {α : Type} (work : Run α) (p : Exchange → Prop) : Prop :=
  ∀ s, ∃ sent, (work.result s).2.exchanges = s.exchanges ++ sent ∧ ∀ x ∈ sent, p x

namespace Indexer
variable {R : Type} {i : Indexer}

/-- One by one, the requests of operations are those of their own calls. -/
theorem sends_of_does {work : Run Unit} {operations : List Bulk.Operation} (hb : i.bulk = false)
    (h : i.Does work operations) :
    work.Sends fun x => (∃ o ∈ operations, x.call = o.call) ∧
    i.client.request? x.call = some x.request := by
  intro s
  obtain ⟨t, ht, -, hagrees⟩ := h s
  rw [carryOut_of_single hb] at hagrees
  obtain ⟨sent, hsent, hpre, hrequest⟩ := i.client.each_exchanges operations t
  refine ⟨sent, by rw [hagrees.exchanges, hsent, ht.exchanges], fun x hx => ⟨?_, hrequest x hx⟩⟩
  obtain ⟨o, ho, he⟩ := List.mem_map.1 (hpre.mem (List.mem_map_of_mem hx))
  exact ⟨o, ho, he.symm⟩

theorem onDocument_of_mem_indexOperations {type : RecordType R} {softDelete : Bool} {first : R}
    {rest : List R} {o : Bulk.Operation} (h : o ∈ indexOperations type softDelete (first :: rest)) :
    ∃ r ∈ first :: rest, o.call.OnDocument (type.index first) (type.key r) := by
  obtain ⟨r, hr, ho⟩ := List.mem_filterMap.1 h
  obtain ⟨payload, -, rfl⟩ := Option.map_eq_some_iff.1 ho
  exact ⟨r, hr, .upsert payload⟩

theorem onDocument_of_mem_unindexOperations {type : RecordType R} {first : R} {rest : List R}
    {o : Bulk.Operation} (h : o ∈ unindexOperations type (first :: rest)) :
    ∃ r ∈ first :: rest, o.call.OnDocument (type.index first) (type.key r) := by
  obtain ⟨r, hr, rfl⟩ := List.mem_map.1 h
  exact ⟨r, hr, .delete⟩

end Indexer

/-- A request for a document goes to that document unless the index or the key is one or two dots:
these are steps in the path, and two dots for a key lead to the index itself. All else survives: a
call that reaches the other side goes out as one request, and in a batch every request is one for a
record of the batch. -/
theorem document_requests_reach_documents_iff {c : Client} {u : Url} (h : c.IsFor u)
    (hq : u.query = none) (hf : u.fragment = none) :
    (∀ target id work call, c.WorksOn target id work call → ∀ s : Session,
      s.peer (s.calls ++ [call]) ≠ .unreachable → u.Sendable →
      ∃ r, (work.result s).2.exchanges = s.exchanges ++ [⟨call, r⟩] ∧ r.method = call.method ∧
        (r.AddressesDocument u target id ↔ ¬IsDots target ∧ ¬IsDots id)) ∧
    (¬u.Sendable → ∀ call, c.request? call = none) ∧
    (∀ target id, ¬IsDots target → ∀ r, c.request? (.delete target id) = some r →
      ∀ whole, c.request? (.deleteIndex target) = some whole →
        (stem r.url.path.segments = stem whole.url.path.segments ↔ id = "..")) ∧
    ∀ {R : Type} (type : RecordType R) (first : R) (rest : List R) (i : Indexer),
      i.client = c → i.bulk = false →
      ∀ work, work = i.index type (first :: rest) ∨ work = i.unindex type (first :: rest) →
        work.Sends fun x =>
          ∃ r ∈ first :: rest, x.call.OnDocument (type.index first) (type.key r) ∧
            (x.request.AddressesDocument u (type.index first) (type.key r) ↔
              ¬IsDots (type.index first) ∧ ¬IsDots (type.key r)) := by
  refine ⟨fun target id work call hwork s hp hs => ?_, fun hs call => ?_,
    fun target id ht r hr whole hw => ?_, fun type first rest i hi hb work hwork => ?_⟩
  · have hc := hwork.onDocument
    obtain ⟨r, hr⟩ := Client.exists_request h hs call
    exact ⟨r, by rw [hwork.session_eq, Client.send_exchanges hr hp],
      (Client.request?_of_onDocument h hq hf hc hr).1, Client.addressesDocument_iff h hq hf hc hr⟩
  · rw [Client.request?, Client.target?_of_not_sendable h hs, Option.map_none]
  · rw [(Client.request?_of_onDocument h hq hf .delete hr).2,
      Client.request?_deleteIndex h hq hf ht hw]
    exact stem_documentPath_eq_iff _ ht id
  · subst hi
    have sends {operations : List Bulk.Operation} (hd : i.Does work operations)
        (ho : ∀ o ∈ operations,
          ∃ r ∈ first :: rest, o.call.OnDocument (type.index first) (type.key r)) :
        work.Sends fun x => ∃ r ∈ first :: rest, x.call.OnDocument (type.index first) (type.key r) ∧
          (x.request.AddressesDocument u (type.index first) (type.key r) ↔
            ¬IsDots (type.index first) ∧ ¬IsDots (type.key r)) := by
      intro s
      obtain ⟨sent, hsent, hx⟩ := Indexer.sends_of_does hb hd s
      refine ⟨sent, hsent, fun x hm => ?_⟩
      obtain ⟨⟨o, hmem, hcall⟩, hr⟩ := hx x hm
      obtain ⟨r, hrecord, hon⟩ := ho o hmem
      rw [← hcall] at hon
      exact ⟨r, hrecord, hon, Client.addressesDocument_iff h hq hf hon hr⟩
    rcases hwork with rfl | rfl
    · exact sends (Indexer.does_index i type _) fun _ => Indexer.onDocument_of_mem_indexOperations
    · exact sends (Indexer.does_unindex i type _)
        fun _ => Indexer.onDocument_of_mem_unindexOperations

theorem delete_of_slash_reaches_document : localClient.IsFor localUrl ∧
    ∃ r, ((localClient.delete "books" "a/b").result { peer := fun _ => .dropped }).2.exchanges =
      [⟨.delete "books" "a/b", r⟩] ∧
      r.method = .delete ∧ r.AddressesDocument localUrl "books" "a/b" := by
  obtain ⟨r, hx, hm, ha⟩ :=
    (document_requests_reach_documents_iff localClient_isFor rfl rfl).1 "books" "a/b" _ _ .delete
      { peer := fun _ => .dropped } nofun (.inl rfl)
  exact ⟨localClient_isFor, r, hx, hm, ha.2 (by decide)⟩

/-- The request for a document with two dots as its key is one for the whole index. -/
theorem delete_of_dots_reaches_index :
    localClient.IsFor localUrl ∧ ∃ r, localClient.request? (.delete "books" "..") = some r ∧
    r.method = .delete ∧ r.url.path = .rooted ["books".toList, []] ∧
    ¬r.AddressesDocument localUrl "books" ".." := by
  obtain ⟨r, hr⟩ := Client.exists_request localClient_isFor (.inl rfl) (.delete "books" "..")
  obtain ⟨hm, hurl⟩ := Client.request?_of_onDocument localClient_isFor rfl rfl .delete hr
  have hpath : r.url.path = .rooted ["books".toList, []] := by
    rw [hurl]
    decide
  refine ⟨localClient_isFor, r, hr, hm, hpath, ?_⟩
  rw [Client.addressesDocument_iff localClient_isFor rfl rfl .delete hr]
  decide

end RecordSearch
