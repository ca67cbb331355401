import RecordSearch.Proofs.Client.Target
import RecordSearch.Proofs.Twins

/-! Clients that differ in nothing but their credentials: what one of them does, the other does as
well. -/
namespace RecordSearch.Client
variable {a b : List String} {c d : Client} {u : Url}

/-- Credentials in the address of the endpoint go with every request, and behind them those of the
settings. -/
theorem authorization_of_request? (h : c.IsFor u) {call : Call} {r : Http.Request}
    (hr : c.request? call = some r) :
    r.authorization = (Http.urlCredentials u).toList ++ c.credentials := by
  by_cases hs : u.Sendable
  · obtain ⟨path, query, fragment, ht⟩ := target?_of_sendable h hs call
    rw [request?, ht] at hr
    obtain rfl := Option.some.inj hr
    rfl
  · rw [request?, target?_of_not_sendable h hs] at hr
    contradiction

/-- Two clients with the same addresses and mappings, and the credentials that each of them
sends. -/
structure Twins (a b : List String) (c d : Client) : Prop where
  base : c.base = d.base
  mappings : c.mappings = d.mappings
  first {call : Call} {r : Http.Request} : c.request? call = some r → r.authorization = a
  second {call : Call} {r : Http.Request} : d.request? call = some r → r.authorization = b

theorem IsFor.twins (h : c.IsFor u) (username password : Option String) :
    Twins ((Http.urlCredentials u).toList ++ c.credentials)
      ((Http.urlCredentials u).toList ++ credentials { c with username, password })
      c { c with username, password } :=
  ⟨rfl, rfl, authorization_of_request? h,
    authorization_of_request? (c := { c with username, password }) ⟨h.read, h.base⟩⟩

namespace Twins

theorem url_eq (h : Twins a b c d) (segments : List String) : c.url segments = d.url segments := by
  rw [Client.url, Client.url, h.base]

/-- Their requests differ in nothing but credentials. -/
theorem request?_veiled (h : Twins a b c d) (call : Call) :
    (c.request? call).map Http.Request.veiled = (d.request? call).map Http.Request.veiled := by
  have htarget : c.target? call = d.target? call := by rw [target?, target?, h.url_eq]
  rw [request?, request?, htarget, Option.map_map, Option.map_map]
  rfl

theorem send (h : Twins a b c d) (call : Call) : Run.Twins a b (c.send call) (d.send call) := by
  have hveiled := h.request?_veiled call
  unfold Client.send
  rw [h.url_eq]
  refine .bind (.say _ _) fun _ => ?_
  cases hc : c.request? call <;> cases hd : d.request? call <;> rw [hc, hd] at hveiled
  · exact .throw _
  · exact nomatch hveiled
  · exact nomatch hveiled
  refine .bind (.exchange call (Option.some.inj hveiled) (h.first hc) (h.second hd))
    fun outcome => ?_
  cases outcome with
  | unreachable => exact .throw _
  | dropped => exact .throw _
  | answered status body =>
    cases hs : Http.isSuccess status with
    | true =>
      simp only [hs, if_true]
      exact .pure _
    | false =>
      simp only [hs]
      exact .bind (.say _ _) fun _ => .throw _

theorem decoded {α : Type} (p : Json.Decoder α) (text : Option String) :
    Run.Twins a b (Client.decoded p text) (Client.decoded p text) := by
  cases text with
  | none => exact .throw _
  | some text =>
    unfold Client.decoded
    cases hd : Json.decodeText p text with
    | ok x =>
      simp only [hd]
      exact .pure _
    | error fault =>
      simp only [hd]
      exact .throw _

theorem search (h : Twins a b c d) (target : String) (document : Json.Value) :
    Run.Twins a b (c.search target document) (d.search target document) :=
  .bind (h.send _) fun _ => .bind (decoded _ _) fun _ => .bind (.say _ _) fun _ => .pure _

theorem upsert (h : Twins a b c d) (target id : String) (payload : Payload) :
    Run.Twins a b (c.upsert target id payload) (d.upsert target id payload) :=
  .bind (h.send _) fun _ => .pure _

theorem delete (h : Twins a b c d) (target id : String) :
    Run.Twins a b (c.delete target id) (d.delete target id) :=
  .bind (h.send _) fun _ => .pure _

theorem deleteIndex (h : Twins a b c d) (target : String) :
    Run.Twins a b (c.deleteIndex target) (d.deleteIndex target) :=
  .bind (h.send _) fun _ => .pure _

theorem createIndex (h : Twins a b c d) (target : String) :
    Run.Twins a b (c.createIndex target) (d.createIndex target) := by
  unfold Client.createIndex
  rw [h.mappings]
  cases d.mappings.get? target with
  | none => exact .throw _
  | some mapping => exact .bind (h.send _) fun _ => .pure _

theorem bulk (h : Twins a b c d) (operations : List Bulk.Operation) :
    Run.Twins a b (c.bulk operations) (d.bulk operations) := by
  unfold Client.bulk
  cases operations with
  | nil => exact .pure _
  | cons o os =>
    refine .bind (h.send _) fun _ => .bind (decoded _ _) fun (text, reply) => ?_
    cases hf : reply.firstFailure with
    | none =>
      simp only [hf]
      exact .say _ _
    | some failure =>
      simp only [hf]
      exact .bind (.say _ _) fun _ => .throw _

end Twins
end RecordSearch.Client
