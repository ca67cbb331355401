import RecordSearch.Proofs.Bulk.Written
import RecordSearch.Proofs.Client.Bulk
import RecordSearch.Proofs.Client.Search

/-! What every operation makes of an answer that refuses it, whatever is in its body. -/
namespace RecordSearch
open Json

namespace Http

def digits (status : UInt16) : String :=
  String.ofList [Nat.digitChar (status.toNat / 10 / 10), Nat.digitChar (status.toNat / 10 % 10),
    Nat.digitChar (status.toNat % 10)]

variable {status : UInt16}

theorem toString_eq_digits (h : 100 ≤ status ∧ status ≤ 999) : toString status = digits status := by
  have hlow : 100 ≤ status.toNat := UInt16.le_iff_toNat_le.1 h.1
  have hhigh : status.toNat ≤ 999 := UInt16.le_iff_toNat_le.1 h.2
  have hlist : Nat.toDigits 10 status.toNat =
      [Nat.digitChar (status.toNat / 10 / 10), Nat.digitChar (status.toNat / 10 % 10),
        Nat.digitChar (status.toNat % 10)] := by
    rw [Nat.toDigits_eq_if (by decide), if_neg (by omega), Nat.toDigits_eq_if (by decide),
      if_neg (by omega), Nat.toDigits_eq_if (by decide), if_pos (by omega)]
    rfl
  exact congrArg String.ofList hlist

theorem isSuccess_iff : isSuccess status = true ↔ 200 ≤ status ∧ status ≤ 299 := by
  rw [isSuccess, Bool.and_eq_true, decide_eq_true_iff, decide_eq_true_iff]
  refine and_congr_right fun _ => ?_
  rw [UInt16.lt_iff_toNat_lt, UInt16.le_iff_toNat_le]
  exact Nat.lt_succ_iff

end Http

/-- An answer tells a reason: it is what stands last under `error`, or what stands last under
`reason` in there. -/
inductive Json.Value.Tells (v : Value) (reason : String) : Prop
  | outright (h : v.last? "error" = some (.str reason))
  | within {error : Value} (h : v.last? "error" = some error)
      (hr : error.last? "reason" = some (.str reason))

def Json.Informs (text reason : String) : Prop := ∃ v, Accepts text v ∧ v.Tells reason

/-- The reason of a refusal: what its text tells, else the phrase of the status, else the digits of
the status. -/
inductive Reason (status : UInt16) (text : Option String) : String → Prop
  | told {t reason : String} (ht : text = some t) (h : Informs t reason) : Reason status text reason
  | untold (h : ∀ t ∈ text, ∀ reason, ¬Informs t reason) :
      Reason status text ((Http.phrase? status).getD (Http.digits status))

section Told
variable {status : UInt16} {text : Option String}

private def told? (v : Value) : Option String :=
  match v.get? "error" with
  | some (.str reason) => some reason
  | some error => (error.get? "reason").bind Value.asText?
  | none => none

private theorem told?_ordered_iff {v : Value} {reason : String} :
    told? v.ordered = some reason ↔ v.Tells reason := by
  have hwithin {error : Value} (he : v.last? "error" = some error) (hne : ∀ s, error ≠ .str s) :
      (error.ordered.get? "reason").bind Value.asText? = some reason ↔ v.Tells reason := by
    rw [Value.get?_asText?_ordered_iff]
    constructor
    · exact .within he
    · rintro (h | ⟨h, hr⟩)
      · exact absurd (Option.some.inj (he.symm.trans h)) (hne reason)
      · exact Option.some.inj (he.symm.trans h) ▸ hr
  unfold told?
  rw [Value.get?_ordered_last]
  cases he : v.last? "error" with
  | none =>
    refine iff_of_false nofun ?_
    rintro (h | ⟨h, -⟩)
    · exact nomatch he.symm.trans h
    · exact nomatch he.symm.trans h
  | some error =>
    cases error with
    | str s =>
      constructor
      · intro h
        exact .outright (Option.some.inj h ▸ he)
      · rintro (h | ⟨h, hr⟩)
        · obtain rfl := Value.str.inj (Option.some.inj (he.symm.trans h))
          rfl
        · obtain rfl := Option.some.inj (he.symm.trans h)
          exact nomatch hr
    | null => exact hwithin he nofun
    | bool b => exact hwithin he nofun
    | num n => exact hwithin he nofun
    | arr items => exact hwithin he nofun
    | obj members => exact hwithin he nofun

private def informed? (text : String) : Option String :=
  (decodeText Decode.free text).toOption.bind told?

private theorem informed?_eq_some_iff {text reason : String} :
    informed? text = some reason ↔ Informs text reason := by
  have hdecode (w : Value) : (decodeText Decode.free text).toOption = some w ↔
      ∃ v, Accepts text v ∧ v.ordered = w := by
    rw [← decodeText_free_eq_ok_iff]
    cases decodeText Decode.free text with
    | error f => exact iff_of_false nofun nofun
    | ok x => exact ⟨fun h => congrArg _ (Option.some.inj h), fun h => congrArg _ (Except.ok.inj h)⟩
  rw [informed?, Option.bind_eq_some_iff]
  constructor
  · rintro ⟨w, hw, h⟩
    obtain ⟨v, hv, rfl⟩ := (hdecode w).1 hw
    exact ⟨v, hv, told?_ordered_iff.1 h⟩
  · rintro ⟨v, hv, h⟩
    exact ⟨v.ordered, (hdecode _).2 ⟨v, hv, rfl⟩, told?_ordered_iff.2 h⟩

/-- There is just one reason of a refusal. -/
theorem refusal_eq_iff (h : 100 ≤ status ∧ status ≤ 999) {reason : String} :
    refusal status text = .engine status reason text ↔ Reason status text reason := by
  have heq : refusal status text =
      .engine status
        ((text.bind informed?).getD ((Http.phrase? status).getD (toString status))) text := rfl
  rw [heq, Http.toString_eq_digits h, Error.engine.injEq, eq_self, eq_self, true_and, and_true]
  cases hi : text.bind informed? with
  | some r =>
    obtain ⟨t, rfl, hr⟩ := Option.bind_eq_some_iff.1 hi
    constructor
    · rintro rfl
      exact .told rfl (informed?_eq_some_iff.1 hr)
    · rintro (⟨ht, hinforms⟩ | huninformed)
      · obtain rfl := Option.some.inj ht
        exact Option.some.inj (hr.symm.trans (informed?_eq_some_iff.2 hinforms))
      · exact absurd (informed?_eq_some_iff.1 hr) (huninformed t rfl r)
  | none =>
    have huninformed : ∀ t ∈ text, ∀ r, ¬Informs t r := by
      intro t ht r hr
      exact nomatch (Option.bind_eq_none_iff.1 hi t ht).symm.trans (informed?_eq_some_iff.2 hr)
    constructor
    · rintro rfl
      exact .untold huninformed
    · rintro (⟨ht, hinforms⟩ | -)
      · exact absurd hinforms (huninformed _ ht _)
      · rfl

end Told

namespace Client

/-- Work that is an operation of a client, and the one call it makes. -/
inductive Makes (c : Client) : {α : Type} → Run α → Call → Prop
  | search (target : String) (document : Value) :
      Makes c (c.search target document) (.search target document)
  | upsert (target id : String) (payload : Payload) :
      Makes c (c.upsert target id payload) (.upsert target id payload)
  | delete (target id : String) : Makes c (c.delete target id) (.delete target id)
  | createIndex {target : String} {mapping : Value} (h : c.mappings.get? target = some mapping) :
      Makes c (c.createIndex target) (.createIndex target mapping)
  | deleteIndex (target : String) : Makes c (c.deleteIndex target) (.deleteIndex target)
  | bulk {operations : List Bulk.Operation} (h : operations ≠ []) :
      Makes c (c.bulk operations) (.bulk operations)

/-- An operation ends as its call does where that fails. -/
theorem Makes.result_of_error {c : Client} {α : Type} {work : Run α} {call : Call}
    (h : c.Makes work call) {s t : Session} {e : Error}
    (he : (c.send call).result s = (.error e, t)) : work.result s = (.error e, t) := by
  cases h with
  | search target document => exact result_search_of_error he
  | upsert target id payload => exact Run.result_bind_error he _
  | delete target id => exact Run.result_bind_error he _
  | deleteIndex target => exact Run.result_bind_error he _
  | @createIndex target mapping hm =>
    unfold Client.createIndex
    rw [hm]
    exact Run.result_bind_error he _
  | bulk hne =>
    rw [← bulkBy_outcomes]
    exact result_bulkBy_of_error hne he

end Client

/-- Every operation whose request is answered by anything but a success fails with the status and
the text of the answer, and with the one reason there is for them, whatever has come as the body.
Nothing else is sent, and only a 404 says that something was not found. -/
theorem refused_operations_tell_answer (c : Client) {α : Type} {work : Run α} {call : Call}
    (hw : c.Makes work call) {request : Http.Request} (hr : c.request? call = some request)
    {s : Session} {status : UInt16} {body : Option (List UInt8)}
    (hp : s.peer (s.calls ++ [call]) = .answered status body) (h : 100 ≤ status ∧ status ≤ 999)
    (hs : ¬(200 ≤ status ∧ status ≤ 299)) :
    let text := Client.bodyText status body
    ∃ reason, (∀ other, Reason status text other ↔ other = reason) ∧
      (work.result s).1 = .error (.engine status reason text) ∧
      (work.result s).2.exchanges = s.exchanges ++ [⟨call, request⟩] ∧
      ((Error.engine status reason text).isNotFound = true ↔ status = 404) := by
  intro text
  have hsuccess : Http.isSuccess status = false :=
    Bool.eq_false_iff.2 fun h => hs (Http.isSuccess_iff.1 h)
  have hresult := hw.result_of_error (Client.result_send_of_refusal hr hp hsuccess)
  obtain ⟨reason, hreason⟩ : ∃ reason, refusal status text = .engine status reason text := ⟨_, rfl⟩
  refine ⟨reason, fun other => ?_, ?_, ?_, ?_⟩
  · rw [← refusal_eq_iff h, hreason, Error.engine.injEq, eq_self, eq_self, true_and, and_true]
    exact eq_comm
  · rw [hresult, ← hreason]
  · rw [hresult]
    rfl
  · rw [Error.isNotFound_iff]
    exact Option.some_inj

def Session.refusing (status : UInt16) (body : Option (List UInt8)) : Session where
  peer _ := .answered status body

/-- A reason inside the error counts, and of two reasons the last. A status without a phrase and a
text is told by its digits. -/
theorem reason_is_last_told :
    let members :=
      [("error", .str "gone"),
        ("error", .obj [("reason", .str "lost"), ("reason", .str "no such document")])]
    let deletion :=
      (localClient.delete "books" "emma").result
        (.refusing 404 (some (Bulk.Verdict.octets members)))
    let search := (localClient.search "books" .null).result (.refusing 599 (some []))
    (∃ text, deletion.1 = .error (.engine 404 "no such document" (some text)) ∧
      Accepts text (.obj members)) ∧
      search.1 = .error (.engine 599 "599" (some "")) := by
  intro members deletion search
  constructor
  · obtain ⟨request, hr⟩ :=
      Client.exists_request localClient_isFor (.inl rfl) (.delete "books" "emma")
    obtain ⟨reason, hreason, herror, -⟩ :=
      refused_operations_tell_answer localClient (.delete "books" "emma") hr
        (s := .refusing 404 (some (Bulk.Verdict.octets members))) rfl (by decide) (by decide)
    have haccepts : Accepts (String.ofList (Text.Utf8.decodeBody (Bulk.Verdict.octets members)))
        (.obj members) :=
      ⟨Bulk.Verdict.writes_octets ⟨trivial, ⟨trivial, trivial, trivial⟩, trivial⟩, by decide⟩
    obtain rfl : "no such document" = reason :=
      (hreason _).1 (.told rfl ⟨_, haccepts, .within rfl rfl⟩)
    exact ⟨_, herror, haccepts⟩
  · obtain ⟨request, hr⟩ :=
      Client.exists_request localClient_isFor (.inl rfl) (.search "books" .null)
    obtain ⟨reason, hreason, herror, -⟩ :=
      refused_operations_tell_answer localClient (.search "books" .null) hr
        (s := .refusing 599 (some [])) rfl (by decide) (by decide)
    have huninformed : ∀ t ∈ some "", ∀ r, ¬Informs t r := by
      rintro t ht r ⟨v, hv, -⟩
      obtain rfl := Option.some.inj ht
      exact not_accepts_empty v hv
    obtain rfl : "599" = reason := (hreason _).1 (.untold huninformed)
    exact herror

end RecordSearch
