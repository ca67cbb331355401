import RecordSearch.Proofs.Bulk.Written
import RecordSearch.Proofs.Client.Bulk
import RecordSearch.Proofs.Indexer.Operations

/-! What is seen of failures when a batch is sent as one request and as many. -/
namespace RecordSearch
open Json Bulk

/-- Calls to come, made one after another, are answered by verdicts, one for each call. -/
def Session.Answers (s : Session) (calls : List Call) (verdicts : List Verdict) : Prop :=
  ∀ k o, verdicts[k]? = some o →
    ∃ body, s.peer (s.calls ++ calls.take (k + 1)) = .answered o.status body ∧ o.Answers body

/-- Operations to come, sent together, are answered by one success that lists the verdicts. -/
def Session.AnswersTogether (s : Session) (operations : List Operation)
    (verdicts : List Verdict) : Prop :=
  ∃ octets, s.peer (s.calls ++ [.bulk operations]) = .answered 200 (some octets) ∧
    Verdict.ListedIn verdicts (String.ofList (Text.Utf8.decodeBody octets))

theorem Session.Agrees.answers {s t : Session} (h : t.Agrees s) {calls : List Call}
    {verdicts : List Verdict} (ha : s.Answers calls verdicts) : t.Answers calls verdicts := by
  intro k o ho
  rw [h.peer, h.calls]
  exact ha k o ho

theorem Session.Agrees.answersTogether {s t : Session} (h : t.Agrees s)
    {operations : List Operation} {verdicts : List Verdict}
    (ha : s.AnswersTogether operations verdicts) : t.AnswersTogether operations verdicts := by
  unfold Session.AnswersTogether
  rw [h.peer, h.calls]
  exact ha

namespace Bulk.Verdict

/-- Verdicts told one by one come to a success, or to the refusal that the first failure is. -/
structure EndsAlone (verdicts : List Verdict) (x : Except Error Unit) : Prop where
  ok : verdicts.find? failed = none → x = .ok ()
  error : ∀ o, verdicts.find? failed = some o →
    ∃ body, o.Answers body ∧ x = .error (refusal o.status (Client.bodyText o.status body))

/-- Verdicts told together are read if all of them are, and then come to a success or to the first
failure. -/
structure EndsTogether (verdicts : List Verdict) (x : Except Error Unit) : Prop where
  unread : ¬(∀ o ∈ verdicts, o.depth ≤ 123) → x = .error (.invalidResponse .malformed)
  ok : (∀ o ∈ verdicts, o.depth ≤ 123) → verdicts.find? failed = none → x = .ok ()
  error : (∀ o ∈ verdicts, o.depth ≤ 123) →
    ∀ o, verdicts.find? failed = some o →
    ∃ body, x = .error (.engine o.status o.reasonTogether body)

/-- Two results that look alike from outside: both are successes, or both the first failure, with
one status and one reason. -/
def ShownAlike (verdicts : List Verdict) (x y : Except Error Unit) : Prop :=
  (x = .ok () ∧ y = .ok ()) ∨ ∃ o reason body body', verdicts.find? failed = some o ∧
    x = .error (.engine o.status reason body) ∧ y = .error (.engine o.status reason body')

variable {verdicts : List Verdict} {x y : Except Error Unit}

private theorem find?_failed_eq_none_iff :
    verdicts.find? failed = none ↔ ∀ o ∈ verdicts, o.failed = false := by
  simp

private theorem depth_eq_zero {o : Verdict} (h : o.failed = false) : o.depth = 0 := by
  rw [depth, o.error_of_not_failed h]
  rfl

theorem EndsAlone.eq_ok_iff (h : EndsAlone verdicts x) :
    x = .ok () ↔ ∀ o ∈ verdicts, o.failed = false := by
  rw [← find?_failed_eq_none_iff]
  refine ⟨fun hx => ?_, h.ok⟩
  by_contra hf
  obtain ⟨o, ho⟩ := Option.ne_none_iff_exists'.1 hf
  obtain ⟨body, -, he⟩ := h.error o ho
  rw [hx] at he
  contradiction

theorem EndsTogether.eq_ok_iff (h : EndsTogether verdicts x) :
    x = .ok () ↔ ∀ o ∈ verdicts, o.failed = false := by
  constructor
  · intro hx
    have hall : ∀ o ∈ verdicts, o.depth ≤ 123 := by
      by_contra hn
      rw [h.unread hn] at hx
      contradiction
    rw [← find?_failed_eq_none_iff]
    by_contra hf
    obtain ⟨o, ho⟩ := Option.ne_none_iff_exists'.1 hf
    obtain ⟨body, he⟩ := h.error hall o ho
    rw [hx] at he
    contradiction
  · intro hall
    have hdepth : ∀ o ∈ verdicts, o.depth ≤ 123 :=
      fun o ho => (depth_eq_zero (hall o ho)).le.trans (Nat.zero_le _)
    exact h.ok hdepth (find?_failed_eq_none_iff.2 hall)

/-- The first failure is told with its own reason, if its error is not too deep to be read from a
body. -/
theorem EndsAlone.eq_engine (h : EndsAlone verdicts x) {o : Verdict}
    (ho : verdicts.find? failed = some o) (hd : o.depth ≤ 126) :
    ∃ body, x = .error (.engine o.status o.reasonAlone body) := by
  obtain ⟨body, hbody, he⟩ := h.error o ho
  exact ⟨_, he.trans (congrArg _ (o.refusal_eq hbody hd))⟩

private theorem reason_eq {z : Except Error Unit} {status : UInt16} {reason reason' : String}
    {body body' : Option String} (h : z = .error (.engine status reason body))
    (h' : z = .error (.engine status reason' body')) : reason = reason' := by
  rw [h] at h'
  exact (Error.engine.inj (Except.error.inj h')).2.1

/-- What is read together and has one reason looks alike. -/
private theorem shownAlike_of_toldAlike (hx : EndsAlone verdicts x) (hy : EndsTogether verdicts y)
    (hall : ∀ o ∈ verdicts, o.depth ≤ 123)
    (htold : ∀ o, verdicts.find? failed = some o → o.ToldAlike) : ShownAlike verdicts x y := by
  cases ho : verdicts.find? failed with
  | none => exact .inl ⟨hx.ok ho, hy.ok hall ho⟩
  | some o =>
    have hdepth := hall o (List.mem_of_find?_eq_some ho)
    obtain ⟨body, hxe⟩ := hx.eq_engine ho (by omega)
    obtain ⟨body', hye⟩ := hy.error hall o ho
    rw [(o.reasonAlone_eq_reasonTogether_iff (List.find?_some ho)).2 (htold o ho)] at hxe
    exact .inr ⟨o, o.reasonTogether, body, body', ho, hxe, hye⟩

/-- The two ends look alike exactly if all verdicts can be read together and the first failure has
one reason. -/
theorem shownAlike_iff (hx : EndsAlone verdicts x) (hy : EndsTogether verdicts y) :
    ShownAlike verdicts x y ↔
    (∀ o ∈ verdicts, o.depth ≤ 123) ∧ ∀ o, verdicts.find? failed = some o → o.ToldAlike := by
  constructor
  · rintro (⟨hok, -⟩ | ⟨o, reason, body, body', ho, hxe, hye⟩)
    · have hall := hx.eq_ok_iff.1 hok
      refine ⟨fun o ho => (depth_eq_zero (hall o ho)).le.trans (Nat.zero_le _), fun o ho => ?_⟩
      rw [find?_failed_eq_none_iff.2 hall] at ho
      contradiction
    · have hall : ∀ o ∈ verdicts, o.depth ≤ 123 := by
        by_contra hn
        exact absurd (Except.error.inj ((hy.unread hn).symm.trans hye)) nofun
      refine ⟨hall, fun o' ho' => ?_⟩
      obtain rfl : o = o' := Option.some.inj (ho.symm.trans ho')
      have hdepth := hall o (List.mem_of_find?_eq_some ho)
      obtain ⟨_, halone⟩ := hx.eq_engine ho (by omega)
      obtain ⟨_, htogether⟩ := hy.error hall o ho
      have hreason : o.reasonAlone = o.reasonTogether :=
        (reason_eq halone hxe).trans (reason_eq hye htogether)
      exact (o.reasonAlone_eq_reasonTogether_iff (List.find?_some ho)).1 hreason
  · rintro ⟨hall, htold⟩
    exact shownAlike_of_toldAlike hx hy hall htold

end Bulk.Verdict

namespace Client
variable {c : Client} {u : Url}

/-- Operations sent one by one end with the first failure. -/
theorem each_of_answers (h : c.IsFor u) (hs : u.Sendable) {operations : List Operation}
    {verdicts : List Verdict} {s : Session} (hlen : verdicts.length = operations.length)
    (ha : s.Answers (operations.map (·.call)) verdicts) :
    Verdict.EndsAlone verdicts ((c.each operations).result s).1 := by
  induction operations generalizing verdicts s with
  | nil =>
    obtain rfl := List.eq_nil_of_length_eq_zero hlen
    exact ⟨fun _ => rfl, nofun⟩
  | cons p operations ih =>
    cases verdicts with
    | nil => contradiction
    | cons o verdicts =>
      obtain ⟨request, hr⟩ := exists_request h hs p.call
      obtain ⟨body, hp, hbody⟩ := ha 0 o rfl
      cases hf : o.failed with
      | true =>
        have hsend := result_send_of_refusal (s := s) hr hp (by simpa [Verdict.failed] using hf)
        have hfirst : (o :: verdicts).find? Verdict.failed = some o := List.find?_cons_of_pos hf
        rw [result_each_of_error c hsend]
        refine ⟨fun hnone => ?_, fun o' ho => ?_⟩
        · exact absurd (hfirst.symm.trans hnone) (Option.some_ne_none o)
        · obtain rfl := Option.some.inj (hfirst.symm.trans ho)
          exact ⟨body, hbody, rfl⟩
      | false =>
        have hsend := result_send_of_success (s := s) hr hp (by simpa [Verdict.failed] using hf)
        have hrest : ((c.announced p.call s).sending p.call request).Answers
            (operations.map (·.call)) verdicts := by
          intro k o ho
          obtain ⟨body, hp, hbody⟩ := ha (k + 1) o ho
          exact ⟨body, by simpa using hp, hbody⟩
        have hfirst : (o :: verdicts).find? Verdict.failed = verdicts.find? Verdict.failed :=
          List.find?_cons_of_neg (by simp [hf])
        obtain ⟨hok, herror⟩ := ih (Nat.succ.inj hlen) hrest
        rw [result_each_of_ok c hsend]
        exact ⟨fun hnone => hok (hfirst ▸ hnone), fun o' ho => herror o' (hfirst ▸ ho)⟩

/-- Operations sent together fail for the first failure, or for an answer that cannot be read. -/
theorem bulk_of_answers (h : c.IsFor u) (hs : u.Sendable) {operations : List Operation}
    {verdicts : List Verdict} {s : Session} (hne : operations ≠ [])
    (ha : s.AnswersTogether operations verdicts) :
    Verdict.EndsTogether verdicts ((c.bulk operations).result s).1 := by
  obtain ⟨octets, hp, hl⟩ := ha
  obtain ⟨reply, he, ho, hd⟩ := Verdict.decode_listed hl
  obtain ⟨request, hr⟩ := exists_request h hs (.bulk operations)
  have hstatus : Http.isSuccess 200 = true := by decide
  have htext : bodyText 200 (some octets) = some (String.ofList (Text.Utf8.decodeBody octets)) :=
    rfl
  have hfirst := Verdict.firstFailure_eq he ho
  refine ⟨fun hn => ?_, fun hall hnone => ?_, fun hall o hsome => ?_⟩
  · rw [if_neg hn] at hd
    exact result_bulk_of_fault hne hr hp hstatus htext hd
  · rw [if_pos hall] at hd
    rw [hnone] at hfirst
    exact (result_bulk_of_none hne hr hp hstatus htext hd hfirst).1
  · rw [if_pos hall] at hd
    rw [hsome] at hfirst
    exact ⟨_, (result_bulk_of_some hne hr hp hstatus htext hd hfirst).1⟩

end Client

namespace Indexer
variable {i : Indexer} {work : Run Unit} {operations : List Operation} {verdicts : List Verdict}
  {u : Url} {s : Session}

theorem Does.endsAlone (h : i.Does work operations) (hb : i.bulk = false) (hc : i.client.IsFor u)
    (hu : u.Sendable) (hlen : verdicts.length = operations.length)
    (ha : s.Answers (operations.map (·.call)) verdicts) :
    Verdict.EndsAlone verdicts (work.result s).1 := by
  obtain ⟨t, ht, hresult, -⟩ := h s
  rw [hresult, carryOut_of_single hb]
  exact Client.each_of_answers hc hu hlen (ht.answers ha)

theorem Does.endsTogether (h : i.Does work operations) (hb : i.bulk = true) (hc : i.client.IsFor u)
    (hu : u.Sendable) (hlen : verdicts.length = operations.length)
    (ha : s.AnswersTogether operations verdicts) :
    Verdict.EndsTogether verdicts (work.result s).1 := by
  by_cases hne : operations = []
  · subst hne
    obtain rfl := List.eq_nil_of_length_eq_zero hlen
    exact ⟨fun hn => absurd (List.forall_mem_nil _) hn, fun _ _ => (h.of_nil s).1, nofun⟩
  · obtain ⟨t, ht, hresult, -⟩ := h s
    rw [hresult, carryOut_of_bulk hb]
    exact Client.bulk_of_answers hc hu hne (ht.answersTogether ha)

end Indexer

/-- Whether a batch fails does not depend on the mode, but what is seen of the failure may. Both
modes show the same status and reason exactly if no error nests so deep that the answer to all
cannot be read, and the first failure is told alike. An error that is a text, a status without a
phrase and a status without a body are told in two ways. -/
theorem modes_show_same_failure_iff {R : Type} {c : Client} {u : Url} (h : c.IsFor u)
    (hu : u.Sendable) (settings : Settings) (type : RecordType R) (records : List R)
    {work : Indexer → Run Unit} {operations : List Operation}
    (hp : Indexer.Plan type settings.softDelete records work operations) {verdicts : List Verdict}
    (hlen : verdicts.length = operations.length) {s t : Session}
    (hs : s.Answers (operations.map (·.call)) verdicts) (ht : t.AnswersTogether operations verdicts)
    {x y : Except Error Unit}
    (hx : ((work (.ofSettings c { settings with bulk := false })).result s).1 = x)
    (hy : ((work (.ofSettings c { settings with bulk := true })).result t).1 = y) :
    (x = .ok () ↔ ∀ o ∈ verdicts, o.failed = false) ∧
    (y = .ok () ↔ ∀ o ∈ verdicts, o.failed = false) ∧
      (Verdict.ShownAlike verdicts x y ↔
        (∀ o ∈ verdicts, o.depth ≤ 123) ∧
        ∀ o, verdicts.find? Verdict.failed = some o → o.ToldAlike) := by
  subst hx hy
  have hdoes (bulk : Bool) := hp.does (i := .ofSettings c { settings with bulk }) rfl
  have halone := (hdoes false).endsAlone rfl h hu hlen hs
  have htogether := (hdoes true).endsTogether rfl h hu hlen ht
  exact ⟨halone.eq_ok_iff, htogether.eq_ok_iff, Verdict.shownAlike_iff halone htogether⟩

def Session.telling (verdicts : List Verdict) : Session where
  peer calls := match verdicts[calls.length - 1]? with
    | some o => .answered o.status (some (Verdict.octets o.errorMembers))
    | none => .unreachable

def Session.tellingTogether (verdicts : List Verdict) (action : String) : Session where
  peer _ := .answered 200 (some (Verdict.octets (Verdict.report verdicts action)))

theorem Session.answers_telling {verdicts : List Verdict}
    (h : ∀ o ∈ verdicts, ∀ e, o.error = some e → e.Legible) {calls : List Call}
    (hlen : verdicts.length = calls.length) : (telling verdicts).Answers calls verdicts := by
  intro k o ho
  have hk : k < calls.length := hlen ▸ (List.getElem?_eq_some_iff.1 ho).1
  have hnone : (telling verdicts).calls = [] := rfl
  have hcount : ((telling verdicts).calls ++ calls.take (k + 1)).length - 1 = k := by
    rw [hnone, List.nil_append, List.length_take, Nat.min_eq_left hk, Nat.succ_sub_one]
  refine ⟨_, ?_, o.answers_octets (h o (List.mem_of_getElem? ho))⟩
  change (match verdicts[((telling verdicts).calls ++ calls.take (k + 1)).length - 1]? with
    | some o => Http.Outcome.answered o.status (some (Verdict.octets o.errorMembers))
    | none => .unreachable) = _
  rw [hcount, ho]

theorem Session.answersTogether_telling {verdicts : List Verdict}
    (h : ∀ o ∈ verdicts, ∀ e, o.error = some e → e.Legible) (action : String)
    (operations : List Operation) :
    (tellingTogether verdicts action).AnswersTogether operations verdicts :=
  ⟨_, rfl, Verdict.listedIn_report h action⟩

def Bulk.Verdict.missing : Verdict := ⟨404, none, by decide, fun _ => rfl⟩

def Bulk.Verdict.gone : Verdict :=
  ⟨404, some (.str "gone"), by decide, fun h => absurd h (by decide)⟩

theorem missing_document_shows_same_failure : Verdict.ShownAlike [.missing]
    ((Indexer.unindex (.ofSettings localClient { bulk := false }) titles ["emma"]).result
      (.telling [.missing])).1
    ((Indexer.unindex (.ofSettings localClient { bulk := true }) titles ["emma"]).result
      (.tellingTogether [.missing] "delete")).1 := by
  have hlegible : ∀ o ∈ [Verdict.missing], ∀ e, o.error = some e → e.Legible := by
    simp [Verdict.missing]
  have hshown :=
    modes_show_same_failure_iff localClient_isFor (.inl rfl) {} titles ["emma"] .unindex rfl
      (Session.answers_telling hlegible rfl)
      (Session.answersTogether_telling hlegible "delete" _) rfl rfl
  refine hshown.2.2.2 ⟨by decide, fun o ho => ?_⟩
  obtain rfl := Option.some.inj ho
  exact .inr rfl

/-- An error that is a text is the reason of a request of its own, but not of one among others. -/
theorem text_error_shows_two_reasons : ∃ x y body body',
    ((Indexer.unindex (.ofSettings localClient { bulk := false }) titles ["emma"]).result
      (.telling [.gone])).1 = x ∧
    ((Indexer.unindex (.ofSettings localClient { bulk := true }) titles ["emma"]).result
      (.tellingTogether [.gone] "delete")).1 = y ∧
    (Session.telling [.gone]).Answers [.delete "books" "emma"] [.gone] ∧
    (Session.tellingTogether [.gone] "delete").AnswersTogether [.delete "books" "emma"] [.gone] ∧
    x = .error (.engine 404 "gone" body) ∧ y = .error (.engine 404 "Not Found" body') ∧
    ¬Verdict.ShownAlike [.gone] x y := by
  have hlegible : ∀ o ∈ [Verdict.gone], ∀ e, o.error = some e → e.Legible := by
    simp [Verdict.gone, Value.Legible]
  have hs : (Session.telling [.gone]).Answers [.delete "books" "emma"] [.gone] :=
    Session.answers_telling hlegible rfl
  have ht := Session.answersTogether_telling hlegible "delete" [.delete "books" "emma"]
  have hdoes (bulk : Bool) :=
    Indexer.does_unindex (.ofSettings localClient { bulk }) titles ["emma"]
  have halone : Verdict.EndsAlone [.gone] _ :=
    (hdoes false).endsAlone rfl localClient_isFor (.inl rfl) rfl hs
  have htogether : Verdict.EndsTogether [.gone] _ :=
    (hdoes true).endsTogether rfl localClient_isFor (.inl rfl) rfl ht
  have hdepth : ∀ o ∈ [Verdict.gone], o.depth ≤ 123 := by decide
  obtain ⟨body, hx⟩ := halone.eq_engine rfl (by decide)
  obtain ⟨body', hy⟩ := htogether.error hdepth .gone rfl
  refine ⟨_, _, body, body', rfl, rfl, hs, ht, hx, hy, fun hshown => ?_⟩
  have htold : "gone" = "Not Found" :=
    ((Verdict.shownAlike_iff halone htogether).1 hshown).2 .gone rfl
  exact absurd htold (by decide)

end RecordSearch
