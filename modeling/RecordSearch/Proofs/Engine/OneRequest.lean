import RecordSearch.Proofs.Engine.Creation
import RecordSearch.Proofs.Engine.Search
import RecordSearch.Proofs.Indexer.Operations
import RecordSearch.Proofs.Response.Written

/-! A search from end to end: one request, at most one question to the store, and one error for each
place where it can stop. -/
namespace RecordSearch
open Json

def Http.Outcome.Brings (o : Outcome) (answer : Response.Search) : Prop :=
  ∃ status body text, o = .answered status body ∧ isSuccess status = true ∧
    Client.bodyText status body = some text ∧
    decodeText Response.Search.decode text = .ok answer

namespace Response
variable {R : Type}

/-- A page tells the total that the engine reports, else the number of hits, and calls it exact if
it is reported and no lower bound. -/
structure Page.Tells (page : Page R) (answer : Search) : Prop where
  total : page.total = match answer.hits.total with
    | some total => total.value.toNat
    | none => answer.hits.hits.length
  exact : page.totalIsExact = true ↔
    ∃ total, answer.hits.total = some total ∧ total.isLowerBound = false

theorem Page.tells_mk (records : List R) (answer : Search) :
    Tells ⟨records, answer.totalCount, answer.totalIsExact⟩ answer := by
  constructor
  · rw [Search.totalCount, Search.reportedTotal]
    cases answer.hits.total <;> rfl
  · rw [Search.totalIsExact, Search.lowerBound]
    cases answer.hits.total <;> simp

theorem Search.ids_eq_nil_iff (answer : Search) : answer.ids = [] ↔ answer.hits.hits = [] :=
  List.map_eq_nil_iff

end Response

/-- What a search comes to by what becomes of its request, and what the store is asked. -/
inductive SearchEnds {R : Type} (type : RecordType R) (store : RecordStore R) :
    Http.Outcome → Except Error (Response.Page R) → List (List String) → Prop
  /-- Nothing comes back. -/
  | unanswered {o : Http.Outcome} (h : o = .unreachable ∨ o = .dropped) :
      SearchEnds type store o (.error .transport) []
  /-- The engine refuses. -/
  | refused {status : UInt16} {body : Option (List UInt8)} {reason : String}
      (hs : Http.isSuccess status = false)
      (hr : refusal status (Client.bodyText status body) =
        .engine status reason (Client.bodyText status body)) :
      SearchEnds type store (.answered status body)
        (.error (.engine status reason (Client.bodyText status body))) []
  /-- A success does not arrive whole. -/
  | cut {status : UInt16} {body : Option (List UInt8)} (hs : Http.isSuccess status = true)
      (ht : Client.bodyText status body = none) :
      SearchEnds type store (.answered status body) (.error .transport) []
  /-- A success cannot be read. -/
  | unread {status : UInt16} {body : Option (List UInt8)} {text : String} {fault : Fault}
      (hs : Http.isSuccess status = true) (ht : Client.bodyText status body = some text)
      (hd : decodeText Response.Search.decode text = .error fault) :
      SearchEnds type store (.answered status body) (.error (.invalidResponse fault)) []
  /-- There are no hits. -/
  | empty {o : Http.Outcome} {answer : Response.Search} {page : Response.Page R}
      (h : o.Brings answer) (hn : answer.hits.hits = []) (hr : page.records = [])
      (ht : page.Tells answer) :
      SearchEnds type store o (.ok page) []
  /-- The store fails. -/
  | unresolved {o : Http.Outcome} {answer : Response.Search} {cause : String} (h : o.Brings answer)
      (hn : answer.hits.hits ≠ []) (hf : store answer.ids = .error cause) :
      SearchEnds type store o (.error (.store cause)) [answer.ids]
  /-- The hits become records. -/
  | resolved {o : Http.Outcome} {answer : Response.Search} {fetched : List R}
      {page : Response.Page R} (h : o.Brings answer) (hn : answer.hits.hits ≠ [])
      (hf : store answer.ids = .ok fetched)
      (hr : page.records = Response.inRankOrder type.key answer.ids fetched)
      (ht : page.Tells answer) :
      SearchEnds type store o (.ok page) [answer.ids]

namespace Engine
variable {R : Type} {e : Engine} {type : RecordType R} {store : RecordStore R}
  {request : Query.Request} {s : Session}

/-- The settings of an engine that could be made are its own, it searches by itself, and requests
can be sent to its address. -/
theorem of_create {settings : Settings} (h : ((create settings).result s).1 = .ok e) :
    e.settings = settings ∧ e.executor = .engine ∧ ∃ u, e.client.IsFor u ∧ u.Sendable := by
  unfold create at h
  split at h
  · exact nomatch h
  · next hvalid =>
    cases hc : Client.ofSettings settings with
    | error cause =>
      rw [hc] at h
      exact nomatch h
    | ok c =>
      rw [hc] at h
      obtain rfl := Except.ok.inj h
      obtain ⟨u, hu, hfor⟩ := Client.isFor_of_ofSettings hc
      exact ⟨rfl, rfl, u, hfor, Settings.sendable_of_validate hvalid hu⟩

private structure Leaves (type : RecordType R) (store : RecordStore R) (x : Exchange) (s : Session)
    (o : Http.Outcome) (after : Except Error (Response.Page R) × Session) : Prop where
  unsent : o = .unreachable → after.2.exchanges = s.exchanges
  sent : o ≠ .unreachable → after.2.exchanges = s.exchanges ++ [x]
  ends : ∃ asked, after.2.lookups = s.lookups ++ asked ∧ SearchEnds type store o after.1 asked

/-- A search that fails before there is an answer has not asked the store. -/
private theorem leaves_error {x : Exchange} {o : Http.Outcome} {error : Error} {t : Session}
    (hne : o ≠ .unreachable) (hx : t.exchanges = s.exchanges ++ [x]) (hl : t.lookups = s.lookups)
    (h : SearchEnds type store o (.error error) []) :
    Leaves type store x s o (.error error, t) :=
  ⟨fun hu => absurd hu hne, fun _ => hx, [], hl.trans (List.append_nil _).symm, h⟩

private theorem leaves_answer {x : Exchange} {o : Http.Outcome} {answer : Response.Search}
    {t : Session} (h : o.Brings answer) (hx : t.exchanges = s.exchanges ++ [x])
    (hl : t.lookups = s.lookups) :
    Leaves type store x s o ((Response.reconcile type store answer).result t) := by
  have hne : o ≠ .unreachable := by
    obtain ⟨status, body, text, rfl, -⟩ := h
    exact nofun
  rcases Response.reconcile_cases type store answer t with
    ⟨hn, hr⟩ | ⟨cause, hn, hf, hr⟩ | ⟨fetched, u, hn, hf, hr, hu, hxu⟩
  · rw [Response.Search.ids_eq_nil_iff] at hn
    rw [hr]
    exact ⟨fun hu => absurd hu hne, fun _ => hx, [], by rw [hl, List.append_nil],
      .empty h hn rfl (Response.Page.tells_mk ..)⟩
  · rw [ne_eq, Response.Search.ids_eq_nil_iff] at hn
    rw [hr]
    exact ⟨fun hu => absurd hu hne, fun _ => hx, _, by rw [hl], .unresolved h hn hf⟩
  · rw [ne_eq, Response.Search.ids_eq_nil_iff] at hn
    rw [hr]
    exact ⟨fun hu => absurd hu hne, fun _ => hxu.trans hx, _, by rw [hu, hl],
      .resolved h hn hf rfl (Response.Page.tells_mk ..)⟩

private theorem leaves_search (he : e.executor = .engine) {r : Http.Request} (type : RecordType R)
    (store : RecordStore R)
    (hr : e.client.request? (.search type.indexName (e.document type request)) = some r)
    (s : Session) :
    Leaves type store ⟨.search type.indexName (e.document type request), r⟩ s
      (s.peer (s.calls ++ [.search type.indexName (e.document type request)]))
        ((e.search type store request).result s) := by
  have hrun : e.run type.indexName (e.document type request) =
      e.client.search type.indexName (e.document type request) := by
    unfold run
    rw [he]
  have hstop {error : Error} {t : Session}
      (h : (e.client.search type.indexName (e.document type request)).result
        (e.compiled type request s) = (.error error, t)) :
      (e.search type store request).result s =
        (.error error, t) := result_search_of_error (hrun ▸ h)
  generalize ho : s.peer (s.calls ++ [.search type.indexName (e.document type request)]) = o
  have hp :
      (e.compiled type request s).peer
        ((e.compiled type request s).calls ++ [.search type.indexName (e.document type request)]) =
        o := ho
  cases o with
  | unreachable =>
    rw [hstop (Client.result_search_of_error (Client.result_send_of_unreachable hr hp))]
    exact ⟨fun _ => rfl, fun hne => absurd rfl hne, [], (List.append_nil _).symm,
      .unanswered (.inl rfl)⟩
  | dropped =>
    rw [hstop (Client.result_search_of_error (Client.result_send_of_dropped hr hp))]
    exact leaves_error nofun rfl rfl (.unanswered (.inr rfl))
  | answered status body =>
    cases hs : Http.isSuccess status with
    | false =>
      rw [hstop (Client.result_search_of_error (Client.result_send_of_refusal hr hp hs))]
      exact leaves_error nofun rfl rfl (.refused hs rfl)
    | true =>
      cases ht : Client.bodyText status body with
      | none =>
        rw [hstop (Client.result_search_of_unread hr hp hs (Client.result_decoded_of_cut ht))]
        exact leaves_error nofun rfl rfl (.cut hs ht)
      | some text =>
        cases hd : decodeText Response.Search.decode text with
        | error fault =>
          rw [hstop (Client.result_search_of_unread hr hp hs
            (Client.result_decoded_of_fault ht hd))]
          exact leaves_error nofun rfl rfl (.unread hs ht hd)
        | ok answer =>
          rw [result_search_of_ok ((congrArg (Run.result · _) hrun).trans
            (Client.result_search hr hp hs ht hd))]
          exact leaves_answer ⟨status, body, text, rfl, hs, ht, hd⟩ rfl rfl

/-- The request of a search is a POST of the query document to the index. -/
private theorem request?_search {c : Client} {target : String} {document : Value} {r : Http.Request}
    (hr : c.request? (.search target document) = some r) :
    r.method = .post ∧ r.contentType = ["application/json"] ∧
    r.body = document.text ∧
    ∃ u, Url.ofText (c.url [target, "_search"]) = .ok u ∧ r.url = Http.bareUrl u := by
  obtain ⟨u, hu, rfl⟩ := Option.map_eq_some_iff.1 hr
  refine ⟨rfl, rfl, rfl, u, ?_, rfl⟩
  unfold Client.target? at hu
  split at hu
  · next v hv =>
    split at hu
    · exact hv.trans (congrArg _ (Option.some.inj hu))
    · exact nomatch hu
  · exact nomatch hu

/-- With a raw document nothing else of a request makes a difference. -/
private theorem search_congr {other : Query.Request} {raw : Value} (h : request.raw = some raw)
    (ho : other.raw = some raw) :
    e.search type store other = e.search type store request := by
  have hcompile : e.compile type other = e.compile type request := by
    unfold compile Query.compile
    rw [h, ho]
  unfold search execute
  rw [hcompile]

end Engine

/-- A search sends one request, a POST of its query document to the index. What becomes of the
request decides the rest: each place where a search can stop has its own error, the store is asked
once and only when there are hits, and nothing is sent after the request. A raw document is the
query document, and then no other part of the request makes a difference, nor does a page that is
asked for. -/
theorem search_sends_one_request {settings : Settings} {e : Engine} {start : Session}
    (he : ((Engine.create settings).result start).1 = .ok e) {R : Type} (type : RecordType R)
    (store : RecordStore R) (request : Query.Request) (s : Session) :
    let document := Query.compile settings.query type.fields request
    let call := Call.search type.indexName document
    let outcome := s.peer (s.calls ++ [call])
    let after := (e.search type store request).result s
    (∃ r u, r.method = .post ∧ Url.ofText (e.client.url [type.indexName, "_search"]) = .ok u ∧
      r.url = Http.bareUrl u ∧
      r.contentType = ["application/json"] ∧ r.body = document.text ∧
      (outcome = .unreachable → after.2.exchanges = s.exchanges) ∧
      (outcome ≠ .unreachable → after.2.exchanges = s.exchanges ++ [⟨call, r⟩])) ∧
    (∃ asked, after.2.lookups = s.lookups ++ asked ∧ SearchEnds type store outcome after.1 asked) ∧
    ∀ raw, request.raw = some raw → document = raw ∧
      (∀ other : Query.Request, other.raw = some raw →
        e.search type store other = e.search type store request) ∧
      ∀ perPage page, e.paginate type store request perPage page = e.search type store request := by
  intro document call outcome after
  obtain ⟨rfl, hexecutor, u, hfor, hu⟩ := Engine.of_create he
  obtain ⟨r, hr⟩ := Client.exists_request hfor hu call
  obtain ⟨hunsent, hsent, hends⟩ := Engine.leaves_search hexecutor type store hr s
  obtain ⟨hmethod, htype, hbody, v, hv, hurl⟩ := Engine.request?_search hr
  refine ⟨⟨r, v, hmethod, hv, hurl, htype, hbody, hunsent, hsent⟩, hends,
    fun raw hraw => ⟨?_, fun other ho => ?_, fun perPage page => ?_⟩⟩
  · change Query.compile _ _ _ = raw
    rw [Query.compile, hraw]
  · exact Engine.search_congr hraw ho
  · exact Engine.search_congr hraw hraw

private theorem create_default (start : Session) :
    ∃ e, ((Engine.create {}).result start).1 = .ok e := by
  obtain ⟨c, -, hc⟩ := Client.exists_ofSettings Settings.validate_default (by decide +kernel)
  exact ⟨_, by rw [Engine.result_create Settings.validate_default hc]⟩

/-- Three hits, two of them for one document, and a store that is out of order. -/
theorem failing_store_ends_search :
    let start : Session := { peer := .unreachable }
    let session : Session :=
      { peer := fun _ =>
          .answered 200
            (some (Bulk.Verdict.octets (Response.Hits.ofIds ["b", "a", "b"] 3).members)) }
    let store : RecordStore String := fun _ => .error "out of order"
    ∃ e, ((Engine.create {}).result start).1 = .ok e ∧
      ((e.search titles store { query := some "dune" }).result session).1 =
        .error (.store "out of order") ∧
      ((e.search titles store { query := some "dune" }).result session).2.lookups =
        [["b", "a", "b"]] := by
  intro start session store
  obtain ⟨e, he⟩ := create_default start
  refine ⟨e, he, ?_⟩
  obtain ⟨-, ⟨asked, hasked, hends⟩, -⟩ :=
    search_sends_one_request he titles store { query := some "dune" } session
  have hread {status : UInt16} {body : Option (List UInt8)} {text : String}
      (h : .answered 200
        (some (Bulk.Verdict.octets (Response.Hits.ofIds ["b", "a", "b"] 3).members)) =
        Http.Outcome.answered status body)
      (ht : Client.bodyText status body = some text) :
      decodeText Response.Search.decode text = .ok { hits := .ofIds ["b", "a", "b"] 3 } := by
    obtain ⟨rfl, rfl⟩ := Http.Outcome.answered.inj h
    obtain rfl := Option.some.inj ht
    exact Response.decodeText_ofIds ["b", "a", "b"] 3
  have hbrings {answer : Response.Search}
      (h : Http.Outcome.Brings
        (.answered 200 (some (Bulk.Verdict.octets (Response.Hits.ofIds ["b", "a", "b"] 3).members)))
        answer) :
      answer.ids = ["b", "a", "b"] := by
    obtain ⟨status, body, text, ho, -, ht, hd⟩ := h
    obtain rfl := Except.ok.inj ((hread ho ht).symm.trans hd)
    rfl
  rw [hasked]
  generalize ((e.search titles store { query := some "dune" }).result session).1 = x at hends ⊢
  generalize ho : session.peer _ = o at hends
  change .answered 200
    (some (Bulk.Verdict.octets (Response.Hits.ofIds ["b", "a", "b"] 3).members)) = o at ho
  cases hends with
  | unanswered h => rcases h with rfl | rfl <;> exact nomatch ho
  | refused hs _ =>
    obtain ⟨rfl, -⟩ := Http.Outcome.answered.inj ho
    exact absurd hs (by decide)
  | cut _ ht =>
    obtain ⟨rfl, rfl⟩ := Http.Outcome.answered.inj ho
    exact nomatch ht
  | unread _ ht hd => exact nomatch (hread ho ht).symm.trans hd
  | empty h hn =>
    subst ho
    rw [← Response.Search.ids_eq_nil_iff, hbrings h] at hn
    exact nomatch hn
  | unresolved h _ hf =>
    subst ho
    obtain rfl := Except.error.inj hf
    exact ⟨rfl, congrArg (fun ids => [ids]) (hbrings h)⟩
  | resolved _ _ hf => exact nomatch hf

end RecordSearch
