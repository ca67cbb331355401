import RecordSearch.Proofs.Client.Target
import RecordSearch.Proofs.Engine.Search
import RecordSearch.Proofs.Indexer.Operations
import RecordSearch.Proofs.Query.Document
import RecordSearch.Proofs.Query.Window
import RecordSearch.Proofs.Response.Written

/-! Pages one after another, over a ranking that stays as it is. -/
namespace RecordSearch
open Json

namespace Response

/-- An answer with just those hits of a ranking that a query document asks for. -/
def Search.Shows (answer : Search) (ids : List String) (document : Value) : Prop :=
  ∀ offset size : UInt32, document.get? "from" = some (.nat offset) →
    document.get? "size" = some (.nat size) →
    answer.ids = (ids.drop offset.toNat).take size.toNat

def IsExact (count : Nat) (total : Option Total) : Prop :=
  ∃ x, total = some x ∧ x.value.toNat = count ∧ x.isLowerBound = false

theorem totalCount_of_isExact {answer : Search} {count : Nat}
    (h : IsExact count answer.hits.total) :
    answer.totalCount = count ∧ answer.totalIsExact = true := by
  obtain ⟨x, hx, hcount, hlower⟩ := h
  simp [Search.totalCount, Search.reportedTotal, Search.totalIsExact, Search.lowerBound, hx,
    hcount, hlower]

end Response

/-- The engine holds the ids in this order, answers every search with the part that is asked for,
and reports such totals only. -/
def Peer.Ranks (peer : Peer) (target : String) (ids : List String)
    (reports : Option Response.Total → Prop) : Prop :=
  ∀ calls document, ∃ status body text answer,
    peer (calls ++ [.search target document]) = .answered status body ∧
    Http.isSuccess status = true ∧ Client.bodyText status body = some text ∧
    decodeText Response.Search.decode text = .ok answer ∧
    answer.Shows ids document ∧ reports answer.hits.total

/-- The same of whoever runs query documents: the engine behind a sendable address, or a
replacement. -/
def Engine.Ranks (e : Engine) (peer : Peer) (target : String) (ids : List String)
    (reports : Option Response.Total → Prop) : Prop :=
  match e.executor with
  | .engine => (∃ u, e.client.IsFor u ∧ u.Sendable) ∧ peer.Ranks target ids reports
  | .custom answers =>
    ∀ executions document, ∃ answer, answers (executions ++ [⟨target, document⟩]) = .ok answer ∧
      answer.Shows ids document ∧ reports answer.hits.total

/-- The store has one record for each of the ids, and gives those it is asked for in any order. -/
def Returns {R : Type} (store : RecordStore R) (record : String → R) (ids : List String) : Prop :=
  ∀ asked, asked.Nodup → asked ⊆ ids →
    ∃ records, store asked = .ok records ∧ records.Perm (asked.map record)

private def numberUnder (name : String) (document : Value) : Nat :=
  match document.get? name with
  | some (.num n) => (n.toNat? UInt32.size).getD 0
  | _ => 0

private theorem numberUnder_of_nat {name : String} {document : Value} {n : UInt32}
    (h : document.get? name = some (.nat n)) :
    numberUnder name document = n.toNat := by
  unfold numberUnder
  simp only [h, Value.nat, Number.toNat?_ofUInt32, Option.getD_some]

private def shown (ids : List String) (document : Value) : Response.Hits :=
  .ofIds ((ids.drop (numberUnder "from" document)).take (numberUnder "size" document))
    (UInt64.ofNat ids.length)

def Peer.ranking (ids : List String) : Peer := fun calls =>
  match calls.getLast? with
  | some (.search _ document) =>
    .answered 200 (some (Bulk.Verdict.octets (shown ids document).members))
  | _ => .unreachable

theorem Peer.ranking_ranks (ids : List String) (target : String) :
    (Peer.ranking ids).Ranks target ids fun total =>
    total = some (.bare (UInt64.ofNat ids.length)) := by
  intro calls document
  refine ⟨200, some (Bulk.Verdict.octets (shown ids document).members), _, _, ?_, by decide, rfl,
    Response.decodeText_ofIds _ _, ?_, rfl⟩
  · unfold ranking
    rw [List.getLast?_concat]
  · intro offset size ho hs
    rw [Response.Search.ids_ofIds, numberUnder_of_nat ho, numberUnder_of_nat hs]

namespace Engine
variable {R : Type} {e : Engine} {ids : List String} {reports : Option Response.Total → Prop}

/-- A query document is answered with its part of the ranking, whatever has been asked before. -/
theorem result_run_of_ranks {peer : Peer} {target : String} (h : e.Ranks peer target ids reports)
    (document : Value) {s : Session} (hs : s.peer = peer) :
    ∃ answer t, (e.run target document).result s = (.ok answer, t) ∧ t.peer = s.peer ∧
      answer.Shows ids document ∧ reports answer.hits.total := by
  subst hs
  unfold Ranks at h
  split at h
  · next he =>
    obtain ⟨⟨u, hfor, hu⟩, hranks⟩ := h
    obtain ⟨status, body, text, answer, hp, hsuccess, ht, hd, hshows, hreports⟩ :=
      hranks s.calls document
    obtain ⟨request, hr⟩ := Client.exists_request hfor hu (.search target document)
    refine ⟨answer, e.client.searched target document request answer s, ?_, rfl, hshows, hreports⟩
    unfold run
    rw [he]
    exact Client.result_search hr hp hsuccess ht hd
  · next answers he =>
    obtain ⟨answer, ha, hshows, hreports⟩ := h s.executions document
    exact ⟨answer, _, result_run_custom he ha, rfl, hshows, hreports⟩

variable {type : RecordType R} {store : RecordStore R} {record : String → R}
  {request : Query.Request} {perPage : UInt32}

/-- A page that can be counted starts where the pages before it end. -/
private theorem window_of_page (p : Query.Policy) {r : Query.Request}
    (hsize : r.perPage = some perPage) (hpos : 0 < perPage) {i : Nat}
    (hpage : r.page = some (UInt32.ofNat (i + 1))) (hi : i + 1 ≤ 4294967295)
    (hbound : i * perPage.toNat ≤ 4294967295) :
    r.size p = perPage.toNat ∧ r.offset p = i * perPage.toNat := by
  have hn : 0 < perPage.toNat := UInt32.lt_iff_toNat_lt.1 hpos
  have hs : r.size p = perPage.toNat := by simp [Query.Request.size, hsize, hn]
  have hnumber : (UInt32.ofNat (i + 1)).toNat = i + 1 :=
    UInt32.toNat_ofNat_of_lt' (Nat.lt_succ_of_le hi)
  refine ⟨hs, ?_⟩
  rw [Query.Request.offset, hpage]
  dsimp only
  rw [hnumber, hs, Nat.max_eq_left (Nat.le_add_left 1 i), Nat.add_sub_cancel,
    Nat.min_eq_left hbound]

/-- One page holds the records of its part of the ranking, whatever page the request itself asks
for. -/
theorem result_paginate {peer : Peer} (hranks : e.Ranks peer type.indexName ids reports)
    (hraw : request.raw = none) (hids : ids.Nodup) (hkey : ∀ id ∈ ids, type.key (record id) = id)
    (hstore : Returns store record ids) (hpos : 0 < perPage) {i : Nat} (hi : i + 1 ≤ 4294967295)
    (hbound : i * perPage.toNat ≤ 4294967295) {s : Session} (hs : s.peer = peer) :
    ∃ page t,
      (e.paginate type store request perPage (UInt32.ofNat (i + 1))).result s = (.ok page, t) ∧
      t.peer = peer ∧
      page.records = ((ids.drop (i * perPage.toNat)).take perPage.toNat).map record ∧
      ∃ total, reports total ∧
        ∀ n, Response.IsExact n total → page.total = n ∧ page.totalIsExact = true := by
  generalize hr : { request with
    perPage := some perPage, page := some (UInt32.ofNat (i + 1)) : Query.Request } = r
  have hdocument : e.document type r = (Query.plan e.settings.query type.fields r).toValue := by
    subst hr
    exact Query.compile_of_none _ _ hraw
  obtain ⟨answer, t, hrun, ht, hshows, hreports⟩ :=
    result_run_of_ranks hranks (e.document type r) (s := e.compiled type r s) hs
  have hwindow : answer.ids = (ids.drop (i * perPage.toNat)).take perPage.toNat := by
    obtain ⟨hsize, hoffset⟩ :=
      window_of_page e.settings.query (r := r) (by rw [← hr]) hpos (by rw [← hr]) hi hbound
    rw [hdocument] at hshows
    rw [hshows _ _ (Query.Compiled.get?_from _) (Query.Compiled.get?_size _), ← hoffset, ← hsize,
      ← Query.toNat_pageOffset, ← Query.toNat_pageSize]
    rfl
  have hsub : answer.ids.Sublist ids :=
    hwindow ▸ (List.take_sublist ..).trans (List.drop_sublist ..)
  obtain ⟨fetched, hfetched, hperm⟩ := hstore answer.ids (hids.sublist hsub) hsub.subset
  have hasked : answer.ids ≠ [] → store answer.ids = .ok fetched := fun _ => hfetched
  obtain ⟨u, hsearch, hu⟩ := result_search hrun hasked
  refine ⟨⟨Response.inRankOrder type.key answer.ids fetched, answer.totalCount,
    answer.totalIsExact⟩, u, ?_, hu.trans (ht.trans hs), ?_, answer.hits.total, hreports,
    fun n hn => Response.totalCount_of_isExact hn⟩
  · unfold paginate
    rw [hr]
    exact hsearch
  · rw [← hwindow]
    exact Response.inRankOrder_map (hids.sublist hsub)
      (fun id hid => hkey id (hsub.subset hid)) hperm

def pages (e : Engine) (type : RecordType R) (store : RecordStore R) (request : Query.Request)
    (perPage : UInt32) (count : Nat) : Run (List (Response.Page R)) :=
  (List.range count).mapM fun i => e.paginate type store request perPage (UInt32.ofNat (i + 1))

end Engine

/-- Pieces of one length, one after another, are the list from its start. -/
private theorem flatMap_windows {α : Type} (xs : List α) (n k : Nat) :
    ((List.range k).flatMap fun i => (xs.drop (i * n)).take n) = xs.take (k * n) := by
  induction k with
  | zero => simp
  | succ k ih =>
    rw [List.range_succ, List.flatMap_append, ih, List.flatMap_singleton, Nat.succ_mul,
      List.take_add]

private theorem flatMap_of_forall₂ {α β γ : Type} {f : α → List γ} {g : β → List γ} {xs : List α}
    {ys : List β} (h : List.Forall₂ (fun x y => g y = f x) xs ys) :
    ys.flatMap g = xs.flatMap f := by
  induction h with
  | nil => rfl
  | cons hxy _ ih => rw [List.flatMap_cons, List.flatMap_cons, hxy, ih]

private theorem forall_of_forall₂ {α β : Type} {p : β → Prop} {xs : List α} {ys : List β}
    (h : List.Forall₂ (fun _ y => p y) xs ys) :
    ∀ y ∈ ys, p y := by
  induction h with
  | nil => exact List.forall_mem_nil _
  | cons hy _ ih => exact List.forall_mem_cons.2 ⟨hy, ih⟩

/-- Page by page a ranking is gone through from its start, and no record is lost or repeated,
whatever page the request itself asks for. Pages that begin behind the end are empty. If the exact
number of matches is reported, every page tells it. -/
theorem pages_cover_ranking {R : Type} (e : Engine) (type : RecordType R) (store : RecordStore R)
    {request : Query.Request} (hraw : request.raw = none) {ids : List String} (hids : ids.Nodup)
    {record : String → R} (hkey : ∀ id ∈ ids, type.key (record id) = id)
    (hstore : Returns store record ids) {reports : Option Response.Total → Prop} {s : Session}
    (hranks : e.Ranks s.peer type.indexName ids reports) {perPage : UInt32} (hpos : 0 < perPage)
    {k : UInt32} (hk : (k.toNat - 1) * perPage.toNat ≤ 4294967295) :
    ∃ pages t, (e.pages type store request perPage k.toNat).result s = (.ok pages, t) ∧
      pages.length = k.toNat ∧
      pages.flatMap (·.records) =
        (ids.take (min ids.length (k.toNat * perPage.toNat))).map record ∧
      ((∀ total, reports total → Response.IsExact ids.length total) →
        ∀ page ∈ pages, page.total = ids.length ∧ page.totalIsExact = true) := by
  have step : ∀ i ∈ List.range k.toNat, ∀ t : Session, t.peer = s.peer → ∃ page u,
      (e.paginate type store request perPage (UInt32.ofNat (i + 1))).result t = (.ok page, u) ∧
      u.peer = s.peer ∧
      page.records = ((ids.drop (i * perPage.toNat)).take perPage.toNat).map record ∧
      ∃ total, reports total ∧
        ∀ n, Response.IsExact n total → page.total = n ∧ page.totalIsExact = true := by
    intro i hi t ht
    rw [List.mem_range] at hi
    have hlast : i * perPage.toNat ≤ (k.toNat - 1) * perPage.toNat :=
      Nat.mul_le_mul_right _ (Nat.le_sub_one_of_lt hi)
    have hnumber : k.toNat < 4294967296 := k.toNat_lt
    exact Engine.result_paginate hranks hraw hids hkey hstore hpos (by omega) (hlast.trans hk) ht
  obtain ⟨pages, t, hresult, -, hpages⟩ := Run.result_mapM step rfl
  refine ⟨pages, t, hresult, ?_, ?_, fun hexact => ?_⟩
  · rw [← hpages.length_eq, List.length_range]
  · calc pages.flatMap (·.records)
        = (List.range k.toNat).flatMap
            fun i => ((ids.drop (i * perPage.toNat)).take perPage.toNat).map record :=
          flatMap_of_forall₂ (hpages.imp fun _ _ h => h.1)
      _ = (ids.take (k.toNat * perPage.toNat)).map record := by
          rw [← List.map_flatMap, flatMap_windows]
      _ = (ids.take (min ids.length (k.toNat * perPage.toNat))).map record := by
          rw [Nat.min_comm, ← List.take_eq_take_min]
  · refine forall_of_forall₂ (hpages.imp fun i page h => ?_)
    obtain ⟨-, total, hreports, htold⟩ := h
    exact htold _ (hexact total hreports)

/-- Two titles a page from an engine that ranks three; the third page is empty. -/
theorem titles_are_paged :
    let engine : Engine := ⟨{}, localClient, .engine⟩
    let session : Session := { peer := .ranking ["c", "a", "b"] }
    let store : RecordStore String := fun asked => .ok asked.reverse
    ∃ pages t,
      (engine.pages titles store { page := some 7, perPage := some 1 } 2 3).result session =
        (.ok pages, t) ∧
      pages.length = 3 ∧ pages.flatMap (·.records) = ["c", "a", "b"] ∧
      ∀ page ∈ pages, page.total = 3 ∧ page.totalIsExact = true := by
  intro engine session store
  have hstore : Returns store id ["c", "a", "b"] := fun asked _ _ => ⟨asked.reverse, rfl, by simp⟩
  have hranks : engine.Ranks session.peer titles.indexName ["c", "a", "b"]
      fun total => total = some (.bare 3) :=
    ⟨⟨localUrl, localClient_isFor, .inl rfl⟩, Peer.ranking_ranks _ _⟩
  have hpos : (0 : UInt32) < 2 := by decide
  have hk : ((3 : UInt32).toNat - 1) * (2 : UInt32).toNat ≤ 4294967295 := by decide
  have hraw : ({ page := some 7, perPage := some 1 } : Query.Request).raw = none := rfl
  obtain ⟨pages, t, hresult, hlength, hrecords, htotals⟩ :=
    pages_cover_ranking engine titles store hraw (by decide) (fun _ _ => rfl) hstore hranks hpos hk
  exact ⟨pages, t, hresult, hlength, hrecords, htotals fun total h => ⟨_, h, rfl, rfl⟩⟩

end RecordSearch
