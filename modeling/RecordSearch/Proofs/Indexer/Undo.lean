import Mathlib.Data.List.Nodup
import RecordSearch.Proofs.Indexer.Documents
import RecordSearch.Proofs.Indexer.FirstFailure
import RecordSearch.Proofs.Indexer.Twins

/-! A batch that is put in and taken out again leaves the documents of the engine as they were, but
for those it replaced. -/
namespace RecordSearch
open Json

namespace Documents
variable {R : Type} {d before mid after : Documents} {target : String} {key : R → String}
  {records : List R}

/-- Under the keys of records stands what `value` says of them, and nothing else has changed. -/
structure Sets (before : Documents) (target : String) (key : R → String) (records : List R)
    (value : R → Option Payload) (after : Documents) : Prop where
  there : ∀ r ∈ records, after (target, key r) = value r
  elsewhere : ∀ place, (∀ r ∈ records, place ≠ (target, key r)) → after place = before place

theorem Sets.trans {value value' : R → Option Payload}
    (h : before.Sets target key records value mid) (h' : mid.Sets target key records value' after) :
    before.Sets target key records value' after :=
  ⟨h'.there, fun place hplace => (h'.elsewhere place hplace).trans (h.elsewhere place hplace)⟩

/-- Operations for records with different keys, one each, are granted where every document to be
taken out is there, and each of them has its own effect. -/
theorem sets_carryAll {value : R → Option Payload} {operations : List Bulk.Operation}
    (hn : (records.map key).Nodup)
    (h : List.Forall₂ (fun r o => o.place = (target, key r) ∧ o.payload? = value r)
        records operations)
    (hthere : ∀ r ∈ records, value r = none → (before (target, key r)).isSome = true) :
    before.Grants operations ∧
    before.Sets target key records value (before.carryAll operations) := by
  induction h generalizing before with
  | nil => exact ⟨trivial, List.forall_mem_nil _, fun _ _ => rfl⟩
  | @cons r o records operations ho hrest ih =>
    obtain ⟨hplace, hpayload⟩ := ho
    obtain ⟨hnew, hn⟩ := List.nodup_cons.1 hn
    obtain ⟨hr, hthere⟩ := List.forall_mem_cons.1 hthere
    have hne : ∀ r' ∈ records, (target, key r') ≠ o.place := by
      intro r' hr' he
      rw [hplace] at he
      exact hnew ((Prod.mk.inj he).2 ▸ List.mem_map_of_mem hr')
    have hthere' : ∀ r' ∈ records, value r' = none →
        (before.carry o (target, key r')).isSome = true := by
      intro r' hr'
      rw [before.carry_of_ne (hne r' hr')]
      exact hthere r' hr'
    obtain ⟨hgrants, hset⟩ := ih hn hthere'
    refine ⟨⟨?_, hgrants⟩, List.forall_mem_cons.2 ⟨?_, hset.there⟩, fun place hall => ?_⟩
    · rw [hplace, hpayload]
      exact hr
    · rw [carryAll_cons, hset.elsewhere _ fun r' hr' he => hne r' hr' (he.symm.trans hplace.symm),
        ← hplace, carry_self, hpayload]
    · obtain ⟨hhead, htail⟩ := List.forall_mem_cons.1 hall
      rw [carryAll_cons, hset.elsewhere place htail, before.carry_of_ne (hplace ▸ hhead)]

end Documents

namespace Peer.Keeps
variable {d : Documents} {operations : List Bulk.Operation} {s : Session}

theorem accepts (h : s.peer.Keeps d) (hg : (d.after s.calls).Grants operations) :
    s.Accepts (operations.map (·.call)) := by
  unfold Session.Accepts
  generalize s.calls = calls at hg ⊢
  induction operations generalizing calls with
  | nil => exact fun k hk => absurd hk (Nat.not_lt_zero k)
  | cons o operations ih =>
    intro k hk
    cases k with
    | zero =>
      obtain ⟨status, body, hp, hstatus⟩ := h.alone calls o
      exact ⟨status, body, hp, hstatus.isSuccess hg.1⟩
    | succ k =>
      have hrest : (d.after (calls ++ [o.call])).Grants operations := by
        rw [Documents.after_concat_call]
        exact hg.2
      obtain ⟨status, body, hp, hstatus⟩ := ih _ hrest k (Nat.lt_of_succ_lt_succ hk)
      rw [List.append_assoc] at hp
      exact ⟨status, body, hp, hstatus⟩

theorem acceptsTogether (h : s.peer.Keeps d) (hne : operations ≠ [])
    (hg : (d.after s.calls).Grants operations) :
    s.AcceptsTogether operations := by
  obtain ⟨status, body, text, reply, statuses, hp, hstatus, htext, hd, hall, hreports⟩ :=
    h.together s.calls hne
  exact ⟨status, body, text, reply, hp, hstatus, htext, hd,
    hreports.firstFailure (hall.isSuccess hg)⟩

end Peer.Keeps

namespace Indexer
variable {R : Type} {i : Indexer} {u : Url} {d : Documents} {s : Session}

/-- In either mode, operations that the engine grants are carried out on its documents. -/
theorem Does.carries_out {work : Run Unit} {operations : List Bulk.Operation}
    (h : i.Does work operations) (hc : i.client.IsFor u) (hu : u.Sendable) (hk : s.peer.Keeps d)
    (hg : (d.after s.calls).Grants operations) :
    (work.result s).1 = .ok () ∧
    d.after (work.result s).2.calls = (d.after s.calls).carryAll operations := by
  cases hb : i.bulk with
  | false =>
    obtain ⟨hok, hcalls⟩ := h.of_accepts hb hc hu (hk.accepts hg)
    exact ⟨hok, by rw [hcalls, Documents.after_append, Documents.after_map_call]⟩
  | true =>
    by_cases hne : operations = []
    · subst hne
      obtain ⟨hok, hx⟩ := h.of_nil s
      exact ⟨hok, by rw [Session.calls, hx]; rfl⟩
    · obtain ⟨hok, r, hx, -⟩ := h.of_acceptsTogether hb hc hu hne (hk.acceptsTogether hne hg)
      have hcalls : (work.result s).2.calls = s.calls ++ [.bulk operations] := by
        rw [Session.calls, hx, List.map_append]
        rfl
      exact ⟨hok, by rw [hcalls, Documents.after_append]; rfl⟩

theorem Does.sets {work : Run Unit} {operations : List Bulk.Operation} (h : i.Does work operations)
    (hc : i.client.IsFor u) (hu : u.Sendable) (hk : s.peer.Keeps d) {target : String}
    {key : R → String} {records : List R} {value : R → Option Payload}
    (hn : (records.map key).Nodup)
    (ho : List.Forall₂ (fun r o => o.place = (target, key r) ∧ o.payload? = value r)
        records operations)
    (hthere : ∀ r ∈ records, value r = none → (d.after s.calls (target, key r)).isSome = true) :
    (work.result s).1 = .ok () ∧
    (d.after s.calls).Sets target key records value (d.after (work.result s).2.calls) := by
  obtain ⟨hgrants, hset⟩ := Documents.sets_carryAll hn ho hthere
  obtain ⟨hok, hafter⟩ := h.carries_out hc hu hk hgrants
  exact ⟨hok, hafter ▸ hset⟩

variable (type : RecordType R) {softDelete : Bool} {records : List R}

/-- A batch in which every record has a document comes to one operation for each of them. -/
theorem forall₂_indexOperations (hd : ∀ r ∈ records, (document type softDelete r).isSome = true) :
    List.Forall₂
      (fun r o => o.place = (target type records, type.key r) ∧
        o.payload? = document type softDelete r)
      records (indexOperations type softDelete records) := by
  have hops : indexOperations type softDelete records = records.filterMap fun r =>
      (document type softDelete r).map fun payload =>
        .index (target type records) (type.key r) payload := by cases records <;> rfl
  rw [hops]
  clear hops
  generalize target type records = target
  induction records with
  | nil => exact .nil
  | cons r records ih =>
    obtain ⟨hr, hrest⟩ := List.forall_mem_cons.1 hd
    obtain ⟨payload, hpayload⟩ := Option.isSome_iff_exists.1 hr
    rw [List.filterMap_cons, hpayload]
    exact .cons ⟨rfl, hpayload.symm⟩ (ih hrest)

theorem forall₂_unindexOperations (records : List R) :
    List.Forall₂ (fun r o => o.place = (target type records, type.key r) ∧ o.payload? = none)
      records (unindexOperations type records) := by
  have hops : unindexOperations type records =
      records.map fun r => .delete (target type records) (type.key r) := by cases records <;> rfl
  rw [hops, List.forall₂_map_right_iff]
  exact List.forall₂_same.2 fun r _ => ⟨rfl, rfl⟩

end Indexer

/-- Putting in a batch of records with different keys, all of which have documents, and taking it
out again: in either mode both succeed with an engine that answers by what it holds. First their
documents are under their keys in the index of the batch and nothing else has changed, and in the
end there is nothing under these keys and all else is as it was before. -/
theorem unindex_undoes_index {R : Type} {c : Client} {u : Url} (hc : c.IsFor u) (hu : u.Sendable)
    (settings : Settings) (type : RecordType R) {records : List R}
    (hkeys : (records.map type.key).Nodup)
    (hdocuments : ∀ r ∈ records, (document type settings.softDelete r).isSome = true)
    {documents : Documents} {s : Session} (hs : s.peer.Keeps documents) :
    let i := Indexer.ofSettings c settings
    let put := (i.index type records).result s
    let taken := (i.unindex type records).result put.2
    let target := Indexer.target type records
    put.1 = .ok () ∧
    (documents.after s.calls).Sets target type.key records (document type settings.softDelete)
      (documents.after put.2.calls) ∧
    taken.1 = .ok () ∧
    (documents.after s.calls).Sets target type.key records (fun _ => none)
      (documents.after taken.2.calls) := by
  intro i put taken target
  obtain ⟨hput, hset⟩ :=
    (Indexer.does_index i type records).sets hc hu hs hkeys
      (Indexer.forall₂_indexOperations type hdocuments)
      fun r hr hnone => nomatch hnone ▸ hdocuments r hr
  have hpeer : put.2.peer = s.peer := Indexer.peer_index hc _ _ type records s
  obtain ⟨htaken, hset'⟩ :=
    (Indexer.does_unindex i type records).sets hc hu (s := put.2) (hpeer ▸ hs) hkeys
      (Indexer.forall₂_unindexOperations type records)
      fun r hr _ => (hset.there r hr).symm ▸ hdocuments r hr
  exact ⟨hput, hset, htaken, hset.trans hset'⟩

/-- One document is replaced and then gone, that of the same name in another index stays. -/
theorem replaced_title_is_gone :
    let documents : Documents := fun place => if place.2 = "emma" then some .empty else none
    let put :=
      (Indexer.index (.ofSettings localClient { bulk := true }) titles ["emma", "dune"]).result
        { peer := .keeping documents }
    let taken :=
      (Indexer.unindex (.ofSettings localClient { bulk := true }) titles ["emma", "dune"]).result
        put.2
    put.1 = .ok () ∧
    documents.after put.2.calls ("books", "emma") =
      some (KeyMap.ofList [("id", .str "emma"), ("title", .str "emma")]) ∧
    taken.1 = .ok () ∧ documents.after taken.2.calls ("books", "emma") = none ∧
    documents.after taken.2.calls ("films", "emma") = some .empty := by
  intro documents put taken
  have hkeys : (["emma", "dune"].map titles.key).Nodup := by decide
  have hdocuments : ∀ r ∈ ["emma", "dune"], (document titles false r).isSome = true := by
    decide +kernel
  obtain ⟨hput, hset, htaken, hset'⟩ :=
    unindex_undoes_index localClient_isFor (.inl rfl) { bulk := true } titles hkeys hdocuments
      (s := { peer := .keeping documents }) (Peer.keeping_keeps documents)
  refine ⟨hput, (hset.there "emma" (by decide)).trans (by rfl), htaken,
    hset'.there "emma" (by decide), ?_⟩
  exact hset'.elsewhere ("films", "emma") (by decide)

end RecordSearch
