import Mathlib.Data.List.Basic
import RecordSearch.Bulk.Reply
import RecordSearch.Proofs.Json.Strict

/-! The outcomes under one item have no order of their own: what is found in whatever order they are
visited. -/
namespace RecordSearch.Bulk
open Json

/-- Outcomes as they are visited: item after item, and those under one item in any order. -/
inductive Visits : List (KeyMap Item) → List Item → Prop
  | nil : Visits [] []
  | cons {m : KeyMap Item} {items : List (KeyMap Item)} {order rest : List Item}
      (h : order.Perm (m.entries.map (·.2))) (hrest : Visits items rest) :
      Visits (m :: items) (order ++ rest)

namespace Visits
variable {items : List (KeyMap Item)} {visited : List Item}

/-- Any order for each item is an order in which all may be visited. -/
theorem flatMap {order : KeyMap Item → List Item} (h : ∀ m, (order m).Perm (m.entries.map (·.2)))
    (items : List (KeyMap Item)) :
    Visits items (items.flatMap order) := by
  induction items with
  | nil => exact .nil
  | cons m items ih => exact .cons (h m) ih

theorem mem_iff (h : Visits items visited) (i : Item) :
    i ∈ visited ↔ ∃ m ∈ items, ∃ e ∈ m.entries, e.2 = i := by
  induction h with
  | nil => simp
  | cons h _ ih => rw [List.mem_append, ih, h.mem_iff, List.mem_map, List.exists_mem_cons_iff]

/-- Where each item has one outcome at most there is just one order. -/
theorem eq_flatMap (h : Visits items visited) (hone : ∀ m ∈ items, m.entries.length ≤ 1) :
    visited = items.flatMap fun m => m.entries.map (·.2) := by
  induction h with
  | nil => rfl
  | @cons m items order rest h _ ih =>
    obtain ⟨hm, hitems⟩ := List.forall_mem_cons.1 hone
    rw [List.flatMap_cons, ih hitems]
    congr 1
    match hentries : m.entries, hm with
    | [], _ =>
      rw [hentries] at h
      exact h.eq_nil
    | [e], _ =>
      rw [hentries] at h
      exact h.eq_singleton

end Visits

theorem Reply.visits_outcomes (r : Reply) : Visits r.items r.outcomes :=
  .flatMap (fun _ => .refl _) r.items

def Item.Succeeded (i : Item) : Prop := Http.isSuccess i.status = true ∧ i.error = none

theorem Item.failed_eq_false_iff (i : Item) : i.failed = false ↔ i.Succeeded := by
  rw [failed, Bool.or_eq_false_iff, Option.isSome_eq_false_iff, Option.isNone_iff_eq_none,
    Bool.not_eq_false']
  exact and_comm

inductive Item.Explains (i : Item) : String → Prop
  | told {error : Value} {reason : String} (h : i.error = some error)
      (hr : error.get? "reason" = some (.str reason)) : Explains i reason
  | untold (h : ∀ error reason, i.error = some error → error.get? "reason" ≠ some (.str reason)) :
      Explains i ((Http.phrase? i.status).getD "bulk item failed")

theorem Item.explains_reason (i : Item) : i.Explains i.reason := by
  unfold reason
  split
  · next reason h =>
    obtain ⟨error, he, h⟩ := Option.bind_eq_some_iff.1 h
    obtain ⟨v, hv, h⟩ := Option.bind_eq_some_iff.1 h
    obtain rfl := Value.asText?_eq_some_iff.1 h
    exact .told he hv
  · next h =>
    refine .untold fun error reason he hr => ?_
    rw [he, Option.bind_some, hr] at h
    exact nomatch h

def Reply.Fails (r : Reply) : Prop :=
  r.errors = true ∨
    ∃ item ∈ r.items, ∃ e ∈ item.entries, ¬(Http.isSuccess e.2.status = true ∧ e.2.error = none)

/-- Status and reason of the first failure among outcomes that come in this order, or else of the
whole. -/
def failureAmong (errors : Bool) (outcomes : List Item) : Option (UInt16 × String) :=
  match outcomes.find? Item.failed with
  | some item => some (item.status, item.reason)
  | none => if errors then some (500, "bulk request reported errors") else none

section Failure
variable {items : List (KeyMap Item)} {visited : List Item} {errors : Bool}

theorem failureAmong_eq_none_iff :
    failureAmong errors visited = none ↔ errors = false ∧ ∀ i ∈ visited, i.Succeeded := by
  unfold failureAmong
  cases hfind : visited.find? Item.failed with
  | some i =>
    have hfailed : i.failed = true := List.find?_some hfind
    refine iff_of_false nofun fun h => ?_
    rw [(Item.failed_eq_false_iff i).2 (h.2 i (List.mem_of_find?_eq_some hfind))] at hfailed
    contradiction
  | none =>
    have hsucceeded : ∀ i ∈ visited, i.Succeeded := fun i hi =>
      (Item.failed_eq_false_iff i).1 (Bool.eq_false_iff.2 (List.find?_eq_none.1 hfind i hi))
    cases errors with
    | false => exact iff_of_true rfl ⟨rfl, hsucceeded⟩
    | true => exact iff_of_false nofun fun h => nomatch h.1

/-- What is found depends on the order, but whether anything is found does not. -/
theorem failureAmong_eq_none_iff_not_fails {r : Reply} (h : Visits r.items visited) :
    failureAmong r.errors visited = none ↔ ¬r.Fails := by
  rw [failureAmong_eq_none_iff, Reply.Fails, not_or, Bool.not_eq_true]
  refine and_congr_right fun _ => ?_
  constructor
  · rintro hall ⟨m, hm, e, he, hfailed⟩
    exact hfailed (hall e.2 ((h.mem_iff e.2).2 ⟨m, hm, e, he, rfl⟩))
  · intro hnone i hi
    obtain ⟨m, hm, e, he, rfl⟩ := (h.mem_iff i).1 hi
    exact Classical.not_not.1 fun hfailed => hnone ⟨m, hm, e, he, hfailed⟩

theorem Reply.firstFailure_eq_none_iff_not_fails {r : Reply} : r.firstFailure = none ↔ ¬r.Fails :=
  failureAmong_eq_none_iff_not_fails r.visits_outcomes

/-- The first item with a failure, among items that have one outcome at most. -/
def FirstFailing (items : List (KeyMap Item)) (i : Item) : Prop :=
  ∃ before m after key, items = before ++ m :: after ∧ m.entries = [(key, i)] ∧ ¬i.Succeeded ∧
    ∀ n ∈ before, ∀ e ∈ n.entries, e.2.Succeeded

private theorem firstFailing_of_find? (hone : ∀ m ∈ items, m.entries.length ≤ 1) {i : Item}
    (h : (items.flatMap fun m => m.entries.map (·.2)).find? Item.failed = some i) :
    FirstFailing items i := by
  induction items with
  | nil => exact nomatch h
  | cons m items ih =>
    obtain ⟨hm, hitems⟩ := List.forall_mem_cons.1 hone
    rw [List.flatMap_cons, List.find?_append] at h
    match hentries : m.entries, hm with
    | [], _ =>
      rw [hentries] at h
      obtain ⟨before, n, after, key, rfl, hn, hi, hbefore⟩ := ih hitems h
      exact ⟨m :: before, n, after, key, rfl, hn, hi,
        List.forall_mem_cons.2 ⟨hentries ▸ List.forall_mem_nil _, hbefore⟩⟩
    | [e], _ =>
      rw [hentries, List.map_singleton, List.find?_singleton] at h
      cases hfailed : e.2.failed with
      | true =>
        rw [hfailed, if_pos rfl] at h
        obtain rfl := Option.some.inj h
        refine ⟨[], m, items, e.1, rfl, hentries, fun hi => ?_, List.forall_mem_nil _⟩
        rw [(Item.failed_eq_false_iff e.2).2 hi] at hfailed
        contradiction
      | false =>
        rw [hfailed, if_neg Bool.false_ne_true] at h
        obtain ⟨before, n, after, key, rfl, hn, hi, hbefore⟩ := ih hitems h
        refine ⟨m :: before, n, after, key, rfl, hn, hi, List.forall_mem_cons.2 ⟨?_, hbefore⟩⟩
        rw [hentries, List.forall_mem_singleton]
        exact (Item.failed_eq_false_iff e.2).1 hfailed

/-- Where each item has one outcome at most, it is the first failing item that is found. -/
theorem failureAmong_of_firstFailing (h : Visits items visited)
    (hone : ∀ m ∈ items, m.entries.length ≤ 1)
    (hfails : ∃ m ∈ items, ∃ e ∈ m.entries, ¬e.2.Succeeded) :
    ∃ i, FirstFailing items i ∧ failureAmong errors visited = some (i.status, i.reason) := by
  obtain ⟨m, hm, e, he, hfailed⟩ := hfails
  have hmem : e.2 ∈ visited := (h.mem_iff e.2).2 ⟨m, hm, e, he, rfl⟩
  cases hfind : visited.find? Item.failed with
  | none =>
    have hfalse : e.2.failed = false := Bool.eq_false_iff.2 (List.find?_eq_none.1 hfind e.2 hmem)
    exact absurd ((Item.failed_eq_false_iff e.2).1 hfalse) hfailed
  | some i =>
    refine ⟨i, firstFailing_of_find? hone (h.eq_flatMap hone ▸ hfind), ?_⟩
    rw [failureAmong, hfind]

theorem failureAmong_of_flag (hvisited : ∀ i ∈ visited, i.Succeeded) :
    failureAmong true visited = some (500, "bulk request reported errors") := by
  have hfind : visited.find? Item.failed = none := List.find?_eq_none.2 fun i hi => by
    rw [(Item.failed_eq_false_iff i).2 (hvisited i hi)]
    exact Bool.false_ne_true
  rw [failureAmong, hfind]
  rfl

end Failure
end RecordSearch.Bulk
