import RecordSearch.Http.Status
import RecordSearch.Json.Decode

/-! The engine's answer to operations sent together, and the verdict on them. -/
namespace RecordSearch.Bulk
open RecordSearch.Json

/-- The outcome of one operation. A status that is not given is zero, which is no success. -/
structure Item where
  status : UInt16 := 0
  error : Option Value := none

structure Reply where
  errors : Bool := false
  items : List (KeyMap Item) := []

def Item.failed (i : Item) : Bool := i.error.isSome || !Http.isSuccess i.status

def Item.reason (i : Item) : String :=
  match i.error.bind fun e => (e.get? "reason").bind Value.asText? with
  | some reason => reason
  | none => (Http.phrase? i.status).getD "bulk item failed"

/-- All outcomes in order; those under one item by their keys. -/
def Reply.outcomes (r : Reply) : List Item := r.items.flatMap fun m => m.entries.map (·.2)

/-- Status and reason of the first failure. That something failed may also be said of the whole
alone. -/
def Reply.firstFailure (r : Reply) : Option (UInt16 × String) :=
  match r.outcomes.find? Item.failed with
  | some item => some (item.status, item.reason)
  | none => if r.errors then some (500, "bulk request reported errors") else none

theorem Reply.firstFailure_isNone_iff (r : Reply) :
    r.firstFailure = none ↔ r.errors = false ∧ ∀ item ∈ r.outcomes, item.failed = false := by
  unfold Reply.firstFailure
  cases h : r.outcomes.find? Item.failed with
  | some item =>
    have hm := List.mem_of_find?_eq_some h
    have hf := List.find?_some h
    simp only [reduceCtorEq, false_iff, not_and, Classical.not_forall]
    exact fun _ => ⟨item, hm, by simp [hf]⟩
  | none =>
    rw [List.find?_eq_none] at h
    simp only [Bool.not_eq_true] at h
    cases r.errors <;> simp
    exact h

structure Item.Draft where
  status : Option UInt16 := none
  error : Option (Option Value) := none

def Item.member (d : Draft) (name : String) : Decoder Draft := fun c =>
  match name with
  | "status" => do return { d with status := some (← Decode.once d.status Decode.word16 c) }
  | "error" => do
    return { d with error := some (← Decode.once d.error (Decode.optional Decode.free) c) }
  | _ => do Decode.ignored c; return d

def Item.decode : Decoder Item := fun c => do
  let d ← Decode.record ["status", "error"] 0 member {} c
  return { status := d.status.getD 0, error := d.error.getD none }

structure Reply.Draft where
  errors : Option Bool := none
  items : Option (List (KeyMap Item)) := none

def Reply.member (d : Draft) (name : String) : Decoder Draft := fun c =>
  match name with
  | "errors" => do return { d with errors := some (← Decode.once d.errors Decode.flag c) }
  | "items" => do
    return { d with
      items := some (← Decode.once d.items (Decode.list (Decode.table Item.decode)) c) }
  | _ => do Decode.ignored c; return d

def Reply.decode : Decoder Reply := fun c => do
  let d ← Decode.record ["errors", "items"] 0 member {} c
  return { errors := d.errors.getD false, items := d.items.getD [] }

end RecordSearch.Bulk
