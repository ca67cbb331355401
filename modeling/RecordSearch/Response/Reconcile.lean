import RecordSearch.Session
import RecordSearch.Response.Basic

/-! Hits resolved into records of the application, in rank order. -/
namespace RecordSearch.Response

structure Page (R : Type) where
  records : List R
  total : Nat
  totalIsExact : Bool

def rank? (ids : List String) (key : String) : Option Nat :=
  match ids.reverse.idxOf? key with
  | some i => some (ids.length - 1 - i)
  | none => none

/-- The records in the order of the ids, those with equal keys as they came. Records under other
keys are dropped. -/
def orderByIds {R : Type} (key : R → String) (ids : List String) (records : List R) : List R :=
  let ranked := records.filterMap fun r => (rank? ids (key r)).map fun rank => (rank, r)
  (ranked.mergeSort fun a b => a.1 ≤ b.1).map (·.2)

/-- The records of an answer's hits. The store is asked once, and not at all where there are no
hits. -/
def reconcile {R : Type} (type : RecordType R) (store : RecordStore R)
    (answer : Search) : Run (Page R) := do
  let total := answer.totalCount
  let exact := match answer.lowerBound with
    | some lower => !lower
    | none => false
  let ids := answer.ids
  if ids.isEmpty then return ⟨[], total, exact⟩
  let fetched ← Run.lookUp store ids
  let records := orderByIds type.key ids fetched
  Run.say .debug ("Reconciled " ++ toString ids.length ++ " hits into " ++
    toString records.length ++ " records (" ++
    toString fetched.length ++ " fetched)")
  return ⟨records, total, exact⟩

end RecordSearch.Response
