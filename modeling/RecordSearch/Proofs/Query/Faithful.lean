import RecordSearch.Proofs.Json.Likeness
import RecordSearch.Proofs.Query.Document
import RecordSearch.Proofs.Query.Window

/-! Requests that come to the same query document. -/
namespace RecordSearch.Query
open RecordSearch.Json
variable {E : Value → Value → Prop}

def clauseOf (e : String × FilterValue) : Clause :=
  match e.2 with
  | .many vs => .oneOf e.1 vs
  | .scalar v => .equals e.1 v
  | .null => .equals e.1 .null

theorem filterClauses_eq_map (r : Request) :
    filterClauses r = r.effectiveFilters.entries.map clauseOf := by
  have hone (e : String × FilterValue) : (if e.1 == "" then none else filterClause e.1 e.2) =
      if e.1 != "" && !e.2.isEmpty then some (clauseOf e) else none := by
    obtain ⟨field, value⟩ := e
    by_cases hf : field = ""
    · simp [hf]
    · cases value with
      | null => simp [hf, filterClause, FilterValue.isEmpty]
      | many vs => cases vs <;> simp [hf, filterClause, FilterValue.isEmpty, clauseOf]
      | scalar v => cases v <;> simp [hf, filterClause, FilterValue.isEmpty, Value.isNull, clauseOf]
  unfold filterClauses Request.effectiveFilters KeyMap.filter
  simp only [hone]
  induction r.filters.entries with
  | nil => rfl
  | cons e rest ih =>
    rw [List.filterMap_cons, List.filter_cons, ih]
    cases e.1 != "" && !e.2.isEmpty <;> rfl

section Like
variable (h : Likeness E)
include h

namespace Compiled
variable (c d : Compiled)

end Compiled

variable (p : Policy) (fields : List String)

end Like

end RecordSearch.Query
