import RecordSearch.Query.Document

/-! What compiled query documents are made of. -/
namespace RecordSearch.Query
open RecordSearch.Json

def listed (values : List Value) : Option Value :=
  if values.isEmpty then none else some (.arr values)

def listedItems : Option Value → List Value
  | some (.arr values) => values
  | _ => []

namespace Compiled
variable (c : Compiled)

def clauses : List Clause := c.must ++ c.filter

def parts : List (String × Value) :=
  (if c.filter.isEmpty then [] else [("filter", .arr (c.filter.map Clause.toValue))]) ++
    if c.must.isEmpty then [] else [("must", .arr (c.must.map Clause.toValue))]

theorem query?_eq :
    c.query? = if c.clauses.isEmpty then none else some (.obj [("bool", .obj c.parts)]) := by
  unfold query? clauses parts
  cases c.must <;> cases c.filter <;> rfl

theorem get?_from : c.toValue.get? "from" = some (.nat c.offset) := rfl

theorem get?_query : c.toValue.get? "query" = c.query? := by
  unfold toValue
  cases c.query? <;> cases c.sort.isEmpty <;> rfl

theorem get?_size : c.toValue.get? "size" = some (.nat c.size) := by
  unfold toValue
  cases c.query? <;> rfl

theorem get?_sort : c.toValue.get? "sort" = listed (c.sort.map SortDirective.clause) := by
  unfold toValue
  cases c.query? <;> cases c.sort <;> rfl

end Compiled

section Requests
variable (p : Policy) (fields : List String) {r : Request}

theorem compile_of_none (h : r.raw = none) : compile p fields r = (plan p fields r).toValue := by
  rw [compile, h]

/-- Both contexts of filters come to the same clauses in the same order. -/
theorem clauses_plan (r : Request) :
    (plan p fields r).clauses = textClauses p fields r ++ filterClauses r := by
  unfold plan Compiled.clauses
  cases p.filterContext with
  | filter => rfl
  | must => exact List.append_nil _

theorem mem_textClauses {r : Request} {c : Clause} : c ∈ textClauses p fields r ↔
    ∃ query, r.query = some query ∧ Text.trim query.toList ≠ [] ∧
    c = .text (String.ofList (Text.trim query.toList)) fields p.operator := by
  unfold textClauses Request.text
  cases r.query with
  | none => simp
  | some query =>
    by_cases ht : Text.trim query.toList = []
    · simp [ht]
    · simp [ht]

/-- A filter has the clause of its one value or of its list. -/
theorem filterClause_eq_some_iff {field : String} {value : FilterValue} {c : Clause} :
    filterClause field value = some c ↔
    (∃ v, value = .scalar v ∧ v.isNull = false ∧ c = .equals field v) ∨
    ∃ vs, value = .many vs ∧ vs ≠ [] ∧ c = .oneOf field vs := by
  cases value with
  | null => simp [filterClause]
  | many vs =>
    cases vs with
    | nil => simp [filterClause]
    | cons v vs => simpa [filterClause] using eq_comm
  | scalar v =>
    cases v with
    | null => simp [filterClause, Value.isNull]
    | _ => simpa [filterClause, Value.isNull] using eq_comm

theorem mem_filterClauses {r : Request} {c : Clause} : c ∈ filterClauses r ↔
    ∃ e ∈ r.filters.entries, e.1 ≠ "" ∧ filterClause e.1 e.2 = some c := by
  unfold filterClauses
  rw [List.mem_filterMap]
  refine exists_congr fun e => and_congr_right fun _ => ?_
  by_cases he : e.1 = "" <;> simp [he]

end Requests
end RecordSearch.Query
