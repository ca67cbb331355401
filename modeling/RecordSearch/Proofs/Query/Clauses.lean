import RecordSearch.Proofs.Query.Faithful
import RecordSearch.Proofs.Query.Steps
import RecordSearch.Proofs.Text.Order

/-! The clauses that filters become, and in which order they stand. -/
namespace RecordSearch.Query
open RecordSearch.Json

/-- The clauses in the lists of the boolean query, whatever the lists are called. -/
def boolClauses (document : Value) : List Value :=
  match (document.get? "query").bind (·.get? "bool") with
  | some (.obj parts) => parts.flatMap fun part => listedItems (some part.2)
  | _ => []

def isComparison (clause : Value) : Bool :=
  (clause.get? "term").isSome || (clause.get? "terms").isSome

inductive Compares : String × FilterValue → Value → Prop
  | term (field : String) (value : Value) :
      Compares (field, .scalar value) (.obj [("term", .obj [(field, .obj [("value", value)])])])
  | terms (field : String) (values : List Value) :
      Compares (field, .many values) (.obj [("terms", .obj [(field, .arr values)])])

theorem compares_clauseOf {e : String × FilterValue} (h : e.2.isEmpty = false) :
    Compares e (clauseOf e).toValue := by
  obtain ⟨field, value⟩ := e
  cases value with
  | null => exact nomatch h
  | many values => exact .terms field values
  | scalar value => exact .term field value

theorem Compiled.boolClauses_toValue (c : Compiled) :
    boolClauses c.toValue = (c.filter ++ c.must).map Clause.toValue := by
  rw [boolClauses, get?_query, query?_eq]
  unfold clauses parts
  cases c.must <;> cases c.filter <;> simp [Value.get?, lookup, listedItems]

theorem mem_effectiveFilters {r : Request} {field : String} {value : FilterValue} :
    (field, value) ∈ r.effectiveFilters.entries ↔
    field ≠ "" ∧ r.filters.get? field = some value ∧ value.isEmpty = false := by
  rw [Request.effectiveFilters, KeyMap.filter, List.mem_filter, KeyMap.mem_entries_iff,
    Bool.and_eq_true, bne_iff_ne, Bool.not_eq_true', and_left_comm]

section Requests
variable (p : Policy) (fields : List String) {r : Request}

/-- A text is no comparison. -/
theorem filter_textClauses (r : Request) :
    ((textClauses p fields r).map Clause.toValue).filter isComparison = [] := by
  unfold textClauses
  cases r.text <;> rfl

theorem filter_filterClauses (r : Request) :
    ((filterClauses r).map Clause.toValue).filter isComparison =
      r.effectiveFilters.entries.map fun e => (clauseOf e).toValue := by
  rw [filterClauses_eq_map, List.map_map]
  refine List.filter_eq_self.2 fun clause hclause => ?_
  obtain ⟨⟨field, value⟩, -, rfl⟩ := List.mem_map.1 hclause
  cases value <;> rfl

/-- Wherever the filters go, they are the comparisons of the query document. -/
theorem comparisons_compile (h : r.raw = none) :
    (boolClauses (compile p fields r)).filter isComparison =
      r.effectiveFilters.entries.map fun e => (clauseOf e).toValue := by
  rw [compile_of_none p fields h, Compiled.boolClauses_toValue, List.map_append, List.filter_append]
  unfold plan
  cases p.filterContext with
  | filter => rw [filter_filterClauses, filter_textClauses, List.append_nil]
  | must =>
    rw [List.map_append, List.filter_append, filter_textClauses, filter_filterClauses]
    rfl

/-- Comparisons stand in the order of the octets of their fields, one for each filter that
counts. -/
theorem comparisons_follow_filters (h : r.raw = none) :
    ∃ filters : List (String × FilterValue),
      filters.Pairwise (fun d e => Text.Utf8.encode d.1.toList < Text.Utf8.encode e.1.toList) ∧
      (∀ field value, (field, value) ∈ filters ↔
        field ≠ "" ∧ r.filters.get? field = some value ∧ value.isEmpty = false) ∧
      List.Forall₂ Compares filters ((boolClauses (compile p fields r)).filter isComparison) := by
  refine ⟨r.effectiveFilters.entries,
    r.effectiveFilters.ascending.imp fun hlt => Text.Utf8.encode_lt_encode (String.lt_iff.1 hlt),
    fun field value => mem_effectiveFilters, ?_⟩
  rw [comparisons_compile p fields h, List.forall₂_map_right_iff, List.forall₂_same]
  exact fun e he => compares_clauseOf (mem_effectiveFilters.1 he).2.2

end Requests

/-- In a request that is built without a raw document, every field with a name whose last filter
says something has one comparison in the query document, which takes the value as it is. No other
field has one, and they stand in the order of the octets of their fields. -/
theorem last_filters_become_clauses (p : Policy) (fields : List String) {r : Request}
    (hr : r.raw = none) {steps : List Request.Step} (hsteps : ∀ document, .raw document ∉ steps) :
    (∃ filters : List (String × FilterValue),
      filters.Pairwise (fun d e => Text.Utf8.encode d.1.toList < Text.Utf8.encode e.1.toList) ∧
      (∀ field value, (field, value) ∈ filters ↔ field ≠ "" ∧
        (steps.filterMap (Request.Step.value? field)).getLast?.or (r.filters.get? field) =
          some value ∧ value.isEmpty = false) ∧
      List.Forall₂ Compares filters
        ((boolClauses (compile p fields (r.applyAll steps))).filter isComparison)) ∧
    ∀ field value, filterClause field value = none ↔ value.isEmpty = true := by
  have hbuilds := r.builds_applyAll steps
  have hraw : (r.applyAll steps).raw = none := by
    have hnone : steps.filterMap Request.Step.raw? = [] :=
      List.filterMap_eq_nil_iff.2 fun step hstep => by
        cases step with
        | raw document => exact absurd hstep (hsteps document)
        | _ => rfl
    rw [hbuilds.raw, hnone, hr]
    rfl
  refine ⟨?_,
    fun field value => by rw [← filterClause_isNone_iff field value, Option.isNone_iff_eq_none]⟩
  simp only [← hbuilds.filters]
  exact comparisons_follow_filters p fields hraw

/-- A filter that is taken back leaves no clause, and one that is replaced leaves that of its last
value. -/
theorem replaced_filters_leave_no_clause :
    let steps : List Request.Step :=
      [.filter "year" (.scalar (.nat 2020)), .filter "tags" (.many [.str "a"]), .sort "title" .asc,
        .filter "author" (.scalar (.str "ann")), .filter "" (.scalar (.str "x")),
        .filter "year" .null, .page 2, .filter "tags" (.many [.str "b", .str "c"])]
    Request.matchAll.raw = none ∧ (∀ document, .raw document ∉ steps) ∧
      ∃ filters : List (String × FilterValue),
        ("author", .scalar (.str "ann")) ∈ filters ∧
        ("tags", .many [.str "b", .str "c"]) ∈ filters ∧
        (∀ value, ("year", value) ∉ filters) ∧
        List.Forall₂ Compares filters
          ((boolClauses (compile {} [] (Request.matchAll.applyAll steps))).filter
            isComparison) := by
  intro steps
  have hsteps : ∀ document, .raw document ∉ steps := by simp [steps]
  obtain ⟨⟨filters, -, hmem, hclauses⟩, -⟩ :=
    last_filters_become_clauses {} [] (show Request.matchAll.raw = none from rfl) hsteps
  have hauthor : ("author", .scalar (.str "ann")) ∈ filters := (hmem ..).2 ⟨by decide, rfl, rfl⟩
  have htags : ("tags", .many [.str "b", .str "c"]) ∈ filters := (hmem ..).2 ⟨by decide, rfl, rfl⟩
  refine ⟨rfl, hsteps, filters, hauthor, htags, fun value hvalue => ?_, hclauses⟩
  obtain ⟨-, hlast, hsays⟩ := (hmem ..).1 hvalue
  obtain rfl : FilterValue.null = value := Option.some.inj hlast
  exact nomatch hsays

end RecordSearch.Query
