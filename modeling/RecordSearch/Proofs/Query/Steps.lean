import Mathlib.Data.List.Induction
import RecordSearch.Proofs.KeyMap
import RecordSearch.Query.Request

/-! Requests that are built step by step: what the steps leave, and which of them may change
places. -/
namespace RecordSearch.Query
open RecordSearch.Json

namespace Request

inductive Target
  | filter (field : String)
  | order
  | page
  | perPage
  | raw
deriving DecidableEq

namespace Step

def target : Step → Target
  | .filter field _ => .filter field
  | .sort _ _ => .order
  | .page _ => .page
  | .perPage _ => .perPage
  | .raw _ => .raw

def value? (field : String) : Step → Option FilterValue
  | .filter name value => if name = field then some value else none
  | _ => none

def directive? : Step → Option SortDirective
  | .sort field direction => some ⟨field, direction⟩
  | _ => none

def page? : Step → Option UInt32
  | .page number => some number
  | _ => none

def perPage? : Step → Option UInt32
  | .perPage count => some count
  | _ => none

def raw? : Step → Option Value
  | .raw document => some document
  | _ => none

end Step

/-- The steps lead from one request to another: the text stays, directives gather behind those that
are there, and of all else the last one given counts, or what was there if none is given. -/
structure Builds (r : Request) (steps : List Step) (built : Request) : Prop where
  query : built.query = r.query
  sort : built.sort = r.sort ++ steps.filterMap Step.directive?
  filters : ∀ field, built.filters.get? field =
    (steps.filterMap (Step.value? field)).getLast?.or (r.filters.get? field)
  page : built.page = (steps.filterMap Step.page?).getLast?.or r.page
  perPage : built.perPage = (steps.filterMap Step.perPage?).getLast?.or r.perPage
  raw : built.raw = (steps.filterMap Step.raw?).getLast?.or r.raw

section Run
variable (r : Request) (steps : List Step)

theorem applyAll_concat (step : Step) :
    r.applyAll (steps ++ [step]) = (r.applyAll steps).apply step := by
  rw [applyAll, List.foldl_append]
  rfl

theorem get?_filters_apply (step : Step) (field : String) :
    (r.apply step).filters.get? field = (step.value? field).or (r.filters.get? field) := by
  cases step with
  | filter name value =>
    rw [Step.value?, apply, KeyMap.get?_insert]
    split <;> rfl
  | _ => rfl

theorem sort_apply (step : Step) : (r.apply step).sort = r.sort ++ step.directive?.toList := by
  cases step with
  | sort field direction => rfl
  | _ => exact (List.append_nil _).symm

/-- A part of the request that each step sets or leaves alone is set by the last step that does
so. -/
theorem last_applyAll {α : Type} (part : Request → Option α) {given? : Step → Option α}
    (hstep : ∀ r step, part (r.apply step) = (given? step).or (part r)) :
    part (r.applyAll steps) = (steps.filterMap given?).getLast?.or (part r) := by
  induction steps using List.reverseRecOn with
  | nil => rfl
  | append_singleton steps step ih =>
    rw [applyAll_concat, hstep, ih, List.filterMap_append, List.getLast?_append,
      List.filterMap_cons, List.filterMap_nil]
    cases given? step <;> rfl

theorem builds_applyAll : r.Builds steps (r.applyAll steps) where
  query := by
    induction steps using List.reverseRecOn with
    | nil => rfl
    | append_singleton steps step ih =>
      rw [applyAll_concat, ← ih]
      cases step <;> rfl
  sort := by
    induction steps using List.reverseRecOn with
    | nil => exact (List.append_nil _).symm
    | append_singleton steps step ih =>
      rw [applyAll_concat, sort_apply, ih, List.filterMap_append, List.append_assoc,
        List.filterMap_cons, List.filterMap_nil]
      cases step.directive? <;> rfl
  filters field := last_applyAll r steps (·.filters.get? field)
    fun r step => get?_filters_apply r step field
  page := last_applyAll r steps (·.page) fun _ step => by cases step <;> rfl
  perPage := last_applyAll r steps (·.perPage) fun _ step => by cases step <;> rfl
  raw := last_applyAll r steps (·.raw) fun _ step => by cases step <;> rfl

variable {r steps} {built other : Request}

/-- Steps lead to one request only. -/
theorem Builds.unique (h : r.Builds steps built) (h' : r.Builds steps other) : built = other := by
  have hfilters : built.filters = other.filters :=
    KeyMap.ext_get? fun field => by rw [h.filters, h'.filters]
  cases built
  cases other
  exact (mk.injEq ..).mpr ⟨h.query.trans h'.query.symm, h.sort.trans h'.sort.symm, hfilters,
    h.page.trans h'.page.symm, h.perPage.trans h'.perPage.symm, h.raw.trans h'.raw.symm⟩

end Run

section Order
variable {steps later : List Step}

/-- What is read off the steps about one target comes from these steps alone. -/
private theorem filterMap_of_target {α : Type} {given? : Step → Option α} {target : Target}
    (hgiven : ∀ step, (given? step).isSome = true → step.target = target) (steps : List Step) :
    (steps.filter (·.target = target)).filterMap given? = steps.filterMap given? := by
  have hstep (step : Step) : (if decide (step.target = target) = true then given? step else none) =
      given? step := by
    cases hs : given? step with
    | none => exact ite_self none
    | some x => exact if_pos (decide_eq_true (hgiven step (by rw [hs]; rfl)))
  rw [List.filterMap_filter, funext hstep]

variable
  (h : ∀ target : Target, steps.filter (·.target = target) = later.filter (·.target = target))
include h

/-- The same steps about each target in the same order are the same steps, in some order. -/
theorem perm_of_targets : steps.Perm later := by
  classical
  refine List.perm_iff_count.2 fun step => ?_
  have hcount (steps : List Step) : (steps.filter (·.target = step.target)).count step =
      steps.count step :=
    List.count_filter (p := fun s : Step => decide (s.target = step.target)) (decide_eq_true rfl)
  rw [← hcount, h, hcount]

/-- Steps about different targets may change places. -/
theorem Builds.of_targets {r built : Request}
    (hb : r.Builds later built) : r.Builds steps built := by
  have hread {α : Type} {given? : Step → Option α} (target : Target)
      (hgiven : ∀ step, (given? step).isSome = true → step.target = target) :
      later.filterMap given? = steps.filterMap given? := by
    rw [← filterMap_of_target hgiven, ← h, filterMap_of_target hgiven]
  refine ⟨hb.query, ?_, fun field => ?_, ?_, ?_, ?_⟩
  · rw [hb.sort, hread .order fun step => by cases step <;> simp [Step.directive?, Step.target]]
  · rw [hb.filters,
      hread (.filter field) fun step => by cases step <;> simp [Step.value?, Step.target]]
  · rw [hb.page, hread .page fun step => by cases step <;> simp [Step.page?, Step.target]]
  · rw [hb.perPage, hread .perPage fun step => by cases step <;> simp [Step.perPage?, Step.target]]
  · rw [hb.raw, hread .raw fun step => by cases step <;> simp [Step.raw?, Step.target]]

end Order

/-- Steps that are the same in the same order for each target, however they are mixed, build the
same request: it has the text it started with, all directives in the order in which they were given,
and the last filter of each field, page, page size and raw document. -/
theorem mixed_steps_build_same {steps later : List Step}
    (h : ∀ target : Target, steps.filter (·.target = target) = later.filter (·.target = target))
    (r : Request) :
    steps.Perm later ∧ r.applyAll steps = r.applyAll later ∧ r.Builds steps (r.applyAll steps) ∧
    r.Builds later (r.applyAll later) := by
  have hsteps : r.Builds steps (r.applyAll steps) := r.builds_applyAll steps
  have hlater : r.Builds later (r.applyAll later) := r.builds_applyAll later
  exact ⟨perm_of_targets h, hsteps.unique (.of_targets h hlater), hsteps, hlater⟩

/-- Two filters of one field, two directives and two pages keep their order. -/
theorem interleaved_steps_build_same :
    let steps : List Step :=
      [.filter "tag" (.scalar (.str "a")), .sort "year" .desc, .page 1,
        .filter "tag" (.many [.str "b"]), .sort "title" .asc, .filter "author" .null, .page 2,
        .raw .null]
    let later : List Step :=
      [.raw .null, .page 1, .filter "author" .null, .page 2, .sort "year" .desc,
        .filter "tag" (.scalar (.str "a")), .sort "title" .asc,
        .filter "tag" (.many [.str "b"])]
    (∀ target : Target, steps.filter (·.target = target) = later.filter (·.target = target)) ∧
      matchAll.applyAll steps = matchAll.applyAll later ∧
      (matchAll.applyAll steps).sort = [⟨"year", .desc⟩, ⟨"title", .asc⟩] ∧
      (matchAll.applyAll steps).filters.get? "tag" = some (.many [.str "b"]) ∧
      (matchAll.applyAll steps).page = some 2 := by
  intro steps later
  have h (target : Target) : steps.filter (·.target = target) =
      later.filter (·.target = target) := by
    cases target with
    | filter field =>
      by_cases htag : "tag" = field
      · subst htag
        rfl
      · by_cases hauthor : "author" = field
        · subst hauthor
          rfl
        · simp [steps, later, Step.target, htag, hauthor]
    | _ => rfl
  obtain ⟨-, heq, hsteps, -⟩ := mixed_steps_build_same h matchAll
  exact ⟨h, heq, hsteps.sort, hsteps.filters "tag", hsteps.page⟩

end Request
end RecordSearch.Query
