import Mathlib.Data.List.Forall2
import RecordSearch.Proofs.KeyMap
import RecordSearch.Proofs.Query.Document
import RecordSearch.Proofs.Text.Blank

/-! The form of query documents as the engine takes them, part by part. -/
namespace RecordSearch.Query
open RecordSearch.Json

inductive FieldClause : Value → Prop
  | term {field : String} {value : Value} (named : field ≠ "") (given : value ≠ .null) :
    FieldClause (.obj [("term", .obj [(field, .obj [("value", value)])])])
  | terms {field : String} {values : List Value} (named : field ≠ "") (given : values ≠ []) :
    FieldClause (.obj [("terms", .obj [(field, .arr values)])])

inductive SortClause : SortDirective → Value → Prop
  | asc (field : String) : SortClause ⟨field, .asc⟩ (.obj [(field, .obj [("order", .str "asc")])])
  | desc (field : String) :
      SortClause ⟨field, .desc⟩ (.obj [(field, .obj [("order", .str "desc")])])

namespace Request

def HasText (r : Request) : Prop :=
  ∃ text, r.query = some text ∧ ∃ c ∈ text.toList, Text.isBlank c = false

def HasFilter (r : Request) : Prop :=
  ∃ field value, r.filters.get? field = some value ∧ field ≠ "" ∧ value.isEmpty = false

end Request

section Grammar
variable (p : Policy) (fields : List String) (r : Request)

inductive TextClause : Value → Prop
  | anywhere {text query : String} (given : r.query = some text)
      (trimmed : Text.Trimmed text.toList query.toList) (unlisted : fields = []) :
    TextClause (.obj [("simple_query_string",
      .obj [("default_operator", .str p.operator.name), ("query", .str query)])])
  | within {text query : String} (given : r.query = some text)
      (trimmed : Text.Trimmed text.toList query.toList) (listed : fields ≠ []) :
    TextClause (.obj [("simple_query_string",
      .obj [("default_operator", .str p.operator.name), ("fields", .arr (fields.map .str)),
        ("query", .str query)])])

/-- A list of clauses with its name. It is never empty, and the only place for a text is the first
one among those that must hold. -/
inductive Part : String × Value → Prop
  | filter {clause : Value} {clauses : List Value} (all : ∀ c ∈ clause :: clauses, FieldClause c) :
    Part ("filter", .arr (clause :: clauses))
  | must {clause : Value} {clauses : List Value}
      (first : TextClause p fields r clause ∨ FieldClause clause)
      (rest : ∀ c ∈ clauses, FieldClause c) :
    Part ("must", .arr (clause :: clauses))

/-- Some lists of clauses, each under a name of its own. If there is a text, it is among those that
must hold. -/
inductive BoolQuery : Value → Prop
  | of {parts : List (String × Value)} (some : parts ≠ []) (distinct : Distinct parts)
      (all : ∀ part ∈ parts, Part p fields r part)
      (text : r.HasText → ∃ clause clauses,
        ("must", .arr (clause :: clauses)) ∈ parts ∧ TextClause p fields r clause) :
    BoolQuery (.obj [("bool", .obj parts)])

inductive SortList : Value → Prop
  | of {clauses : List Value} (some : clauses ≠ [])
      (each : List.Forall₂ SortClause (r.sort.filter (·.field ≠ "")) clauses) :
    SortList (.arr clauses)

/-- The document of a request that the engine can read: nothing in it is empty, and what there is
nothing to say about is left out. -/
structure WellFormed (document : Value) : Prop where
  keys : ∃ members, document = .obj members ∧ Distinct members ∧
    ∀ e ∈ members, e.1 ∈ ["_source", "from", "query", "size", "sort"]
  source : document.get? "_source" = some (.bool true)
  offset : ∃ n, document.get? "from" = some (.nat n)
  size : ∃ n, document.get? "size" = some (.nat n)
  query : ∀ query, document.get? "query" = some query → BoolQuery p fields r query
  query_absent : document.get? "query" = none ↔ ¬r.HasText ∧ ¬r.HasFilter
  sort : ∀ sort, document.get? "sort" = some sort → SortList r sort
  sort_absent : document.get? "sort" = none ↔ ∀ s ∈ r.sort, s.field = ""

end Grammar

section Clauses
variable (p : Policy) (fields : List String) {r : Request}

theorem textClauses_eq_nil_iff : textClauses p fields r = [] ↔ ¬r.HasText := by
  unfold textClauses Request.text Request.HasText
  cases r.query with
  | none => simp
  | some text =>
    by_cases h : Text.trim text.toList = []
    · simpa [h] using Text.trim_eq_nil_iff.1 h
    · simpa [h] using mt Text.trim_eq_nil_iff.2 h

theorem textClause_of_mem {c : Clause} (h : c ∈ textClauses p fields r) :
    TextClause p fields r c.toValue := by
  obtain ⟨text, hq, ht, rfl⟩ := (mem_textClauses p fields).1 h
  have htrimmed : Text.Trimmed text.toList (String.ofList (Text.trim text.toList)).toList := by
    rw [String.toList_ofList]
    exact Text.trimmed_trim ht
  cases fields with
  | nil => exact .anywhere hq htrimmed rfl
  | cons field fields => exact .within hq htrimmed (List.cons_ne_nil field fields)

theorem fieldClause_of_mem {c : Clause} (h : c ∈ filterClauses r) : FieldClause c.toValue := by
  obtain ⟨e, -, hnamed, hc⟩ := mem_filterClauses.1 h
  rcases filterClause_eq_some_iff.1 hc with ⟨v, -, hv, rfl⟩ | ⟨vs, -, hvs, rfl⟩
  · exact .term hnamed fun hnull => by rw [hnull] at hv; exact nomatch hv
  · exact .terms hnamed hvs

theorem filterClauses_eq_nil_iff : filterClauses r = [] ↔ ¬r.HasFilter := by
  constructor
  · rintro h ⟨field, value, hget, hnamed, hsays⟩
    obtain ⟨c, hc⟩ : ∃ c, filterClause field value = some c :=
      Option.ne_none_iff_exists'.1 fun hnone => by
        rw [← filterClause_isNone_iff field, hnone] at hsays
        exact nomatch hsays
    have hmem : c ∈ filterClauses r :=
      mem_filterClauses.2 ⟨(field, value), KeyMap.mem_entries_iff.2 hget, hnamed, hc⟩
    rw [h] at hmem
    exact List.not_mem_nil hmem
  · refine fun h => List.eq_nil_iff_forall_not_mem.2 fun c hc => h ?_
    obtain ⟨⟨field, value⟩, he, hnamed, hc⟩ := mem_filterClauses.1 hc
    exact ⟨field, value, KeyMap.mem_entries_iff.1 he, hnamed,
      by rw [← filterClause_isNone_iff field, hc]; rfl⟩

/-- A text, if there is one, stands before the comparisons. -/
theorem part_must {clauses : List Clause} (hfilters : ∀ c ∈ clauses, c ∈ filterClauses r)
    (hne : textClauses p fields r ++ clauses ≠ []) :
    Part p fields r ("must", .arr ((textClauses p fields r ++ clauses).map Clause.toValue)) := by
  have hrest : ∀ v ∈ clauses.map Clause.toValue, FieldClause v :=
    List.forall_mem_map.2 fun c hc => fieldClause_of_mem (hfilters c hc)
  have htext : ∀ c ∈ textClauses p fields r, TextClause p fields r c.toValue :=
    fun c => textClause_of_mem p fields
  unfold textClauses at hne htext ⊢
  cases hr : r.text with
  | none =>
    simp only [hr, List.nil_append] at hne ⊢
    obtain ⟨c, rest, rfl⟩ := List.exists_cons_of_ne_nil hne
    obtain ⟨hc, hrest⟩ := List.forall_mem_cons.1 hrest
    exact .must (.inr hc) hrest
  | some query =>
    simp only [hr] at htext ⊢
    exact .must (.inl (htext _ List.mem_cons_self)) hrest

theorem part_filter {clauses : List Clause} (hfilters : ∀ c ∈ clauses, c ∈ filterClauses r)
    (hne : clauses ≠ []) :
    Part p fields r ("filter", .arr (clauses.map Clause.toValue)) := by
  obtain ⟨c, rest, rfl⟩ := List.exists_cons_of_ne_nil hne
  have hall : ∀ v ∈ (c :: rest).map Clause.toValue, FieldClause v :=
    List.forall_mem_map.2 fun d hd => fieldClause_of_mem (hfilters d hd)
  exact .filter hall

end Clauses

namespace Compiled
variable (c : Compiled)

theorem mem_parts {part : String × Value} : part ∈ c.parts ↔
    c.filter ≠ [] ∧ part = ("filter", .arr (c.filter.map Clause.toValue)) ∨
      c.must ≠ [] ∧ part = ("must", .arr (c.must.map Clause.toValue)) := by
  unfold parts
  cases c.filter <;> cases c.must <;> simp

theorem distinct_parts : Distinct c.parts := by
  unfold parts
  cases c.filter <;> cases c.must <;> simp [Distinct]

theorem query?_eq_some_iff {query : Value} :
    c.query? = some query ↔ c.parts ≠ [] ∧ query = .obj [("bool", .obj c.parts)] := by
  have hempty : c.parts = [] ↔ c.clauses.isEmpty = true := by
    unfold parts clauses
    cases c.filter <;> cases c.must <;> simp
  rw [query?_eq]
  split
  · next h => simp [hempty.2 h]
  · next h => simp [mt hempty.1 h, eq_comm]

theorem query?_eq_none_iff : c.query? = none ↔ c.clauses = [] := by
  rw [query?_eq]
  cases c.clauses <;> simp

/-- Members are left out, but none is written twice and no other one is written. -/
theorem members_toValue : ∃ members, c.toValue = .obj members ∧ Distinct members ∧
    ∀ e ∈ members, e.1 ∈ ["_source", "from", "query", "size", "sort"] := by
  refine ⟨_, rfl, ?_⟩
  cases c.query? <;> cases c.sort.isEmpty <;> simp [Distinct]

end Compiled

section Plan
variable (p : Policy) (fields : List String) (r : Request)

theorem must_plan :
    ∃ clauses, (plan p fields r).must = textClauses p fields r ++ clauses ∧
    ∀ c ∈ clauses, c ∈ filterClauses r := by
  unfold plan
  cases p.filterContext with
  | filter => exact ⟨[], (List.append_nil _).symm, List.forall_mem_nil _⟩
  | must => exact ⟨filterClauses r, rfl, fun _ => id⟩

theorem filter_plan : ∀ c ∈ (plan p fields r).filter, c ∈ filterClauses r := by
  unfold plan
  cases p.filterContext with
  | filter => exact fun _ => id
  | must => exact List.forall_mem_nil _

theorem part_plan : ∀ part ∈ (plan p fields r).parts, Part p fields r part := by
  intro part hpart
  rcases (Compiled.mem_parts _).1 hpart with ⟨hne, rfl⟩ | ⟨hne, rfl⟩
  · exact part_filter p fields (filter_plan p fields r) hne
  · obtain ⟨clauses, hmust, hfilters⟩ := must_plan p fields r
    rw [hmust] at hne ⊢
    exact part_must p fields hfilters hne

theorem textClause_plan (h : r.HasText) :
    ∃ clause clauses, ("must", .arr (clause :: clauses)) ∈ (plan p fields r).parts ∧
    TextClause p fields r clause := by
  have hne : textClauses p fields r ≠ [] := fun hnil => (textClauses_eq_nil_iff p fields).1 hnil h
  obtain ⟨c, texts, htexts⟩ := List.exists_cons_of_ne_nil hne
  obtain ⟨clauses, hmust, -⟩ := must_plan p fields r
  rw [htexts] at hmust
  refine ⟨c.toValue, (texts ++ clauses).map Clause.toValue,
    (Compiled.mem_parts _).2 (.inr ⟨?_, ?_⟩),
    textClause_of_mem p fields (htexts ▸ List.mem_cons_self)⟩
  · rw [hmust]
    exact List.append_ne_nil_of_left_ne_nil (List.cons_ne_nil c texts) clauses
  · rw [hmust]
    rfl

theorem boolQuery_plan {query : Value}
    (h : (plan p fields r).query? = some query) : BoolQuery p fields r query := by
  obtain ⟨hne, rfl⟩ := (Compiled.query?_eq_some_iff _).1 h
  exact .of hne (Compiled.distinct_parts _) (part_plan p fields r) (textClause_plan p fields r)

theorem query?_plan_eq_none_iff : (plan p fields r).query? = none ↔ ¬r.HasText ∧ ¬r.HasFilter := by
  rw [Compiled.query?_eq_none_iff, clauses_plan, List.append_eq_nil_iff, textClauses_eq_nil_iff,
    filterClauses_eq_nil_iff]

theorem sortClause_clause (s : SortDirective) : SortClause s s.clause := by
  obtain ⟨field, direction⟩ := s
  cases direction
  · exact .asc field
  · exact .desc field

theorem effectiveSort_eq : r.effectiveSort = r.sort.filter (·.field ≠ "") :=
  List.filter_congr fun s _ => by rw [Bool.eq_iff_iff, bne_iff_ne, decide_eq_true_iff]

theorem sortList_of_listed {sort : Value}
    (h : listed (r.effectiveSort.map SortDirective.clause) = some sort) : SortList r sort := by
  unfold listed at h
  split at h
  · exact nomatch h
  · next hne =>
    obtain rfl := Option.some.inj h
    refine .of (mt List.isEmpty_iff.2 hne) ?_
    rw [← effectiveSort_eq, List.forall₂_map_right_iff]
    exact List.forall₂_same.2 fun s _ => sortClause_clause s

theorem listed_sort_eq_none_iff :
    listed (r.effectiveSort.map SortDirective.clause) = none ↔ ∀ s ∈ r.sort, s.field = "" := by
  simp [listed, effectiveSort_eq]

end Plan

/-- Whatever a request without a raw document asks for, the engine gets a document it can read. It
has a query exactly if there is a text or a filter that counts. -/
theorem compiled_documents_are_well_formed (p : Policy) (fields : List String) {r : Request}
    (h : r.raw = none) :
    WellFormed p fields r (compile p fields r) := by
  rw [compile_of_none p fields h]
  refine ⟨Compiled.members_toValue _, rfl, ⟨_, Compiled.get?_from _⟩, ⟨_, Compiled.get?_size _⟩,
    ?_, ?_, ?_, ?_⟩
  · rw [Compiled.get?_query]
    exact fun query => boolQuery_plan p fields r
  · rw [Compiled.get?_query]
    exact query?_plan_eq_none_iff p fields r
  · rw [Compiled.get?_sort]
    exact fun sort => sortList_of_listed r
  · rw [Compiled.get?_sort]
    exact listed_sort_eq_none_iff r

/-- A text and a filter that counts beside what does not, and a request in which nothing counts. -/
theorem blank_request_has_no_query :
    let request : Request :=
      { query := some " rust "
        filters := .ofList [("", .scalar (.str "x")), ("owner", .null), ("tags", .many [.str "a"])]
        sort := [⟨"", .asc⟩, ⟨"year", .desc⟩] }
    let blank : Request :=
      { query := some " \n", filters := .ofList [("owner", .scalar .null)], sort := [⟨"", .asc⟩] }
    request.raw = none ∧
    WellFormed { filterContext := .must } ["title"] request
      (compile { filterContext := .must } ["title"] request) ∧
    blank.raw = none ∧ (compile {} [] blank).get? "query" = none ∧
    (compile {} [] blank).get? "sort" = none := by
  intro request blank
  have hblank := compiled_documents_are_well_formed {} [] (show blank.raw = none from rfl)
  have htext : ¬blank.HasText := by
    rintro ⟨text, hquery, c, hc, hmark⟩
    obtain rfl := Option.some.inj hquery
    have hall : ∀ c ∈ " \n".toList, Text.isBlank c = true := Text.trim_eq_nil_iff.1 rfl
    rw [hall c hc] at hmark
    exact nomatch hmark
  have hfilter : ¬blank.HasFilter := by
    rintro ⟨field, value, hget, -, hsays⟩
    obtain ⟨rfl, rfl⟩ := Prod.mk.inj (List.mem_singleton.1 (KeyMap.mem_entries_iff.2 hget))
    exact nomatch hsays
  exact ⟨rfl,
    compiled_documents_are_well_formed { filterContext := .must } ["title"]
      (show request.raw = none from rfl),
    rfl, hblank.query_absent.2 ⟨htext, hfilter⟩,
    hblank.sort_absent.2 (List.forall_mem_singleton.2 rfl)⟩

end RecordSearch.Query
