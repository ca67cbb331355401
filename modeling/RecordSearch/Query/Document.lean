import RecordSearch.Query.Request
import RecordSearch.Query.Policy

/-! Query documents in the engine's own language, compiled from requests. -/
namespace RecordSearch.Query
open RecordSearch.Json

/-- One condition on documents. An empty field list leaves the choice of fields to the engine. -/
inductive Clause
  | text (query : String) (fields : List String) (operator : TextOperator)
  | equals (field : String) (value : Value)
  | oneOf (field : String) (values : List Value)

def Clause.toValue : Clause → Value
  | .text query fields operator =>
    let inFields := if fields.isEmpty then [] else [("fields", Value.arr (fields.map .str))]
    .obj
      [("simple_query_string",
        .obj (("default_operator", .str operator.name) :: inFields ++ [("query", .str query)]))]
  | .equals field value => .obj [("term", .obj [(field, .obj [("value", value)])])]
  | .oneOf field values => .obj [("terms", .obj [(field, .arr values)])]

def filterClause (field : String) : FilterValue → Option Clause
  | .many (v :: vs) => some (.oneOf field (v :: vs))
  | .many [] => none
  | .scalar .null => none
  | .scalar value => some (.equals field value)
  | .null => none

/-- A filter has a clause exactly when it says something. -/
theorem filterClause_isNone_iff (field : String) (value : FilterValue) :
    (filterClause field value).isNone = value.isEmpty := by
  cases value with
  | null => rfl
  | many vs => cases vs <;> rfl
  | scalar v => cases v <;> rfl

def filterClauses (r : Request) : List Clause :=
  r.filters.entries.filterMap fun e => if e.1 == "" then none else filterClause e.1 e.2

def textClauses (p : Policy) (fields : List String) (r : Request) : List Clause :=
  match r.text with
  | some q => [.text q fields p.operator]
  | none => []

/-- How many documents are asked for. A size of zero, in the request or the policy, counts as not
given. -/
def pageSize (p : Policy) (r : Request) : UInt32 :=
  match r.perPage with
  | some n => if n = 0 then fromPolicy else n
  | none => fromPolicy
where
  fromPolicy : UInt32 := if p.pageSize = 0 then defaultPageSize else p.pageSize

def greatestOffset : UInt32 := UInt32.ofNat (UInt32.size - 1)

def saturatingMul (a b : UInt32) : UInt32 :=
  if a.toNat * b.toNat < UInt32.size then a * b else greatestOffset

/-- How many documents come before the page. Page zero is the first page, and offsets stop at the
greatest one. -/
def pageOffset (p : Policy) (r : Request) : UInt32 :=
  match r.page with
  | none => 0
  | some page => saturatingMul (max page 1 - 1) (pageSize p r)

structure Compiled where
  size : UInt32
  offset : UInt32
  must : List Clause
  filter : List Clause
  sort : List SortDirective

/-- The boolean query, unless everything matches. Neither list of clauses is ever written empty. -/
def Compiled.query? (c : Compiled) : Option Value :=
  let filter :=
    if c.filter.isEmpty then [] else [("filter", Value.arr (c.filter.map Clause.toValue))]
  let must := if c.must.isEmpty then [] else [("must", Value.arr (c.must.map Clause.toValue))]
  if c.must.isEmpty && c.filter.isEmpty then none else some (.obj [("bool", .obj (filter ++ must))])

def SortDirective.clause (s : SortDirective) : Value :=
  .obj [(s.field, .obj [("order", .str s.direction.name)])]

def Compiled.toValue (c : Compiled) : Value :=
  let query := match c.query? with
    | some q => [("query", q)]
    | none => []
  let sort := if c.sort.isEmpty then [] else [("sort", Value.arr (c.sort.map SortDirective.clause))]
  .obj ([("_source", .bool true), ("from", .nat c.offset)] ++ query ++
    [("size", .nat c.size)] ++ sort)

/-- What a request without a raw document asks for. Filters either stand alone or follow the free
text. -/
def plan (p : Policy) (fields : List String) (r : Request) : Compiled :=
  let texts := textClauses p fields r
  let filters := filterClauses r
  { size := pageSize p r
    offset := pageOffset p r
    must := match p.filterContext with
      | .filter => texts
      | .must => texts ++ filters
    filter := match p.filterContext with
      | .filter => filters
      | .must => []
    sort := r.effectiveSort }

def compile (p : Policy) (fields : List String) (r : Request) : Value :=
  match r.raw with
  | some document => document
  | none => (plan p fields r).toValue

end RecordSearch.Query
