import RecordSearch.Query.Filter
import RecordSearch.Text.Blank

/-! Search requests, and the calls that build them up. -/
namespace RecordSearch.Query
open RecordSearch.Json

inductive Direction
  | asc
  | desc
deriving DecidableEq

def Direction.name : Direction → String
  | .asc => "asc"
  | .desc => "desc"

def Direction.choices : List (String × Direction) := [("asc", .asc), ("desc", .desc)]

structure SortDirective where
  field : String
  direction : Direction
deriving DecidableEq

/-- A search request. A raw document, null included, stands for the whole request. Pages count from
one. -/
structure Request where
  query : Option String := none
  sort : List SortDirective := []
  filters : KeyMap FilterValue := KeyMap.empty
  page : Option UInt32 := none
  perPage : Option UInt32 := none
  raw : Option Value := none

namespace Request

def ofQuery (query : String) : Request := { query := some query }

def matchAll : Request := {}

inductive Step
  | filter (field : String) (value : FilterValue)
  | sort (field : String) (direction : Direction)
  | page (number : UInt32)
  | perPage (count : UInt32)
  | raw (document : Value)

/-- A sort directive comes after those before it; any other step replaces what it sets. -/
def apply (r : Request) : Step → Request
  | .filter field value => { r with filters := r.filters.insert field value }
  | .sort field direction => { r with sort := r.sort ++ [⟨field, direction⟩] }
  | .page number => { r with page := some number }
  | .perPage count => { r with perPage := some count }
  | .raw document => { r with raw := some document }

def applyAll (r : Request) (steps : List Step) : Request := steps.foldl apply r

def text (r : Request) : Option String :=
  match r.query with
  | none => none
  | some q =>
    let t := Text.trim q.toList
    if t.isEmpty then none else some (String.ofList t)

def emptyFilters (r : Request) : List String := (r.filters.entries.filter (·.2.isEmpty)).map (·.1)

def effectiveFilters (r : Request) : KeyMap FilterValue :=
  r.filters.filter fun field value => field != "" && !value.isEmpty

def effectiveSort (r : Request) : List SortDirective := r.sort.filter (·.field != "")

end Request

def SortDirective.toValue (s : SortDirective) : Value :=
  .obj [("direction", .str s.direction.name), ("field", .str s.field)]

def Request.toValue (r : Request) : Value :=
  .obj [
    ("filters", .ofMap (r.filters.map FilterValue.toValue)),
    ("page", Value.orNull .nat r.page),
    ("per_page", Value.orNull .nat r.perPage),
    ("query", Value.orNull .str r.query),
    ("raw", r.raw.getD .null),
    ("sort", .arr (r.sort.map SortDirective.toValue))]

structure SortDirective.Draft where
  field : Option String := none
  direction : Option Direction := none

def SortDirective.member (d : Draft) (name : String) : Decoder Draft := fun c =>
  match name with
  | "field" => do return { d with field := some (← Decode.once d.field Decode.text c) }
  | "direction" => do
    return { d with
      direction := some (← Decode.once d.direction (Decode.choice Direction.choices) c) }
  | _ => do Decode.ignored c; return d

def SortDirective.decode : Decoder SortDirective := fun c => do
  let d ← Decode.record ["field", "direction"] 2 member {} c
  return ⟨← Decode.required d.field, ← Decode.required d.direction⟩

structure Request.Draft where
  query : Option (Option String) := none
  sort : Option (List SortDirective) := none
  filters : Option (KeyMap FilterValue) := none
  page : Option (Option UInt32) := none
  perPage : Option (Option UInt32) := none
  raw : Option (Option Value) := none

def Request.member (d : Draft) (name : String) : Decoder Draft := fun c =>
  match name with
  | "query" => do
    return { d with query := some (← Decode.once d.query (Decode.optional Decode.text) c) }
  | "sort" => do
    return { d with sort := some (← Decode.once d.sort (Decode.list SortDirective.decode) c) }
  | "filters" => do
    return { d with filters := some (← Decode.once d.filters (Decode.table FilterValue.decode) c) }
  | "page" => do
    return { d with page := some (← Decode.once d.page (Decode.optional Decode.word32) c) }
  | "per_page" => do
    return { d with perPage := some (← Decode.once d.perPage (Decode.optional Decode.word32) c) }
  | "raw" => do return { d with raw := some (← Decode.once d.raw (Decode.optional Decode.free) c) }
  | _ => do Decode.ignored c; return d

/-- Every member may be absent from an object. A null in place of a raw document is no raw
document. -/
def Request.decode : Decoder Request := fun c => do
  let d ← Decode.record ["query", "sort", "filters", "page", "per_page", "raw"] 6 member {} c
  return {
    query := d.query.getD none
    sort := d.sort.getD []
    filters := d.filters.getD KeyMap.empty
    page := d.page.getD none
    perPage := d.perPage.getD none
    raw := d.raw.getD none }

end RecordSearch.Query
