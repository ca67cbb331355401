import RecordSearch.Json.Decode

/-! How requests are turned into query documents: the settings that hold for all of them. -/
namespace RecordSearch.Query
open RecordSearch.Json

inductive TextOperator
  | or
  | and
deriving DecidableEq

def TextOperator.name : TextOperator → String
  | .or => "or"
  | .and => "and"

def TextOperator.choices : List (String × TextOperator) := [("or", .or), ("and", .and)]

inductive FilterContext
  | filter
  | must
deriving DecidableEq

def FilterContext.name : FilterContext → String
  | .filter => "filter"
  | .must => "must"

def FilterContext.choices : List (String × FilterContext) := [("filter", .filter), ("must", .must)]

def defaultPageSize : UInt32 := 10

structure Policy where
  operator : TextOperator := .or
  filterContext : FilterContext := .filter
  pageSize : UInt32 := defaultPageSize
deriving DecidableEq

def Policy.toValue (p : Policy) : Value :=
  .obj [
    ("default_operator", .str p.operator.name),
    ("default_page_size", .nat p.pageSize),
    ("filter_context", .str p.filterContext.name)]

structure Policy.Draft where
  operator : Option TextOperator := none
  filterContext : Option FilterContext := none
  pageSize : Option UInt32 := none

def Policy.Draft.finish (d : Draft) : Policy :=
  { operator := d.operator.getD .or
    filterContext := d.filterContext.getD .filter
    pageSize := d.pageSize.getD defaultPageSize }

def Policy.member (d : Draft) (name : String) : Decoder Draft := fun c =>
  match name with
  | "default_operator" => do
    return { d with
      operator := some (← Decode.once d.operator (Decode.choice TextOperator.choices) c) }
  | "filter_context" => do
    return { d with
      filterContext :=
        some (← Decode.once d.filterContext (Decode.choice FilterContext.choices) c) }
  | "default_page_size" => do
    return { d with pageSize := some (← Decode.once d.pageSize Decode.word32 c) }
  | _ => do Decode.ignored c; return d

def Policy.decode : Decoder Policy := fun c =>
  Draft.finish <$>
    Decode.record ["default_operator", "filter_context", "default_page_size"] 0 member {} c

end RecordSearch.Query
