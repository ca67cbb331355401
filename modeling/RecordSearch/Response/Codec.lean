import RecordSearch.Response.Basic

/-! The written form of the engine's answers. Absent members are left out. -/
namespace RecordSearch.Response
open RecordSearch.Json

def present {α : Type} (name : String) (f : α → Value) (x : Option α) : List (String × Value) :=
  match x with
  | some x => [(name, f x)]
  | none => []

def Total.toValue : Total → Value
  | .related value relation =>
    .obj (present "relation" .str relation ++ [("value", .num (.ofUInt64 value))])
  | .bare value => .num (.ofUInt64 value)

def Hit.toValue (h : Hit) : Value :=
  .obj ([("_id", .str h.id)] ++ present "_index" .str h.index ++ present "_score" .double h.score ++
    present "_source" (fun v => v) h.source)

def Hits.toValue (h : Hits) : Value :=
  .obj ([("hits", .arr (h.hits.map Hit.toValue))] ++ present "max_score" .double h.maxScore ++
    present "total" Total.toValue h.total)

def Search.toValue (s : Search) : Value :=
  let known :=
    present "timed_out" .bool s.timedOut ++ present "took" (fun n => .num (.ofUInt64 n)) s.took
  .ofMap (s.extra.override (KeyMap.ofList (("hits", s.hits.toValue) :: known)))

structure Total.Draft where
  value : Option UInt64 := none
  relation : Option (Option String) := none

def Total.member (d : Draft) (name : String) : Decoder Draft := fun c =>
  match name with
  | "value" => do return { d with value := some (← Decode.once d.value Decode.word64 c) }
  | "relation" => do
    return { d with relation := some (← Decode.once d.relation (Decode.optional Decode.text) c) }
  | _ => do Decode.ignored c; return d

/-- An object or a bare count. The whole is read as a free value first, so that whatever is wrong
with its text is found before its shape is. -/
def Total.decode : Decoder Total := fun c => do
  let _ ← Decode.free c
  match c.tree with
  | .obj _ _ =>
    let d ← Decode.object member {} c
    return .related (← Decode.required d.value) (d.relation.getD none)
  | _ => .bare <$> Decode.word64 c

structure Hit.Draft where
  id : Option String := none
  index : Option (Option String) := none
  score : Option (Option Float) := none
  source : Option (Option Value) := none

def Hit.member (d : Draft) (name : String) : Decoder Draft := fun c =>
  match name with
  | "_id" => do return { d with id := some (← Decode.once d.id Decode.text c) }
  | "_index" => do
    return { d with index := some (← Decode.once d.index (Decode.optional Decode.text) c) }
  | "_score" => do
    return { d with score := some (← Decode.once d.score (Decode.optional Decode.double) c) }
  | "_source" => do
    return { d with source := some (← Decode.once d.source (Decode.optional Decode.free) c) }
  | _ => do Decode.ignored c; return d

def Hit.decode : Decoder Hit := fun c => do
  let d ← Decode.record ["_id", "_index", "_score", "_source"] 1 member {} c
  return {
    id := ← Decode.required d.id, index := d.index.getD none, score := d.score.getD none,
    source := d.source.getD none }

structure Hits.Draft where
  total : Option (Option Total) := none
  maxScore : Option (Option Float) := none
  hits : Option (List Hit) := none

def Hits.member (d : Draft) (name : String) : Decoder Draft := fun c =>
  match name with
  | "total" => do
    return { d with total := some (← Decode.once d.total (Decode.optional Total.decode) c) }
  | "max_score" => do
    return { d with maxScore := some (← Decode.once d.maxScore (Decode.optional Decode.double) c) }
  | "hits" => do return { d with hits := some (← Decode.once d.hits (Decode.list Hit.decode) c) }
  | _ => do Decode.ignored c; return d

def Hits.decode : Decoder Hits := fun c => do
  let d ← Decode.record ["total", "max_score", "hits"] 0 member {} c
  return { total := d.total.getD none, maxScore := d.maxScore.getD none, hits := d.hits.getD [] }

structure Search.Draft where
  hits : Option Hits := none
  took : Option (Option UInt64) := none
  timedOut : Option (Option Bool) := none
  extra : KeyMap Value := KeyMap.empty

def Search.member (d : Draft) (name : String) : Decoder Draft := fun c =>
  match name with
  | "hits" => do return { d with hits := some (← Decode.once d.hits Hits.decode c) }
  | "took" => do
    return { d with took := some (← Decode.once d.took (Decode.optional Decode.word64) c) }
  | "timed_out" => do
    return { d with timedOut := some (← Decode.once d.timedOut (Decode.optional Decode.flag) c) }
  | name => do return { d with extra := d.extra.insert name (← Decode.free c) }

/-- An answer is an object; a list of its members is not accepted. -/
def Search.decode : Decoder Search := fun c => do
  let d ← Decode.object member {} c
  return {
    hits := d.hits.getD {}, took := d.took.getD none, timedOut := d.timedOut.getD none,
    extra := d.extra }

end RecordSearch.Response
