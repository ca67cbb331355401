import RecordSearch.Json.Printer
import RecordSearch.Json.Decode
import RecordSearch.Record
import RecordSearch.Text.Pieces

/-! Document operations sent together, as lines of text. -/
namespace RecordSearch.Bulk
open RecordSearch.Json

inductive Operation
  | index (target id : String) (payload : Payload)
  | delete (target id : String)

def Operation.action : Operation → Value
  | .index target id _ => .obj [("index", .obj [("_id", .str id), ("_index", .str target)])]
  | .delete target id => .obj [("delete", .obj [("_id", .str id), ("_index", .str target)])]

def Operation.lines (o : Operation) : List Value :=
  match o with
  | .index _ _ payload => [o.action, .ofMap payload]
  | .delete _ _ => [o.action]

def text (operations : List Operation) : String :=
  String.ofList (operations.flatMap fun o => o.lines.flatMap fun v => v.chars ++ ['\n'])

def ofEntries? (entries : List (String × Value)) : Option Payload :=
  if h : entries.Pairwise (·.1 < ·.1) then some ⟨entries, h⟩ else none

/-- The operations of a list of lines. After an action that puts in a document the next line is its
body. -/
def ofLines? : List Value → Option (List Operation)
  | [] => some []
  | .obj [("index", .obj [("_id", .str id), ("_index", .str target)])] :: .obj entries :: rest => do
    let payload ← ofEntries? entries
    let operations ← ofLines? rest
    some (.index target id payload :: operations)
  | .obj [("delete", .obj [("_id", .str id), ("_index", .str target)])] :: rest => do
    let operations ← ofLines? rest
    some (.delete target id :: operations)
  | _ => none

def ofText? (s : String) : Option (List Operation) := do
  let lines := Text.pieces (· == '\n') s.toList
  if lines.getLast? != some [] then none
  let values ← lines.dropLast.mapM fun line => (readDeep (String.ofList line)).toOption
  ofLines? values

theorem text_nil : text [] = "" := rfl

end RecordSearch.Bulk
