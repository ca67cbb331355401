import RecordSearch.Yaml.Node
import RecordSearch.Yaml.Plain

/-! Decoding nodes of a known shape. A scalar counts as what its place asks for. -/
namespace RecordSearch.Yaml
open Json

structure Cursor where
  document : Document
  depth : Nat
  node : Node

abbrev Decoder (α : Type) := Cursor → StateT Nat Option α

def knownTag (name : String) : List Char := ("tag:yaml.org,2002:" ++ name).toList

def isLocal (tag : Option (List Char)) : Bool := (tag.bind List.head?) == some '!'

namespace Cursor

def move (c : Cursor) (n : Node) : Cursor := { c with node := n }

/-- The node itself, or the one a reference means. References are followed at most a hundred times
as often as the document is large. -/
def follow (c : Cursor) : StateT Nat Option Cursor := do
  match c.node with
  | .reference anchor =>
    let followed := (← get) + 1
    if 100 * c.document.size < followed then failure
    set followed
    match c.document.node? anchor with
    | some n => return c.move n
    | none => failure
  | _ => return c

def enter (c : Cursor) : StateT Nat Option Cursor :=
  match c.depth with
  | 0 => failure
  | depth + 1 => return { c with depth }

end Cursor

namespace Decode

def text : Decoder String := fun c => do
  match (← c.follow).node with
  | .scalar s _ _ => return String.ofList s
  | _ => failure

/-- A scalar that stands for something else than its text: plain, or literal with the tag of its
kind. -/
def converted {α : Type} (kind : String) (read : List Char → Option α) : Decoder α := fun c => do
  match (← c.follow).node with
  | .scalar s style tag =>
    if style == .plain || (style == .literal && tag == some (knownTag kind)) then read s
    else failure
  | _ => failure

def flag : Decoder Bool := converted "bool" Plain.bool?

def word32 : Decoder UInt32 :=
  converted "int" fun s => (Plain.natural? s).bind
    fun n => if n < UInt32.size then some (UInt32.ofNat n) else none

def double : Decoder Float := converted "float" Plain.double?

/-- A text that may be missing: nothing written, or a null that is written plain. -/
def optionalText : Decoder (Option String) := fun c => do
  let c ← c.follow
  match c.node with
  | .scalar s .plain none =>
    if s.isEmpty || Plain.isNull s then return none else return some (String.ofList s)
  | .scalar s .plain (some tag) =>
    if tag == knownTag "null" then (if Plain.isNull s then return none else failure)
    else return some (String.ofList s)
  | _ => some <$> text c

def choice {α : Type} (choices : List (String × α)) : Decoder α := fun c => do
  match (← c.follow).node with
  | .scalar s style tag =>
    if isLocal tag then
      if style == .plain && (s.isEmpty || Plain.isNull s) then
        lookup (String.ofList (tag.getD []).tail) choices else failure
    else lookup (String.ofList s) choices
  | _ => failure

/-- The value of a scalar. A known tag forces its kind, others leave the text as it is. -/
def scalarValue (s : List Char) (style : Style) (tag : Option (List Char)) : Option Value :=
  match tag with
  | none => if style == .plain then Plain.value? s else some (.str (String.ofList s))
  | some tag =>
    if tag == knownTag "bool" then (Plain.bool? s).map .bool
    else if tag == knownTag "int" then
      match Plain.integer? s with
      | some (.fits n) => some (.num n)
      | _ => none
    else if tag == knownTag "float" then (Plain.double? s).map .double
    else if tag == knownTag "null" then (if Plain.isNull s then some .null else none)
    else some (.str (String.ofList s))

def value (document : Document) : (depth : Nat) → Node → StateT Nat Option Value
  | depth, n => do
    match (← (Cursor.mk document depth n).follow).node with
    | .scalar s style tag => if isLocal tag then failure else scalarValue s style tag
    | .sequence tag items =>
      if isLocal tag then failure
      match depth with
      | 0 => failure
      | depth + 1 => return .arr (← items.mapM (value document depth))
    | .mapping tag entries =>
      if isLocal tag then failure
      match depth with
      | 0 => failure
      | depth + 1 =>
        return .object (← entries.mapM fun (k, v) => do
          let name ← text ⟨document, depth, k⟩
          return (name, ← value document depth v))
    | .reference _ => failure

def free : Decoder Value := fun c => value c.document c.depth c.node

def entries (c : Cursor) : StateT Nat Option (Cursor × List (Node × Node)) := do
  let c ← c.follow
  match c.node with
  | .mapping _ entries => return (← c.enter, entries)
  | .scalar [] .plain _ => return (c, [])
  | _ => failure

def record {σ : Type} (step : σ → String → Decoder σ) (start : σ) : Decoder σ := fun c => do
  let (c, entries) ← entries c
  entries.foldlM (fun s (k, v) => do step s (← text (c.move k)) (c.move v)) start

def table {α : Type} (p : Decoder α) : Decoder (KeyMap α) := fun c => do
  let (c, entries) ← entries c
  KeyMap.ofList <$> entries.mapM fun (k, v) => do
    let name ← text (c.move k)
    return (name, ← p (c.move v))

def once {α : Type} (before : Option α) (p : Decoder α) : Decoder (Option α) := fun c =>
  match before with
  | some _ => failure
  | none => some <$> p c

end Decode

def maxDepth : Nat := 128

def Document.decode {α : Type} (d : Document) (p : Decoder α) : Option (Option α) :=
  match d.root with
  | none => some none
  | some n => (p ⟨d, maxDepth, n⟩).run' 0 |>.map some

end RecordSearch.Yaml
