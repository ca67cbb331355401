import RecordSearch.Json.Reader

/-! Decoding values of a known shape. Faults are reported in the order of the text: a decoder stops
at the first one it comes to, and never looks at what follows. -/
namespace RecordSearch.Json

structure Cursor where
  tree : Tree
  origin : Tree.Origin

abbrev Decoder (α : Type) := Cursor → Except Fault α

namespace Decode

def text : Decoder String := fun c =>
  match c.tree with
  | .str (some s) => .ok s
  | t => .error t.mismatch

def flag : Decoder Bool := fun c =>
  match c.tree with
  | .bool b => .ok b
  | t => .error t.mismatch

/-- An integer from zero up to but not `bound`. A double is refused even if it is whole. -/
def natural (bound : Nat) : Decoder Nat := fun c =>
  match c.tree with
  | .num (some n) => match n.toNat? bound with
    | some k => .ok k
    | none => .error .shape
  | t => .error t.mismatch

def word16 : Decoder UInt16 := fun c => UInt16.ofNat <$> natural UInt16.size c

def word32 : Decoder UInt32 := fun c => UInt32.ofNat <$> natural UInt32.size c

def word64 : Decoder UInt64 := fun c => UInt64.ofNat <$> natural UInt64.size c

def double : Decoder Float := fun c =>
  match c.tree with
  | .num (some n) => .ok n.toFloat
  | t => .error t.mismatch

def free : Decoder Value := fun c => c.tree.value c.origin

def ignored : Decoder Unit := fun c => c.tree.skip

def optional {α : Type} (p : Decoder α) : Decoder (Option α) := fun c =>
  match c.tree with
  | .null => .ok none
  | _ => some <$> p c

def null : Decoder Unit := fun c =>
  match c.tree with
  | .null => .ok ()
  | t => .error t.mismatch

def firstOf {α : Type} (c : Cursor) : List (Decoder α) → Except Fault α
  | [] => .error .shape
  | p :: rest =>
    match p c with
    | .ok x => .ok x
    | .error _ => firstOf c rest

/-- A value of one of several kinds that does not say of which. It is read as a free value before
any kind is tried. -/
def anyOf {α : Type} (kinds : List (Decoder α)) : Decoder α := fun c => do
  let v ← free c
  firstOf ⟨.ofValue v, .value⟩ kinds

def items {α : Type} (p : Decoder α) (origin : Tree.Origin) : List Tree → Except Fault (List α)
  | [] => .ok []
  | t :: rest => do
    let x ← p ⟨t, origin⟩
    let xs ← items p origin rest
    .ok (x :: xs)

def list {α : Type} (p : Decoder α) : Decoder (List α) := fun c =>
  match c.tree with
  | .arr ts stop => do
    let inner ← c.origin.enter
    let xs ← items p inner ts
    Tree.stopped stop
    .ok xs
  | t => .error t.mismatch

def entries {α : Type} (p : Decoder α) (origin : Tree.Origin) :
    List (Tree × Tree) → Except Fault (List (String × α))
  | [] => .ok []
  | (k, t) :: rest => do
    let k ← k.key
    let x ← p ⟨t, origin⟩
    let xs ← entries p origin rest
    .ok ((k, x) :: xs)

def entryList {α : Type} (p : Decoder α) : Decoder (List (String × α)) := fun c =>
  match c.tree with
  | .obj ts stop => do
    let inner ← c.origin.enter
    let xs ← entries p inner ts
    Tree.stopped stop
    .ok xs
  | t => .error t.mismatch

def table {α : Type} (p : Decoder α) : Decoder (KeyMap α) :=
  fun c => KeyMap.ofList <$> entryList p c

def memberwise {σ : Type} (step : σ → String → Decoder σ) (origin : Tree.Origin) (s : σ) :
    List (Tree × Tree) → Except Fault σ
  | [] => .ok s
  | (k, t) :: rest => do
    let k ← k.key
    let s ← step s k ⟨t, origin⟩
    memberwise step origin s rest

def object {σ : Type} (step : σ → String → Decoder σ) (start : σ) : Decoder σ := fun c =>
  match c.tree with
  | .obj ts stop => do
    let inner ← c.origin.enter
    let s ← memberwise step inner start ts
    Tree.stopped stop
    .ok s
  | t => .error t.mismatch

/-- Feeds the items of a list to `step`, the first under the first name and so on. An item without a
name is not looked at: in a text it is one comma too many, in a value a wrong length. -/
def positional {σ : Type} (step : σ → String → Decoder σ) (origin : Tree.Origin) (s : σ) :
    List String → List Tree → Except Fault σ
  | _, [] => .ok s
  | [], _ :: _ => .error (match origin with | .text _ => .malformed | .value => .shape)
  | name :: names, t :: rest => do
    let s ← step s name ⟨t, origin⟩
    positional step origin s names rest

/-- An object, or a list of its members in the order of `names`. Of a list at least `required` must
be there. -/
def record {σ : Type} (names : List String) (required : Nat) (step : σ → String → Decoder σ)
    (start : σ) : Decoder σ := fun c =>
  match c.tree with
  | .arr ts stop => do
    let inner ← c.origin.enter
    let s ← positional step inner start names ts
    Tree.stopped stop
    if ts.length < required then .error .shape else .ok s
  | _ => object step start c

/-- The first value given for a member. A second one is a fault before it is looked at. -/
def once {α : Type} (before : Option α) (p : Decoder α) : Decoder α := fun c =>
  match before with
  | some _ => .error .shape
  | none => p c

def required {α : Type} : Option α → Except Fault α
  | some x => .ok x
  | none => .error .shape

def known {α : Type} (choices : List (String × α)) (name : String) : Except Fault α :=
  match lookup name choices with
  | some x => .ok x
  | none => .error .shape

/-- One of several named choices: its name, or an object with the name as its one key and null under
it. -/
def choice {α : Type} (choices : List (String × α)) : Decoder α := fun c =>
  match c.tree, c.origin with
  | .str (some s), _ => known choices s
  | .obj [(k, t)] stop, .text _ => do
    let _ ← c.origin.enter
    let x ← known choices (← text ⟨k, c.origin⟩)
    nothing t
    Tree.stopped stop
    .ok x
  | .obj ((k, t) :: _) _, .text _ => do
    let _ ← c.origin.enter
    let _ ← known choices (← text ⟨k, c.origin⟩)
    nothing t
    .error .malformed
  | .obj [] stop, .text _ => do
    let _ ← c.origin.enter
    Tree.stopped stop
    .error .malformed
  | .obj [(k, t)] _, .value => do
    let x ← known choices (← text ⟨k, c.origin⟩)
    nothing t
    .ok x
  | .cut .nothing used _, _ => .error used
  | .cut .quote used _, _ => .error used
  | .str none, _ => .error .malformed
  | _, .text _ => .error .malformed
  | _, .value => .error .shape
where
  nothing (t : Tree) : Except Fault Unit :=
    match t with
    | .null => .ok ()
    | t => .error t.mismatch

end Decode

def decodeText {α : Type} (p : Decoder α) (s : String) : Except Fault α := do
  let d := Reader.document s
  let x ← p ⟨d.tree, .fresh⟩
  if d.trailing then .error .malformed else .ok x

def decodeValue {α : Type} (p : Decoder α) (v : Value) : Except Fault α := p ⟨.ofValue v, .value⟩

/-- Reads a text as a free value, however deep its containers nest. -/
def readDeep (s : String) : Except Fault Value := do
  let d := Reader.document s
  let v ← d.tree.value .value
  if d.trailing then .error .malformed else .ok v

end RecordSearch.Json
