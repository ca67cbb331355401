import RecordSearch.Yaml.Token

/-! Settings texts as trees of nodes. Anchors are numbered, and a reference stays a node of its
own. -/
namespace RecordSearch.Yaml

/-- A node. Tags have their handles resolved; a tag that says nothing about a plain text is left
out. -/
inductive Node
  | scalar (text : List Char) (style : Style) (tag : Option (List Char))
  | sequence (tag : Option (List Char)) (items : List Node)
  | mapping (tag : Option (List Char)) (entries : List (Node × Node))
  | reference (anchor : Nat)

def Node.nothing : Node := .scalar [] .plain none

structure Composer where
  tokens : List Token
  handles : List (List Char × List Char) := []
  /-- The anchors known by name, each with its number. -/
  anchors : List (List Char × Nat) := []
  /-- The numbers given so far, each with the place of its node. -/
  places : List (Nat × Nat) := []
  /-- The finished nodes that have an anchor, by place. -/
  anchored : List (Nat × Node) := []
  /-- The size of what has been read: a scalar or reference counts once, a container twice. -/
  size : Nat := 0

abbrev Compose := StateT Composer Option

namespace Compose

def peek : Compose (Option Token) := return (← get).tokens.head?

def skip : Compose Unit := modify fun s => { s with tokens := s.tokens.drop 1 }

def nextIn (ts : List Token) : Compose Bool := return (← peek).any ts.contains

def skipIf (t : Token) : Compose Bool := do
  if ← nextIn [t] then
    skip
    return true
  else return false

def expect (t : Token) : Compose Unit := do
  if !(← skipIf t) then failure

def count (n : Nat) : Compose Unit := modify fun s => { s with size := s.size + n }

/-- What a tag says once its handle is replaced by the meaning. Two handles have one from the
start. -/
def resolveTag (handle suffix : List Char) : Compose (List Char) := do
  if handle.isEmpty then return suffix
  let handles := (← get).handles ++ [(['!'], ['!']), (['!', '!'], "tag:yaml.org,2002:".toList)]
  match handles.lookup handle with
  | some meaning => return meaning ++ suffix
  | none => failure

def anchor? : Compose (Option (List Char)) := do
  match ← peek with
  | some (.anchor name) =>
    skip
    return some name
  | _ => return none

def tag? : Compose (Option (List Char × List Char)) := do
  match ← peek with
  | some (.tag handle suffix) =>
    skip
    return some (handle, suffix)
  | _ => return none

def properties : Compose (Option (List Char) × Option (List Char)) := do
  let before ← anchor?
  let tag ← tag?
  let anchor ← if before.isNone && tag.isSome then anchor? else pure before
  match tag with
  | some (handle, suffix) => return (anchor, some (← resolveTag handle suffix))
  | none => return (anchor, none)

/-- Begins a node. The number of its anchor is how many names there have been; a name that comes
again means the new node. -/
def begin (anchor : Option (List Char)) : Compose Nat := do
  let s ← get
  match anchor with
  | some name =>
    let number := s.anchors.length
    set { s with
      anchors := (name, number) :: s.anchors.filter (·.1 != name),
      places := (number, s.size) :: s.places, size := s.size + 1 }
  | none => set { s with size := s.size + 1 }
  return s.size

def finish (anchor : Option (List Char)) (place : Nat) (n : Node) : Compose Node := do
  if anchor.isSome then modify fun s => { s with anchored := (place, n) :: s.anchored }
  return n

def nothing : Compose Node := do
  count 1
  return .nothing

mutual
/-- A node. Block collections are not allowed in brackets; the entries of a block sequence may
follow a key without being indented. -/
def node : (fuel : Nat) → (block unindented : Bool) → Compose Node
  | 0, _, _ => failure
  | fuel + 1, block, unindented => do
    if let some (.reference name) ← peek then
      skip
      match (← get).anchors.lookup name with
      | some number =>
        count 1
        return .reference number
      | none => failure
    else
      let (anchor, tag) ← properties
      let place ← begin anchor
      match ← peek with
      | some (.scalar text style) =>
        skip
        finish anchor place (.scalar text style (if tag == some ['!'] then none else tag))
      | some .entry =>
        if unindented then finish anchor place (.sequence tag (← unindentedItems fuel))
        else unwritten anchor tag place
      | some .flowSequenceStart =>
        skip
        finish anchor place (.sequence tag (← flowItems fuel true))
      | some .flowMappingStart =>
        skip
        finish anchor place (.mapping tag (← flowEntries fuel true))
      | some .sequenceStart =>
        if block then
          skip
          finish anchor place (.sequence tag (← blockItems fuel))
        else unwritten anchor tag place
      | some .mappingStart =>
        if block then
          skip
          finish anchor place (.mapping tag (← blockEntries fuel))
        else unwritten anchor tag place
      | _ => unwritten anchor tag place

def nodeBefore : (fuel : Nat) → (stop : List Token) → (block unindented : Bool) → Compose Node
  | 0, _, _, _ => failure
  | fuel + 1, stop, block, unindented => do
    if ← nextIn stop then nothing else node fuel block unindented

def blockItems : (fuel : Nat) → Compose (List Node)
  | 0 => failure
  | fuel + 1 => do
    if ← skipIf .entry then
      let n ← nodeBefore fuel [.entry, .blockEnd] true false
      return n :: (← blockItems fuel)
    else
      expect .blockEnd
      count 1
      return []

def unindentedItems : (fuel : Nat) → Compose (List Node)
  | 0 => failure
  | fuel + 1 => do
    if ← skipIf .entry then
      let n ← nodeBefore fuel [.entry, .key, .value, .blockEnd] true false
      return n :: (← unindentedItems fuel)
    else
      count 1
      return []

def blockEntries : (fuel : Nat) → Compose (List (Node × Node))
  | 0 => failure
  | fuel + 1 => do
    if ← skipIf .key then
      let k ← nodeBefore fuel [.key, .value, .blockEnd] true true
      let v ←
        if ← skipIf .value then nodeBefore fuel [.key, .value, .blockEnd] true true
        else nothing
      return (k, v) :: (← blockEntries fuel)
    else
      expect .blockEnd
      count 1
      return []

def flowItems : (fuel : Nat) → (first : Bool) → Compose (List Node)
  | 0, _ => failure
  | fuel + 1, first => do
    if ← skipIf .flowSequenceEnd then
      count 1
      return []
    if !first then expect .comma
    if ← skipIf .key then
      count 2
      let e ← singleEntry fuel
      return .mapping none [e] :: (← flowItems fuel false)
    else if ← skipIf .flowSequenceEnd then
      count 1
      return []
    else
      let n ← node fuel false false
      return n :: (← flowItems fuel false)

/-- The entry of a key among items. After a key that is not written one more token is left out. -/
def singleEntry : (fuel : Nat) → Compose (Node × Node)
  | 0 => failure
  | fuel + 1 => do
    let k ← if ← nextIn [.value, .comma, .flowSequenceEnd] then do
        skip
        nothing
      else node fuel false false
    let v ←
      if ← skipIf .value then nodeBefore fuel [.comma, .flowSequenceEnd] false false
      else nothing
    return (k, v)

/-- The entries up to a closing brace. Without a mark for the key there is no value. -/
def flowEntries : (fuel : Nat) → (first : Bool) → Compose (List (Node × Node))
  | 0, _ => failure
  | fuel + 1, first => do
    if ← skipIf .flowMappingEnd then
      count 1
      return []
    if !first then expect .comma
    if ← skipIf .key then
      let k ← nodeBefore fuel [.value, .comma, .flowMappingEnd] false false
      let v ←
        if ← skipIf .value then nodeBefore fuel [.comma, .flowMappingEnd] false false
        else nothing
      return (k, v) :: (← flowEntries fuel false)
    else if ← skipIf .flowMappingEnd then
      count 1
      return []
    else
      let k ← node fuel false false
      let v ← nothing
      return (k, v) :: (← flowEntries fuel false)

def unwritten (anchor tag : Option (List Char)) (place : Nat) : Compose Node :=
  if anchor.isNone && tag.isNone then failure else finish anchor place (.scalar [] .plain tag)
end

end Compose

structure Document where
  root : Option Node
  anchored : List (Nat × Node)
  size : Nat

def Document.node? (d : Document) (anchor : Nat) : Option Node := d.anchored.lookup anchor

namespace Compose

def directives : (fuel : Nat) → (versioned : Bool) → Compose Unit
  | 0, _ => failure
  | fuel + 1, versioned => do
    match ← peek with
    | some (.directive (.version major minor)) =>
      if versioned || major != 1 || !(minor == 1 || minor == 2) then failure
      skip
      directives fuel true
    | some (.directive (.handle handle meaning)) =>
      if ((← get).handles.lookup handle).isSome then failure
      modify fun s => { s with handles := (handle, meaning) :: s.handles }
      skip
      directives fuel versioned
    | _ => return ()

def isDirective : Token → Bool
  | .directive _ => true
  | _ => false

def root (fuel : Nat) : Compose Node := do
  let next ← peek
  let n ← if next.any isDirective || next == some .documentStart then do
      directives fuel false
      expect .documentStart
      match ← peek with
      | none => nothing
      | some t =>
        if isDirective t || t == .documentStart || t == .documentEnd then nothing
        else node fuel true false
    else node fuel true false
  modify fun s => { s with tokens := s.tokens.dropWhile (· == .documentEnd) }
  if (← peek).isSome then failure
  return n

end Compose

def Document.ofTokens? (tokens : List Token) : Option Document :=
  if tokens.isEmpty then some ⟨none, [], 1⟩
  else do
    let (n, s) ← (Compose.root (4 * tokens.length + 8)).run { tokens }
    some ⟨some n,
      s.places.filterMap fun (number, place) => (s.anchored.lookup place).map (number, ·), s.size⟩

def Document.ofText? (text : List Char) : Option Document :=
  Token.ofText? text >>= Document.ofTokens?

end RecordSearch.Yaml
