import RecordSearch.Json.Value

/-! What reading a text found, faults included, before any shape is asked of it. A decoder walks the
tree in the order of the text, so of several faults it reports the first one that its own reading
comes to. -/
namespace RecordSearch.Json

/-- Why a text or a value could not be decoded: the text ended early, it is not a data text, or the
shape is wrong. -/
inductive Fault
  | ended
  | malformed
  | shape
deriving DecidableEq, Repr

inductive Begun
  | nothing
  | quote
  | other
deriving DecidableEq

/-- A text as far as it could be read. A value that is used is held to more than one that is
skipped: its numbers must fit a double, its escapes must pair up. So an unreadable value has a fault
for either case, and an oversized number or an unpaired escape is a value without content. -/
inductive Tree
  | cut (begun : Begun) (used skipped : Fault)
  | null
  | bool (b : Bool)
  | num (n : Option Number)
  | str (s : Option String)
  | arr (items : List Tree) (stop : Option Fault)
  | obj (members : List (Tree × Tree)) (stop : Option Fault)

instance : Inhabited Tree := ⟨.null⟩

namespace Tree

mutual
def ofValue : Value → Tree
  | .null => .null
  | .bool b => .bool b
  | .num n => .num (some n)
  | .str s => .str (some s)
  | .arr items => .arr (ofItems items) none
  | .obj members => .obj (ofMembers members) none

def ofItems : List Value → List Tree
  | [] => []
  | v :: rest => ofValue v :: ofItems rest

def ofMembers : List (String × Value) → List (Tree × Tree)
  | [] => []
  | (k, v) :: rest => (.str (some k), ofValue v) :: ofMembers rest
end

/-- The fault of a tree that is asked for a kind of value it is not. Unreadable scalars are found
out first. -/
def mismatch : Tree → Fault
  | .cut _ used _ => used
  | .num none => .malformed
  | .str none => .malformed
  | _ => .shape

def key : Tree → Except Fault String
  | .str (some s) => .ok s
  | .cut .nothing used _ => .error used
  | .cut .quote used _ => .error used
  | _ => .error .malformed

def stopped (stop : Option Fault) : Except Fault Unit :=
  match stop with
  | none => .ok ()
  | some f => .error f

mutual
def skip : Tree → Except Fault Unit
  | .cut _ _ skipped => .error skipped
  | .arr items stop => do skipItems items; stopped stop
  | .obj members stop => do skipMembers members; stopped stop
  | _ => .ok ()

def skipItems : List Tree → Except Fault Unit
  | [] => .ok ()
  | t :: rest => do t.skip; skipItems rest

def skipMembers : List (Tree × Tree) → Except Fault Unit
  | [] => .ok ()
  | (k, t) :: rest => do
    match k with
    | .str _ => .ok ()
    | .cut .nothing _ skipped => .error skipped
    | .cut .quote _ skipped => .error skipped
    | _ => .error .malformed
    t.skip
    skipMembers rest
end

/-- Where a tree comes from: a text, in which so many further containers may still be entered, or a
value. -/
inductive Origin
  | text (room : Nat)
  | value

def Origin.fresh : Origin := .text 127

def Origin.enter : Origin → Except Fault Origin
  | .text 0 => .error .malformed
  | .text (n + 1) => .ok (.text n)
  | .value => .ok .value

mutual
def value (origin : Origin) : Tree → Except Fault Value
  | .cut _ used _ => .error used
  | .null => .ok .null
  | .bool b => .ok (.bool b)
  | .num (some n) => .ok (.num n)
  | .num none => .error .malformed
  | .str (some s) => .ok (.str s)
  | .str none => .error .malformed
  | .arr items stop => do
    let inner ← origin.enter
    let vs ← itemValues inner items
    stopped stop
    .ok (.arr vs)
  | .obj members stop => do
    let inner ← origin.enter
    let m ← memberValues inner KeyMap.empty members
    stopped stop
    .ok (.ofMap m)

def itemValues (origin : Origin) : List Tree → Except Fault (List Value)
  | [] => .ok []
  | t :: rest => do
    let v ← t.value origin
    let vs ← itemValues origin rest
    .ok (v :: vs)

def memberValues (origin : Origin) (m : KeyMap Value) :
    List (Tree × Tree) → Except Fault (KeyMap Value)
  | [] => .ok m
  | (k, t) :: rest => do
    let k ← k.key
    let v ← t.value origin
    memberValues origin (m.insert k v) rest
end

end Tree

structure Document where
  tree : Tree
  trailing : Bool

end RecordSearch.Json
