import RecordSearch.Json.Number
import RecordSearch.KeyMap

/-! Free data values. -/
namespace RecordSearch.Json

/-- A data value. Members of an object are kept in ascending key order, which `Canonical` states. -/
inductive Value
  | null
  | bool (b : Bool)
  | num (n : Number)
  | str (s : String)
  | arr (items : List Value)
  | obj (members : List (String × Value))

instance : Inhabited Value := ⟨.null⟩

namespace Value

def ofMap (m : KeyMap Value) : Value := .obj m.entries

def object (members : List (String × Value)) : Value := ofMap (KeyMap.ofList members)

def nat (n : UInt32) : Value := .num (.ofUInt32 n)

/-- A double; one that is not finite has no written form and is null. -/
def double (x : Float) : Value :=
  match Number.ofFloat? x with
  | some n => .num n
  | none => .null

def orNull {α : Type} (f : α → Value) (x : Option α) : Value := (x.map f).getD .null

def get? (key : String) : Value → Option Value
  | .obj members => lookup key members
  | _ => none

def asText? : Value → Option String
  | .str s => some s
  | _ => none

def isNull : Value → Bool
  | .null => true
  | _ => false

mutual
def Canonical : Value → Prop
  | .arr items => CanonicalItems items
  | .obj members => members.Pairwise (·.1 < ·.1) ∧ CanonicalMembers members
  | _ => True

def CanonicalItems : List Value → Prop
  | [] => True
  | v :: rest => v.Canonical ∧ CanonicalItems rest

def CanonicalMembers : List (String × Value) → Prop
  | [] => True
  | (_, v) :: rest => v.Canonical ∧ CanonicalMembers rest
end

mutual
def same : Value → Value → Bool
  | .null, .null => true
  | .bool a, .bool b => a == b
  | .num a, .num b => a == b
  | .str a, .str b => a == b
  | .arr a, .arr b => sameItems a b
  | .obj a, .obj b => sameMembers a b
  | _, _ => false

def sameItems : List Value → List Value → Bool
  | [], [] => true
  | v :: r, w :: s => same v w && sameItems r s
  | _, _ => false

def sameMembers : List (String × Value) → List (String × Value) → Bool
  | [], [] => true
  | (j, v) :: r, (k, w) :: s => j == k && same v w && sameMembers r s
  | _, _ => false
end

instance : BEq Value := ⟨same⟩

end Value
end RecordSearch.Json
