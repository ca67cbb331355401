import RecordSearch.Json.Decode

/-! What a field filter compares a field with. -/
namespace RecordSearch.Query
open RecordSearch.Json

inductive FilterValue
  | null
  | many (values : List Value)
  | scalar (value : Value)

namespace FilterValue

instance : Inhabited FilterValue := ⟨.null⟩

/-- Whether the filter says nothing. An empty list does, and so does a null given as the one
value. -/
def isEmpty : FilterValue → Bool
  | .null => true
  | .many values => values.isEmpty
  | .scalar value => value.isNull

/-- Reads a free value as a filter: a list is membership in it, anything else but null is
equality. -/
def ofValue : Value → FilterValue
  | .null => .null
  | .arr values => .many values
  | value => .scalar value

def ofText (s : String) : FilterValue := .scalar (.str s)

def ofNumber (n : Number) : FilterValue := .scalar (.num n)

def ofBool (b : Bool) : FilterValue := .scalar (.bool b)

def ofTexts (texts : List String) : FilterValue := .many (texts.map .str)

def ofOption {α : Type} (f : α → FilterValue) (x : Option α) : FilterValue := (x.map f).getD .null

/-- The written form does not tell a null given as the one value from no value, nor a list so given
from membership. -/
def toValue : FilterValue → Value
  | .null => .null
  | .many values => .arr values
  | .scalar value => value

/-- The kinds are tried in turn: null is no value, and a list is not one value but several. -/
def decode : Decoder FilterValue :=
  Decode.anyOf [
    fun c => do Decode.null c; return .null,
    fun c => many <$> Decode.list Decode.free c,
    fun c => scalar <$> Decode.free c]

instance : BEq FilterValue where
  beq
    | .null, .null => true
    | .many a, .many b => Value.arr a == Value.arr b
    | .scalar a, .scalar b => a == b
    | _, _ => false

theorem toValue_ofValue (v : Value) : (ofValue v).toValue = v := by
  cases v <;> rfl

/-- A filter is read back from its written form exactly when its one value is neither null nor a
list. -/
theorem ofValue_toValue_iff (f : FilterValue) :
    ofValue f.toValue = f ↔ ∀ v, f = .scalar v → v.isNull = false ∧ ∀ vs, v ≠ .arr vs := by
  cases f with
  | null => simp [toValue, ofValue]
  | many vs => simp [toValue, ofValue]
  | scalar v => cases v <;> simp [toValue, ofValue, Value.isNull]

end FilterValue
end RecordSearch.Query
