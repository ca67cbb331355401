import RecordSearch.Decimal.Layout

/-! Numbers of a data text. A literal without point and exponent is an integer as long as it fits a
machine word; all others are doubles. -/
namespace RecordSearch.Json

/-- An integer keeps its exact value, a double is finite. The two stay apart: `1` is not `1.0`. -/
inductive Number
  | int (value : Int) (inRange : -9223372036854775808 ≤ value ∧ value < 18446744073709551616)
  | double (value : Float) (finite : value.isFinite = true)

namespace Number

def ofInt? (i : Int) : Option Number :=
  if h : -9223372036854775808 ≤ i ∧ i < 18446744073709551616 then some (.int i h) else none

def ofFloat? (x : Float) : Option Number :=
  if h : x.isFinite = true then some (.double x h) else none

def ofUInt64 (n : UInt64) : Number :=
  .int n.toNat (by have := n.toNat_lt; omega)

def ofUInt32 (n : UInt32) : Number :=
  .int n.toNat (by have := n.toNat_lt; omega)

/-- Integers and doubles are never the same; doubles are compared as numbers, so the two zeros
are. -/
instance : BEq Number where
  beq
    | .int a _, .int b _ => a == b
    | .double a _, .double b _ => a == b
    | _, _ => false

def toFloat : Number → Float
  | .int i _ => (((Decimal.nearest i.natAbs 0).getD ⟨0, Decimal.Binary.least⟩).toFloat (i < 0))
  | .double x _ => x

def toNat? (bound : Nat) : Number → Option Nat
  | .int i _ => if 0 ≤ i ∧ i < bound then some i.toNat else none
  | .double _ _ => none

def text : Number → List Char
  | .int i _ => (toString i).toList
  | .double x _ => Decimal.Layout.data.text x

theorem toNat?_ofUInt32 (n : UInt32) : toNat? UInt32.size (ofUInt32 n) = some n.toNat := by
  have := n.toNat_lt
  simp [toNat?, ofUInt32]
  omega

theorem toNat?_ofUInt64 (n : UInt64) : toNat? UInt64.size (ofUInt64 n) = some n.toNat := by
  have := n.toNat_lt
  simp [toNat?, ofUInt64]
  omega

end Number

structure Numeral where
  negative : Bool
  whole : List Char
  fraction : Option (List Char)
  exponent : Option (Bool × List Char)

def digitsValue (ds : List Char) : Nat := ds.foldl (fun n c => 10 * n + (c.toNat - 48)) 0

/-- The number a numeral stands for, or nothing when it lies above all doubles. Minus zero is a
double. -/
def Numeral.number? (n : Numeral) : Option Number :=
  let double :=
    let fraction := n.fraction.getD []
    let exponent : Int := match n.exponent with
      | none => 0
      | some (true, ds) => -Int.ofNat (digitsValue ds)
      | some (false, ds) => Int.ofNat (digitsValue ds)
    do
      let b ← Decimal.nearest (digitsValue (n.whole ++ fraction))
        (exponent - Int.ofNat fraction.length)
      Number.ofFloat? (b.toFloat n.negative)
  match n.fraction, n.exponent with
  | none, none =>
    let m := digitsValue n.whole
    if n.negative && m == 0 then double
    else (Number.ofInt? (if n.negative then -Int.ofNat m else Int.ofNat m)).or double
  | _, _ => double

end RecordSearch.Json
