/-! Doubles as exact numbers: a finite double is `mantissa * 2 ^ exponent`, and a decimal is read as
the nearest one. -/
namespace RecordSearch.Decimal

/-- The magnitude `mantissa * 2 ^ exponent` of a finite double. A mantissa below `unit` occurs only
at the least exponent. -/
structure Binary where
  mantissa : Nat
  exponent : Int
deriving DecidableEq

namespace Binary

/-- The least mantissa of a double whose exponent is not the least. -/
def unit : Nat := 4503599627370496

def signBit : Nat := 9223372036854775808

def least : Int := -1074

def greatest : Int := 971

def ofFloat (x : Float) : Binary :=
  let bits := x.toBits.toNat
  let exponent := bits / unit % 2048
  let fraction := bits % unit
  if exponent = 0 then ⟨fraction, least⟩ else ⟨unit + fraction, Int.ofNat exponent - 1075⟩

def toFloat (negative : Bool) (b : Binary) : Float :=
  let sign := if negative then signBit else 0
  let magnitude :=
    if b.mantissa < unit then b.mantissa else (b.exponent + 1075).toNat * unit + (b.mantissa - unit)
  Float.ofBits (UInt64.ofNat (sign + magnitude))

def isNegative (x : Float) : Bool := x.toBits.toNat / signBit == 1

end Binary

/-- The quotient rounded to the nearest integer, from the middle to the even one. -/
def roundQuotient (num den : Nat) : Nat :=
  let q := num / den
  let r := num % den
  if den < 2 * r ∨ (2 * r = den ∧ q % 2 = 1) then q + 1 else q

def scaled (num den : Nat) (e : Int) : Nat × Nat :=
  if 0 ≤ e then (num, den * Nat.pow 2 e.toNat) else (num * Nat.pow 2 (-e).toNat, den)

/-- The double nearest to a positive fraction, ties to even; nothing when that lies above all finite
doubles. -/
def nearestQuotient (num den : Nat) : Option Binary :=
  let first := max (Int.ofNat num.log2 - Int.ofNat den.log2 - 53) Binary.least
  let at_ := fun e : Int => let s := scaled num den e; s.1 / s.2
  let exponent := if 2 * Binary.unit ≤ at_ first then first + 1 else first
  let s := scaled num den exponent
  let m := roundQuotient s.1 s.2
  let b : Binary := if m = 2 * Binary.unit then ⟨Binary.unit, exponent + 1⟩ else ⟨m, exponent⟩
  if Binary.greatest < b.exponent then none else some b

def width (n : Nat) : Nat := (Nat.toDigits 10 n).length

/-- The double nearest to `m * 10 ^ e`. Powers far outside the range of doubles are not formed. -/
def nearest (m : Nat) (e : Int) : Option Binary :=
  if m = 0 then some ⟨0, Binary.least⟩
  else if 310 < e + width m then none
  else if e + width m < -330 then some ⟨0, Binary.least⟩
  else if 0 ≤ e then nearestQuotient (m * Nat.pow 10 e.toNat) 1
  else nearestQuotient m (Nat.pow 10 (-e).toNat)

end RecordSearch.Decimal
