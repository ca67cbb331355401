import RecordSearch.Decimal.Binary

/-! The shortest decimal that reads back as a given double: fewest digits, and of those the nearest
to the value. -/
namespace RecordSearch.Decimal

structure Scaled where
  digits : Nat
  exponent : Int
deriving DecidableEq

def compareWith (c : Nat) (p : Int) (num den : Nat) : Ordering :=
  if 0 ≤ p then compare (c * Nat.pow 10 p.toNat * den) num
  else compare (c * den) (num * Nat.pow 10 (-p).toNat)

/-- The exponent `e` with `10 ^ e ≤ num / den < 10 ^ (e + 1)`. -/
def leadingExponent (num den : Nat) : Int :=
  let e := Int.ofNat (width num) - Int.ofNat (width den)
  if compareWith 1 e num den == .gt then e - 1 else e

/-- The reals that round to a double, as fractions over one denominator; the ends belong to it when
the mantissa is even. -/
structure Interval where
  low : Nat
  value : Nat
  high : Nat
  den : Nat
  closed : Bool

/-- Just above a power of two the gap below is half as wide. -/
def Interval.of (b : Binary) : Interval :=
  let low :=
    if b.mantissa = Binary.unit ∧ Binary.least < b.exponent then 4 * b.mantissa - 1
    else 4 * b.mantissa - 2
  let e := b.exponent - 2
  let up := if 0 ≤ e then Nat.pow 2 e.toNat else 1
  ⟨low * up, 4 * b.mantissa * up, (4 * b.mantissa + 2) * up,
    if 0 ≤ e then 1 else Nat.pow 2 (-e).toNat, b.mantissa % 2 == 0⟩

def Interval.holds (i : Interval) (c : Nat) (p : Int) : Bool :=
  let atLow := compareWith c p i.low i.den
  let atHigh := compareWith c p i.high i.den
  (atLow == .gt || (i.closed && atLow == .eq)) && (atHigh == .lt || (i.closed && atHigh == .eq))

/-- The neighbour of the value on the grid `10 ^ p` that rounds to the double: of two the nearer, in
the middle the even one. -/
def Interval.onGrid (i : Interval) (p : Int) : Option Nat :=
  let s :=
    if 0 ≤ p then (i.value, i.den * Nat.pow 10 p.toNat)
    else (i.value * Nat.pow 10 (-p).toNat, i.den)
  let below := s.1 / s.2
  match i.holds below p, i.holds (below + 1) p with
  | true, true => some (roundQuotient s.1 s.2)
  | true, false => some below
  | false, true => some (below + 1)
  | false, false => none

/-- Tries ever finer grids, from one digit on. Seventeen digits always suffice; past the last step
the whole part stands in. -/
def Interval.search (i : Interval) (lead : Int) : (steps digits : Nat) → Scaled
  | 0, _ => ⟨i.value / i.den, 0⟩
  | steps + 1, digits =>
    let p := lead - Int.ofNat digits
    match i.onGrid p with
    | some c => ⟨c, p⟩
    | none => i.search lead steps (digits + 1)

def shortest (b : Binary) : Scaled :=
  if b.mantissa = 0 then ⟨0, 0⟩
  else
    let i := Interval.of b
    i.search (leadingExponent i.value i.den) 17 0

end RecordSearch.Decimal
