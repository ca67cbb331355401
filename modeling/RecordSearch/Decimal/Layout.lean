import RecordSearch.Decimal.Shortest

/-! How the digits of a double are laid out as text. -/
namespace RecordSearch.Decimal

structure Layout where
  /-- The leading exponents, from the first up to but not the second, that are written positionally;
  all of them if absent. -/
  positional : Option (Int × Int)
  /-- Whether a whole number written positionally ends in `.0`. -/
  pointZero : Bool

/-- A double in a data text: positional from `1e-5` up to `1e16`, always with a fraction or an
exponent. -/
def Layout.data : Layout := ⟨some (-5, 16), true⟩

/-- A double in a sentence: positional whatever its size, and a whole number without a point. -/
def Layout.sentence : Layout := ⟨none, false⟩

/-- Digits `ds` without zeros at the end, for the number `d.ddd * 10 ^ lead`. -/
def Layout.write (f : Layout) (ds : List Char) (lead : Int) : List Char :=
  let positional := match f.positional with
    | none => true
    | some (low, high) => low ≤ lead && lead < high
  if positional then
    if lead < 0 then '0' :: '.' :: (List.replicate (-lead - 1).toNat '0' ++ ds)
    else
      let n := lead.toNat + 1
      let whole := ds.take n ++ List.replicate (n - ds.length) '0'
      match ds.drop n with
      | [] => if f.pointZero then whole ++ ['.', '0'] else whole
      | rest => whole ++ '.' :: rest
  else
    let mantissa := match ds with
      | d :: e :: rest => d :: '.' :: e :: rest
      | ds => ds
    mantissa ++ 'e' :: (if lead < 0 then '-' else '+') :: Nat.toDigits 10 lead.natAbs

def Layout.text (f : Layout) (x : Float) : List Char :=
  if x.isNaN then "NaN".toList
  else
    let sign := if Binary.isNegative x then ['-'] else []
    if x.isInf then sign ++ "inf".toList
    else
      let s := shortest (Binary.ofFloat x)
      let all := Nat.toDigits 10 s.digits
      let ds := match (all.reverse.dropWhile (· == '0')).reverse with
        | [] => ['0']
        | ds => ds
      sign ++ f.write ds (if s.digits = 0 then 0 else s.exponent + Int.ofNat all.length - 1)

end RecordSearch.Decimal
