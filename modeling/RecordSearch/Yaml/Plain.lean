import RecordSearch.Yaml.Place
import RecordSearch.Json.Value
import RecordSearch.Json.Reader

/-! What plain text stands for: null, a truth value, an integer, a double, or itself. -/
namespace RecordSearch.Yaml.Plain
open Json

def isNull (s : List Char) : Bool := ["null", "Null", "NULL", "~"].contains (String.ofList s)

def bool? (s : List Char) : Option Bool :=
  let s := String.ofList s
  if ["true", "True", "TRUE"].contains s then some true
  else if ["false", "False", "FALSE"].contains s then some false
  else none

def digits? (base : Nat) (ds : List Char) : Option Nat :=
  if ds.isEmpty then none
  else ds.foldlM (fun n c => do
    let d ← Reader.hexValue? c
    if d < base then some (n * base + d) else none) 0

def marked? : List Char → Option Nat
  | '0' :: 'x' :: ds => digits? 16 ds
  | '0' :: 'o' :: ds => digits? 8 ds
  | '0' :: 'b' :: ds => digits? 2 ds
  | _ => none

/-- More than one digit of which the first is zero, after a sign or none. Such text is no number. -/
def hasLeadingZero (s : List Char) : Bool :=
  let ds := match s with
    | '-' :: ds => ds
    | '+' :: ds => ds
    | ds => ds
  ds.length > 1 && ds.head? == some '0' && ds.all isDigit

def natural? (s : List Char) : Option Nat :=
  let ds := match s with
    | '+' :: ds => ds
    | ds => ds
  (marked? ds).or (if hasLeadingZero ds then none else digits? 10 ds)

def int? : List Char → Option Int
  | '-' :: '+' :: _ => none
  | '-' :: ds => (natural? ds).map fun n => -Int.ofNat n
  | s => (natural? s).map Int.ofNat

def decimal? (s : List Char) : Option Float := do
  let (negative, s) := match s with
    | '-' :: s => (true, s)
    | s => (false, s)
  let whole := s.takeWhile isDigit
  let (fraction, s) := match s.dropWhile isDigit with
    | '.' :: s => (s.takeWhile isDigit, s.dropWhile isDigit)
    | s => ([], s)
  if whole.isEmpty && fraction.isEmpty then none
  let exponent ← match s with
    | [] => some none
    | e :: s =>
      let (negative, ds) := match s with
        | '-' :: ds => (true, ds)
        | '+' :: ds => (false, ds)
        | ds => (false, ds)
      if (e == 'e' || e == 'E') && !ds.isEmpty && ds.all isDigit then some (some (negative, ds))
      else none
  return (← Numeral.number? { negative, whole, fraction := some fraction, exponent }).toFloat

def double? (s : List Char) : Option Float :=
  let unsigned := match s with
    | '+' :: '+' :: _ => none
    | '+' :: '-' :: _ => none
    | '+' :: s => some s
    | s => some s
  unsigned.bind fun u =>
    if [".inf", ".Inf", ".INF"].contains (String.ofList u) then some (1.0 / 0.0)
    else if ["-.inf", "-.Inf", "-.INF"].contains (String.ofList s) then some (-1.0 / 0.0)
    else if [".nan", ".NaN", ".NAN"].contains (String.ofList s) then some (0.0 / 0.0)
    else decimal? u

def doubleWordHalf : Int := 170141183460469231731687303715884105728

/-- Integers that fit a machine word. Some that do not are an error: those that fit a double
word. -/
inductive Integer
  | fits (n : Number)
  | tooLarge

/-- The integer that text stands for. Text that would need more than a double word is not taken for
one. -/
def integer? (s : List Char) : Option Integer :=
  (int? s).bind fun i =>
    match Number.ofInt? i with
    | some n => some (.fits n)
    | none => if -doubleWordHalf ≤ i ∧ i < 2 * doubleWordHalf then some .tooLarge else none

def value? (s : List Char) : Option Value :=
  if s.isEmpty || isNull s then some .null
  else match bool? s with
    | some b => some (.bool b)
    | none => match integer? s with
      | some (.fits n) => some (.num n)
      | some .tooLarge => none
      | none => match if hasLeadingZero s then none else double? s with
        | some x => some (.double x)
        | none => some (.str (String.ofList s))

end RecordSearch.Yaml.Plain
