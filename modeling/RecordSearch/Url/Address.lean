import RecordSearch.Text.Pieces
import RecordSearch.Json.Reader

/-! Hosts that are network addresses. -/
namespace RecordSearch.Url
open RecordSearch.Text

def isDigit (c : Char) : Bool := '0' ≤ c && c ≤ '9'

def digitValue? (base : Nat) (c : Char) : Option Nat := do
  let v ← Json.Reader.hexValue? c
  if v < base then some v else none

def number? (base : Nat) (ds : List Char) : Option Nat :=
  ds.foldlM (fun n c => do return n * base + (← digitValue? base c)) 0

/-- One part of a dotted address: hexadecimal after `0x`, octal after `0`, else decimal. Nothing
after the mark is zero. -/
def ipv4Part? (part : List Char) : Option Nat :=
  match part with
  | [] => none
  | '0' :: 'x' :: ds => number? 16 ds
  | '0' :: 'X' :: ds => number? 16 ds
  | '0' :: d :: ds => number? 8 (d :: ds)
  | ds => number? 10 ds

def dottedParts (name : List Char) : List (List Char) :=
  let parts := pieces (· == '.') name
  if parts.length > 1 && parts.getLast? == some [] then parts.dropLast else parts

/-- A name whose last part is a number must be an address. -/
def endsInNumber (name : List Char) : Bool :=
  match (dottedParts name).getLast? with
  | none => false
  | some last => (!last.isEmpty && last.all isDigit) || (ipv4Part? last).isSome

/-- Each part but the last is one octet, the last one fills what remains. -/
def ipv4? (name : List Char) : Option Nat := do
  let parts := dottedParts name
  if parts.length > 4 then none
  let numbers ← parts.mapM ipv4Part?
  let last ← numbers.getLast?
  let front := numbers.dropLast
  if front.any (255 < ·) || Nat.pow 256 (4 - front.length) ≤ last then none
  some (front.foldl (fun n k => n * 256 + k) 0 * Nat.pow 256 (4 - front.length) + last)

def octets (address : Nat) : List Nat :=
  [address / 16777216 % 256, address / 65536 % 256, address / 256 % 256, address % 256]

def decimal (n : Nat) : List Char := Nat.toDigits 10 n

def ipv4Text (address : Nat) : List Char := ['.'].intercalate ((octets address).map decimal)

def plainOctet? (part : List Char) : Option Nat := do
  if part.isEmpty || (part.length > 1 && part.head? == some '0') then none
  let n ← number? 10 part
  if n ≤ 255 then some n else none

def dottedEnd? (part : List Char) : Option (List Nat) := do
  match ← (pieces (· == '.') part).mapM plainOctet? with
  | [a, b, c, d] => some [a * 256 + b, c * 256 + d]
  | _ => none

def groups? (dotted : Bool) : List (List Char) → Option (List Nat)
  | [] => some []
  | part :: rest =>
    if dotted && rest.isEmpty && part.contains '.' then dottedEnd? part
    else do
      if part.isEmpty || part.length > 4 then none
      let n ← number? 16 part
      let ns ← groups? dotted rest
      some (n :: ns)

def side? (dotted : Bool) (s : List Char) : Option (List Nat) :=
  if s.isEmpty then some [] else groups? dotted (pieces (· == ':') s)

def atGap : List Char → Option (List Char × List Char)
  | [] => none
  | ':' :: ':' :: rest => some ([], rest)
  | c :: rest => (atGap rest).map fun (a, b) => (c :: a, b)

def ipv6? (s : List Char) : Option (List Nat) :=
  match atGap s with
  | some (front, back) => do
    let a ← side? false front
    let b ← side? true back
    if a.length + b.length > 7 then none
    some (a ++ List.replicate (8 - a.length - b.length) 0 ++ b)
  | none => do
    let a ← side? true s
    if a.length = 8 then some a else none

def zeroRuns : List Nat → List Nat
  | [] => []
  | n :: rest =>
    let runs := zeroRuns rest
    (if n = 0 then runs.headD 0 + 1 else 0) :: runs

def hexGroups (pieces : List Nat) : List Char := [':'].intercalate (pieces.map (Nat.toDigits 16))

/-- The pieces in hex, the first of the longest runs of two or more zeros written as a gap. -/
def ipv6Text (pieces : List Nat) : List Char :=
  let runs := zeroRuns pieces
  let longest := runs.foldl max 0
  if longest < 2 then hexGroups pieces
  else
    let at_ := runs.idxOf longest
    hexGroups (pieces.take at_) ++ [':', ':'] ++ hexGroups (pieces.drop (at_ + longest))

end RecordSearch.Url
