/-! Octets and characters in UTF-8. The reader works an octet at a time and reports each longest
prefix that cannot become a character as one gap. -/
namespace RecordSearch.Text.Utf8

def encode (cs : List Char) : List UInt8 := cs.flatMap String.utf8EncodeChar

@[simp] theorem encode_nil : encode [] = [] := rfl
@[simp] theorem encode_cons (c : Char) (cs : List Char) :
    encode (c :: cs) = String.utf8EncodeChar c ++ encode cs :=
  rfl

/-- A character begun: the bits gathered, how many octets it still needs, and the range the next one
must lie in. -/
structure Begun where
  bits : Nat
  owed : Nat
  low : UInt8
  high : UInt8

inductive Opening
  | whole (c : Char)
  | long (b : Begun)
  | none

/-- The ranges of second octets leave out overlong forms, surrogates and values above U+10FFFF. -/
def Opening.of (b : UInt8) : Opening :=
  if b < 0x80 then .whole (Char.ofNat b.toNat)
  else if 0xC2 ≤ b && b ≤ 0xDF then .long ⟨b.toNat - 0xC0, 1, 0x80, 0xBF⟩
  else if 0xE0 ≤ b && b ≤ 0xEF then
    .long ⟨b.toNat - 0xE0, 2, if b == 0xE0 then 0xA0 else 0x80, if b == 0xED then 0x9F else 0xBF⟩
  else if 0xF0 ≤ b && b ≤ 0xF4 then
    .long ⟨b.toNat - 0xF0, 3, if b == 0xF0 then 0x90 else 0x80, if b == 0xF4 then 0x8F else 0xBF⟩
  else .none

/-- Reads on after `begun`, if a character has been begun. Each entry is a character, or `none` for
a gap. -/
def scanFrom : Option Begun → List UInt8 → List (Option Char)
  | none, [] => []
  | some _, [] => [none]
  | none, b :: bs =>
    match Opening.of b with
    | .whole c => some c :: scanFrom none bs
    | .long p => scanFrom (some p) bs
    | .none => none :: scanFrom none bs
  | some p, b :: bs =>
    if p.low ≤ b && b ≤ p.high then
      let bits := p.bits * 64 + (b.toNat - 0x80)
      if p.owed ≤ 1 then some (Char.ofNat bits) :: scanFrom none bs
      else scanFrom (some ⟨bits, p.owed - 1, 0x80, 0xBF⟩) bs
    else
      match Opening.of b with
      | .whole c => none :: some c :: scanFrom none bs
      | .long q => none :: scanFrom (some q) bs
      | .none => none :: none :: scanFrom none bs

def scan (bs : List UInt8) : List (Option Char) := scanFrom none bs

def decode? (bs : List UInt8) : Option (List Char) := (scan bs).mapM id

def decodeLossy (bs : List UInt8) : List Char := (scan bs).map (·.getD '\ufffd')

/-- The text of a message body in UTF-8: a byte order mark at the start is no part of it, gaps
become U+FFFD. Other encodings, and the marks that announce them, are not known here. -/
def decodeBody (bs : List UInt8) : List Char :=
  match decodeLossy bs with
  | '\ufeff' :: cs => cs
  | cs => cs

end RecordSearch.Text.Utf8
