import RecordSearch.Yaml.Place
import RecordSearch.Text.Percent
import RecordSearch.Json.Reader

/-! Anchors, tags and directives. -/
namespace RecordSearch.Yaml
open RecordSearch.Text

def anchorName (p : Place) : Option (List Char × Place) :=
  let (name, p) := (p.skip 1).run isWordChar
  let ends :=
    p.gapAhead 0 || p.ahead 0 fun c => ['?', ':', ',', ']', '\x7d', '%', '@', '\x60'].contains c
  if name.isEmpty || !ends then none else some (name, p)

/-- Characters of a tag; in angle brackets and directives also some that separate items
elsewhere. -/
def isTagChar (wide : Bool) (c : Char) : Bool :=
  isWordChar c ||
    [';', '/', '?', ':', '@', '&', '=', '+', '$', '.', '!', '~', '*', '\'', '(', ')'].contains c ||
    (wide && [',', '[', ']'].contains c)

def octetCount (b : UInt8) : Option Nat :=
  if b < 0x80 then some 1
  else if 0xC0 ≤ b && b < 0xE0 then some 2
  else if 0xE0 ≤ b && b < 0xF0 then some 3
  else if 0xF0 ≤ b && b < 0xF8 then some 4
  else none

def escapedOctet (p : Place) : Option (UInt8 × Place) :=
  match p.rest with
  | '%' :: a :: b :: _ => do
    let h ← Json.Reader.hexValue? a
    let l ← Json.Reader.hexValue? b
    some (UInt8.ofNat (16 * h + l), p.skip 3)
  | _ => none

def furtherOctets : (count : Nat) → Place → Option (List UInt8 × Place)
  | 0, p => some ([], p)
  | count + 1, p => do
    let (b, p) ← escapedOctet p
    if b < 0x80 || 0xC0 ≤ b then none
    let (bs, p) ← furtherOctets count p
    some (b :: bs, p)

def tagText (wide : Bool) : (fuel : Nat) → Place → Option (List Char × Place)
  | 0, p => some ([], p)
  | fuel + 1, p =>
    match p.rest with
    | [] => some ([], p)
    | c :: _ =>
      if c == '%' then do
        let (b, next) ← escapedOctet p
        let count ← octetCount b
        let (bs, next) ← furtherOctets (count - 1) next
        let (more, next) ← tagText wide fuel next
        some (Utf8.decodeLossy (b :: bs) ++ more, next)
      else if isTagChar wide c then do
        let (more, next) ← tagText wide fuel (p.skip 1)
        some (c :: more, next)
      else some ([], p)

def tagHandle (p : Place) : Option (List Char × Place) :=
  if p.looksAt '!' then
    let (word, p) := (p.skip 1).run isWordChar
    if p.looksAt '!' then some ('!' :: word ++ ['!'], p.skip 1) else some ('!' :: word, p)
  else none

/-- A tag as handle and suffix. One in angle brackets has no handle, and the lone mark is a
suffix. -/
def tag (flow : Bool) (p : Place) : Option (List Char × List Char × Place) := do
  let fuel := p.rest.length + 1
  let (handle, suffix, next) ← if p.ahead 1 (· == '<') then do
      let (suffix, next) ← tagText true fuel (p.skip 2)
      if suffix.isEmpty || !next.looksAt '>' then none
      some ([], suffix, next.skip 1)
    else do
      let (handle, next) ← tagHandle p
      if handle.length > 1 && handle.getLast? == some '!' then
        let (suffix, next) ← tagText false fuel next
        if suffix.isEmpty then none
        some (handle, suffix, next)
      else
        let (suffix, next) ← tagText false fuel next
        let suffix := handle.drop 1 ++ suffix
        if suffix.isEmpty then some ([], ['!'], next) else some (['!'], suffix, next)
  if !(flow && next.looksAt ',') && !next.gapAhead 0 then none
  some (handle, suffix, next)

inductive Directive
  | version (major minor : Nat)
  | handle (handle meaning : List Char)
deriving DecidableEq

def versionNumber (p : Place) : Option (Nat × Place) :=
  let (ds, p) := p.run isDigit
  if ds.isEmpty || ds.length > 9 then none else some (Json.digitsValue ds, p)

def directive (p : Place) : Option (Directive × Place) := do
  let (name, p) := (p.skip 1).run isWordChar
  if name.isEmpty || !p.gapAhead 0 then none
  let p := p.skipBlanks
  let (d, p) ← match String.ofList name with
    | "YAML" => do
      let (major, p) ← versionNumber p
      if !p.looksAt '.' then none
      let (minor, p) ← versionNumber (p.skip 1)
      some (Directive.version major minor, p)
    | "TAG" => do
      let (handle, p) ← tagHandle p
      if handle.length > 1 && handle.getLast? != some '!' then none
      if !p.ahead 0 isBlank then none
      let (meaning, p) ← tagText true (p.rest.length + 1) p.skipBlanks
      if meaning.isEmpty || !p.gapAhead 0 then none
      some (.handle handle meaning, p)
    | _ => none
  let p := p.skipBlanks.skipComment
  if !p.atEnd && !p.ahead 0 isBreak then none
  some (d, p.lineBreak.2)

end RecordSearch.Yaml
