import RecordSearch.Yaml.Scalar
import RecordSearch.Yaml.Property

/-! Settings texts as tokens. Indentation becomes tokens of its own, and a key that is only found
out to be one at its colon gets its token put in front of it afterwards. -/
namespace RecordSearch.Yaml

inductive Token
  | directive (d : Directive)
  | documentStart
  | documentEnd
  | sequenceStart
  | mappingStart
  | blockEnd
  | flowSequenceStart
  | flowSequenceEnd
  | flowMappingStart
  | flowMappingEnd
  | entry
  | comma
  | key
  | value
  | reference (name : List Char)
  | anchor (name : List Char)
  | tag (handle suffix : List Char)
  | scalar (text : List Char) (style : Style)
deriving DecidableEq

/-- A place where a key may have begun: the number of tokens before it, and whether it must turn out
to be one. -/
structure Candidate where
  required : Bool
  before : Nat
  index : Nat
  line : Nat
  column : Nat

structure Tokens where
  place : Place
  tokens : Array Token := #[]
  indent : Int := -1
  outer : List Int := []
  flow : Nat := 0
  keyAllowed : Bool := true
  candidates : List (Option Candidate) := [none]

namespace Tokens

def push (s : Tokens) (t : Token) : Tokens := { s with tokens := s.tokens.push t }

def insertAt (s : Tokens) (n : Nat) (t : Token) : Tokens :=
  { s with tokens := s.tokens.insertIdxIfInBounds n t }

/-- A key ends on its line and within 1024 characters. -/
def isStale (p : Place) (c : Candidate) : Bool := c.line < p.line || c.index + 1024 < p.index

def dropStale (s : Tokens) : Option Tokens := do
  let candidates ← s.candidates.mapM fun c =>
    match c with
    | some c =>
      if isStale s.place c then (if c.required then none else some none) else some (some c)
    | none => some none
  return { s with candidates }

def dropKey (s : Tokens) : Option Tokens :=
  match s.candidates with
  | some c :: rest => if c.required then none else some { s with candidates := none :: rest }
  | _ => some s

/-- A key may begin here. In block style it must be one at the indentation of the collection. -/
def saveKey (s : Tokens) : Option Tokens :=
  if s.keyAllowed then do
    let s ← s.dropKey
    let p := s.place
    let c : Candidate :=
      ⟨s.flow == 0 && s.indent == Int.ofNat p.column, s.tokens.size, p.index, p.line, p.column⟩
    return { s with candidates := some c :: s.candidates.drop 1 }
  else some s

def closeBlocks (column : Int) (tokens : Array Token) (indent : Int) :
    List Int → Array Token × Int × List Int
  | [] => (tokens, indent, [])
  | out :: outer =>
    if column < indent then closeBlocks column (tokens.push .blockEnd) out outer
    else (tokens, indent, out :: outer)

def unroll (s : Tokens) (column : Int) : Tokens :=
  if s.flow > 0 then s
  else
    let (tokens, indent, outer) := closeBlocks column s.tokens s.indent s.outer
    { s with tokens, indent, outer }

def roll (s : Tokens) (column : Nat) (before : Nat) (t : Token) : Tokens :=
  if s.flow == 0 && s.indent < Int.ofNat column then
    { s.insertAt before t with indent := Int.ofNat column, outer := s.indent :: s.outer }
  else s

/-- Skips blanks, comments and line breaks. Tabs are no blanks where a key may begin in block
style. -/
def skipToToken : (fuel : Nat) → Tokens → Tokens
  | 0, s => s
  | fuel + 1, s =>
    let p := if s.place.index == 0 && s.place.looksAt '\ufeff' then s.place.skip 1 else s.place
    let p := (p.run fun c => c == ' ' || ((s.flow > 0 || !s.keyAllowed) && c == '\t')).2
    let p := p.skipComment
    if p.ahead 0 isBreak then
      skipToToken fuel { s with place := p.lineBreak.2, keyAllowed := s.keyAllowed || s.flow == 0 }
    else { s with place := p }

def mark (s : Tokens) (n : Nat) (t : Token) (keyAllowed : Bool) : Tokens :=
  { s.push t with place := s.place.skip n, keyAllowed }

def documentMark (s : Tokens) (t : Token) : Option Tokens := do
  let s ← (s.unroll (-1)).dropKey
  return s.mark 3 t false

def openFlow (s : Tokens) (t : Token) : Option Tokens := do
  let s ← s.saveKey
  return { s.mark 1 t true with flow := s.flow + 1, candidates := none :: s.candidates }

def closeFlow (s : Tokens) (t : Token) : Option Tokens := do
  let s ← s.dropKey
  let s :=
    if s.flow > 0 then { s with flow := s.flow - 1, candidates := s.candidates.drop 1 } else s
  return s.mark 1 t false

/-- An entry of a block sequence. In brackets it is left to the reader of nodes to complain. -/
def blockEntry (s : Tokens) : Option Tokens := do
  if s.flow == 0 && !s.keyAllowed then none
  let s ← (s.roll s.place.column s.tokens.size .sequenceStart).dropKey
  return s.mark 1 .entry true

def explicitKey (s : Tokens) : Option Tokens := do
  if s.flow == 0 && !s.keyAllowed then none
  let s ← (s.roll s.place.column s.tokens.size .mappingStart).dropKey
  return s.mark 1 .key (s.flow == 0)

/-- A colon. What stands at the innermost candidate turns out to be a key. -/
def valueMark (s : Tokens) : Option Tokens :=
  match s.candidates with
  | some c :: rest =>
    let s := (s.insertAt c.before .key).roll c.column c.before .mappingStart
    some ({ s with candidates := none :: rest }.mark 1 .value false)
  | _ =>
    if s.flow == 0 && !s.keyAllowed then none
    else
      let s := s.roll s.place.column s.tokens.size .mappingStart
      some (s.mark 1 .value (s.flow == 0))

def textToken (s : Tokens) (t : Token) (next : Place) (keyAllowed : Bool) : Tokens :=
  { s.push t with place := next, keyAllowed }

def tokenAt (s : Tokens) (c : Char) : Option Tokens := do
  let p := s.place
  let flow := s.flow > 0
  if p.column == 0 && c == '%' then
    let s ← (s.unroll (-1)).dropKey
    let (d, next) ← directive p
    return s.textToken (.directive d) next false
  else if p.atDocumentMark '-' then s.documentMark .documentStart
  else if p.atDocumentMark '.' then s.documentMark .documentEnd
  else if c == '[' then s.openFlow .flowSequenceStart
  else if c == '\x7b' then s.openFlow .flowMappingStart
  else if c == ']' then s.closeFlow .flowSequenceEnd
  else if c == '\x7d' then s.closeFlow .flowMappingEnd
  else if c == ',' then return (← s.dropKey).mark 1 .comma true
  else if c == '-' && p.gapAhead 1 then s.blockEntry
  else if c == '?' && (flow || p.gapAhead 1) then s.explicitKey
  else if c == ':' && (flow || p.gapAhead 1) then s.valueMark
  else if c == '*' then
    let s ← s.saveKey
    let (name, next) ← anchorName p
    return s.textToken (.reference name) next false
  else if c == '&' then
    let s ← s.saveKey
    let (name, next) ← anchorName p
    return s.textToken (.anchor name) next false
  else if c == '!' then
    let s ← s.saveKey
    let (handle, suffix, next) ← Yaml.tag flow p
    return s.textToken (.tag handle suffix) next false
  else if (c == '|' || c == '>') && !flow then
    let s ← s.dropKey
    let (text, next) ← blockScalar (c == '>') s.indent p
    return s.textToken (.scalar text (if c == '>' then .folded else .literal)) next true
  else if c == '\'' || c == '"' then
    let s ← s.saveKey
    let (text, next) ← quotedScalar (c == '\'') p
    return s.textToken (.scalar text .quoted) next false
  else
    let isMark :=
      isBlank c ||
        ['-', '?', ':', ',', '[', ']', '\x7b', '\x7d', '#', '&', '*', '!', '|', '>', '\'', '"', '%',
          '@', '\x60'].contains c
    if !isMark || (c == '-' && !p.ahead 1 isBlank) ||
        (!flow && (c == '?' || c == ':') && !p.gapAhead 1) then
      let s ← s.saveKey
      let (text, broken, next) ← plainScalar flow (s.indent + 1).toNat p
      return s.textToken (.scalar text .plain) next broken
    else none

def toEnd : (fuel : Nat) → Tokens → Option (List Token)
  | 0, _ => none
  | fuel + 1, s => do
    let s := skipToToken (s.place.rest.length + 1) s
    let s ← s.dropStale
    let s := s.unroll (Int.ofNat s.place.column)
    match s.place.rest with
    | [] =>
      let s ← (s.unroll (-1)).dropKey
      return s.tokens.toList
    | c :: _ => toEnd fuel (← s.tokenAt c)

end Tokens

def Token.ofText? (text : List Char) : Option (List Token) :=
  let text := match text with
    | '\ufeff' :: rest => rest
    | text => text
  if text.all isAllowed then Tokens.toEnd (text.length + 2) { place := .start text } else none

end RecordSearch.Yaml
