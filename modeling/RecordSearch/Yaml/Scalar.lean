import RecordSearch.Yaml.Place
import RecordSearch.Json.Reader

/-! The texts of scalars, read out of the lines they are spread over. -/
namespace RecordSearch.Yaml

inductive Style
  | plain
  | quoted
  | literal
  | folded
deriving DecidableEq

/-- Blanks and line breaks between the characters of a scalar. Once a line has ended, blanks no
longer count. -/
structure Gap where
  blanks : List Char := []
  firstBreak : List Char := []
  moreBreaks : List Char := []
  broken : Bool := false

/-- One line break is a space, more are one fewer; blanks within a line stay. -/
def Gap.text (g : Gap) : List Char :=
  if g.broken then
    match g.firstBreak with
    | '\n' :: _ => if g.moreBreaks.isEmpty then [' '] else g.moreBreaks
    | first => first ++ g.moreBreaks
  else g.blanks

/-- Reads a gap. At the start of a line a tab before the column `least` is an error. -/
def Gap.read (least : Nat) : (fuel : Nat) → Gap → Place → Option (Gap × Place)
  | 0, g, p => some (g, p)
  | fuel + 1, g, p =>
    match p.rest with
    | [] => some (g, p)
    | c :: _ =>
      if isBlank c then
        if g.broken && c == '\t' && p.column < least then none
        else read least fuel (if g.broken then g else { g with blanks := g.blanks ++ [c] })
          (p.skip 1)
      else if isBreak c then
        let (text, next) := p.lineBreak
        let g := if g.broken then { g with moreBreaks := g.moreBreaks ++ text }
          else { g with blanks := [], firstBreak := text, broken := true }
        read least fuel g next
      else some (g, p)

def shortEscape? (c : Char) : Option Char :=
  [('0', '\x00'), ('a', '\x07'), ('b', '\x08'), ('t', '\t'), ('\t', '\t'), ('n', '\n'),
    ('v', '\x0b'), ('f', '\x0c'), ('r', '\r'), ('e', '\x1b'), (' ', ' '), ('"', '"'), ('/', '/'),
    ('\\', '\\'), ('N', '\x85'), ('_', '\xa0'), ('L', '\u2028'), ('P', '\u2029')].lookup c

def escapeWidth (c : Char) : Nat :=
  match c with
  | 'x' => 2
  | 'u' => 4
  | 'U' => 8
  | _ => 0

def escape? (p : Place) : Option (Char × Place) := do
  let c ← p.rest.head?
  match shortEscape? c with
  | some e => some (e, p.skip 1)
  | none =>
    let width := escapeWidth c
    let digits := (p.rest.drop 1).take width
    if width = 0 || digits.length < width then none
    let n ← digits.foldlM (fun n d => do return n * 16 + (← Json.Reader.hexValue? d)) 0
    if h : n.isValidChar then some (Char.ofNatAux n h, p.skip (1 + width)) else none

/-- The characters of a quoted scalar up to a gap or its closing quote, the last first. The flag
tells of an escaped line end. -/
def quotedRun (single : Bool) : (fuel : Nat) → List Char → Place → Option (List Char × Bool × Place)
  | 0, _, _ => none
  | fuel + 1, done, p =>
    match p.rest with
    | [] => some (done, false, p)
    | c :: _ =>
      if isBlank c || isBreak c then some (done, false, p)
      else if single && c == '\'' && p.ahead 1 (· == '\'') then
        quotedRun single fuel ('\'' :: done) (p.skip 2)
      else if c == (if single then '\'' else '"') then some (done, false, p)
      else if !single && c == '\\' then
        if p.ahead 1 isBreak then some (done, true, (p.skip 1).lineBreak.2)
        else do
          let (e, next) ← escape? (p.skip 1)
          quotedRun single fuel (e :: done) next
      else quotedRun single fuel (c :: done) (p.skip 1)

def quotedRest (single : Bool) : (fuel : Nat) → List Char → Place → Option (List Char × Place)
  | 0, _, _ => none
  | fuel + 1, done, p => do
    if p.atDocumentEdge || p.atEnd then none
    let (done, escaped, p) ← quotedRun single (p.rest.length + 1) done p
    if !escaped && p.looksAt (if single then '\'' else '"') then some (done.reverse, p.skip 1)
    else
      let (gap, p) ← Gap.read 0 (p.rest.length + 1) { broken := escaped } p
      quotedRest single fuel (gap.text.reverse ++ done) p

def quotedScalar (single : Bool) (p : Place) : Option (List Char × Place) :=
  quotedRest single (p.rest.length + 1) [] (p.skip 1)

def isFlowMark (c : Char) : Bool := c == ',' || c == '[' || c == ']' || c == '\x7b' || c == '\x7d'

/-- The characters of a plain scalar up to a gap or its end, the last first. In brackets a colon
before a mark is an error. -/
def plainRun (flow : Bool) : (fuel : Nat) → List Char → Place → Option (List Char × Place)
  | 0, _, _ => none
  | fuel + 1, done, p =>
    match p.rest with
    | [] => some (done, p)
    | c :: _ =>
      if isBlank c || isBreak c then some (done, p)
      else if flow && c == ':' && p.ahead 1 (fun d => isFlowMark d || d == '?') then none
      else if (c == ':' && p.gapAhead 1) || (flow && isFlowMark c) then some (done, p)
      else plainRun flow fuel (c :: done) (p.skip 1)

/-- The rest of a plain scalar, the characters so far the last first, and the gap after them. The
last part of the result tells whether the scalar is followed by a line break. -/
def plainRest (flow : Bool) (least : Nat) :
    (fuel : Nat) → List Char → Gap → Place → Option (List Char × Bool × Place)
  | 0, _, _, _ => none
  | fuel + 1, done, gap, p => do
    if p.atDocumentEdge || p.looksAt '#' then return (done.reverse, gap.broken, p)
    let (added, next) ← plainRun flow (p.rest.length + 1) [] p
    let (done, gap) :=
      if added.isEmpty then (done, gap) else (added ++ (gap.text.reverse ++ done), {})
    if next.atEnd || !next.gapAhead 0 then return (done.reverse, gap.broken, next)
    let (gap, next) ← Gap.read least (next.rest.length + 1) {} next
    if !flow && next.column < least then return (done.reverse, gap.broken, next)
    plainRest flow least fuel done gap next

def plainScalar (flow : Bool) (least : Nat) (p : Place) : Option (List Char × Bool × Place) :=
  plainRest flow least (p.rest.length + 1) [] {} p

/-- Empty lines before a line of a block scalar. An indentation of zero is not known yet and becomes
the deepest one found, but at least `least`. -/
def blockBreaks (least : Nat) :
    (fuel : Nat) → (indent deepest : Nat) → List Char → Place → Option (Nat × List Char × Place)
  | 0, _, _, _, _ => none
  | fuel + 1, indent, deepest, breaks, p =>
    let spaces := (p.rest.takeWhile (· == ' ')).length
    let p := p.skip (if indent = 0 then spaces else min spaces (indent - p.column))
    let deepest := max deepest p.column
    if (indent = 0 || p.column < indent) && p.looksAt '\t' then none
    else if p.ahead 0 isBreak then
      let (text, next) := p.lineBreak
      blockBreaks least fuel indent deepest (breaks ++ text) next
    else some (if indent = 0 then max deepest least else indent, breaks, p)

/-- The lines of a block scalar: the text so far, the break after its last line, further breaks, and
whether the last line began with a blank. -/
def blockLines (folded : Bool) (indent : Nat) :
    (fuel : Nat) → (done lastBreak breaks : List Char) → (blankLine : Bool) → Place →
    Option (List Char × List Char × List Char × Place)
  | 0, _, _, _, _, _ => none
  | fuel + 1, done, lastBreak, breaks, blankLine, p =>
    if p.column == indent && !p.atEnd then do
      let startsBlank := p.ahead 0 isBlank
      let joined := if folded && lastBreak.head? == some '\n' && !blankLine && !startsBlank then
          if breaks.isEmpty then [' '] else []
        else lastBreak
      let (line, p) := p.run fun c => !isBreak c
      let (lastBreak, next) := p.lineBreak
      let (_, more, next) ← blockBreaks 0 (next.rest.length + 1) indent 0 [] next
      blockLines folded indent fuel (done ++ joined ++ breaks ++ line) lastBreak more
        startsBlank next
    else some (done, lastBreak, breaks, p)

inductive Chomping
  | strip
  | clip
  | keep

/-- The marks after the sign of a block scalar: chomping and indentation, in either order. A zero is
an error. -/
def blockHeader (p : Place) : Option (Chomping × Nat × Place) := do
  let chomping := fun (p : Place) => match p.rest with
    | '+' :: _ => (Chomping.keep, p.skip 1)
    | '-' :: _ => (.strip, p.skip 1)
    | _ => (.clip, p)
  let increment := fun (p : Place) => match p.rest with
    | '0' :: _ => none
    | c :: _ => if isDigit c then some (c.toNat - 48, p.skip 1) else some (0, p)
    | [] => some (0, p)
  if p.looksAt '+' || p.looksAt '-' then
    let (chomp, p) := chomping p
    let (n, p) ← increment p
    some (chomp, n, p)
  else
    let (n, p) ← increment p
    let (chomp, p) := if n = 0 then (.clip, p) else chomping p
    some (chomp, n, p)

def blockScalar (folded : Bool) (indent : Int) (p : Place) : Option (List Char × Place) := do
  let (chomping, increment, p) ← blockHeader (p.skip 1)
  let p := p.skipBlanks.skipComment
  if !p.atEnd && !p.ahead 0 isBreak then none
  let p := p.lineBreak.2
  let fixed :=
    if increment = 0 then 0 else if 0 ≤ indent then indent.toNat + increment else increment
  let (depth, breaks, p) ← blockBreaks (max (indent + 1).toNat 1) (p.rest.length + 1) fixed 0 [] p
  let (text, lastBreak, breaks, p) ← blockLines folded depth (p.rest.length + 1) []
    [] breaks false p
  let tail := match chomping with
    | .strip => []
    | .clip => lastBreak
    | .keep => lastBreak ++ breaks
  some (text ++ tail, p)

end RecordSearch.Yaml
