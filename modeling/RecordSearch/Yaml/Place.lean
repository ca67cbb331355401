/-! Places in a settings text, and the classes of its characters. -/
namespace RecordSearch.Yaml

structure Place where
  rest : List Char
  index : Nat := 0
  line : Nat := 0
  column : Nat := 0

def isAllowed (c : Char) : Bool :=
  c == '\t' || c == '\n' || c == '\r' || (' ' ≤ c && c ≤ '~') || c == '\x85' ||
    ('\xa0' ≤ c && c ≤ '\ufffd') || '\uffff' < c

def isBreak (c : Char) : Bool :=
  c == '\n' || c == '\r' || c == '\x85' || c == '\u2028' || c == '\u2029'

def isBlank (c : Char) : Bool := c == ' ' || c == '\t'

def isDigit (c : Char) : Bool := '0' ≤ c && c ≤ '9'

def isWordChar (c : Char) : Bool := c.isAlphanum || c == '_' || c == '-'

namespace Place

def start (s : List Char) : Place := { rest := s }

def atEnd (p : Place) : Bool := p.rest.isEmpty

def ahead (n : Nat) (f : Char → Bool) (p : Place) : Bool := (p.rest[n]?).any f

def looksAt (c : Char) (p : Place) : Bool := p.ahead 0 (· == c)

def gapAhead (n : Nat) (p : Place) : Bool :=
  match p.rest[n]? with
  | none => true
  | some c => isBlank c || isBreak c

def skip (n : Nat) (p : Place) : Place :=
  let k := (p.rest.take n).length
  { p with rest := p.rest.drop n, index := p.index + k, column := p.column + k }

def run (f : Char → Bool) (p : Place) : List Char × Place :=
  let taken := p.rest.takeWhile f
  (taken, { p with
    rest := p.rest.dropWhile f, index := p.index + taken.length,
    column := p.column + taken.length })

def skipBlanks (p : Place) : Place := (p.run isBlank).2

/-- A line break as it stands in a scalar, and the start of the next line. Two separators keep their
own character. -/
def lineBreak (p : Place) : List Char × Place :=
  match p.rest with
  | '\r' :: '\n' :: r => (['\n'], ⟨r, p.index + 2, p.line + 1, 0⟩)
  | c :: r =>
    if isBreak c then
      ([if c == '\u2028' || c == '\u2029' then c else '\n'],
        ⟨r, p.index + 1, p.line + 1, 0⟩) else ([], p)
  | [] => ([], p)

def skipComment (p : Place) : Place := if p.looksAt '#' then (p.run fun c => !isBreak c).2 else p

def atDocumentMark (mark : Char) (p : Place) : Bool :=
  p.column == 0 && p.ahead 0 (· == mark) && p.ahead 1 (· == mark) &&
    p.ahead 2 (· == mark) && p.gapAhead 3

def atDocumentEdge (p : Place) : Bool := p.atDocumentMark '-' || p.atDocumentMark '.'

end Place
end RecordSearch.Yaml
