import RecordSearch.Url.Basic
import RecordSearch.Text.Blank

/-! Reading web addresses. There is no address to resolve a relative one against. Hosts that are
looked up have names in ASCII: names in other scripts are refused, not converted. -/
namespace RecordSearch.Url
open RecordSearch.Text

def isPrintable (c : Char) : Bool := ' ' ≤ c && c ≤ '~'

def keepsInFragment (c : Char) : Bool := isPrintable c && !([' ', '"', '<', '>', '\x60'].contains c)

def keepsInQuery (c : Char) : Bool := isPrintable c && !([' ', '"', '#', '<', '>'].contains c)

def keepsInSpecialQuery (c : Char) : Bool := keepsInQuery c && c != '\''

def keepsInPath (c : Char) : Bool :=
  keepsInFragment c && !(['#', '?', '^', '\x7b', '\x7d'].contains c)

def keepsInUser (c : Char) : Bool :=
  keepsInPath c && !(['/', ':', ';', '=', '@', '[', '\\', ']', '|'].contains c)

def isForbiddenInHost (c : Char) : Bool :=
  ['\x00', '\t', '\n', '\r', ' ', '#', '/', ':', '<', '>', '?', '@', '[', '\\', ']', '^',
    '|'].contains c

/-- What no name that is looked up may hold. All that is not ASCII is among it, since names are not
converted. -/
def isForbiddenInName (c : Char) : Bool := isForbiddenInHost c || c < ' ' || c == '%' || '\x7f' ≤ c

def isSlash (kind : Kind) (c : Char) : Bool := c == '/' || (kind.isSpecial && c == '\\')

def isTerminator (kind : Kind) (c : Char) : Bool := isSlash kind c || c == '?' || c == '#'

def isDrive : List Char → Bool
  | [a, b] => a.isAlpha && (b == ':' || b == '|')
  | _ => false

def isSingleDot (s : List Char) : Bool :=
  s.map Char.toLower == ['.'] || s.map Char.toLower == ['%', '2', 'e']

def isDoubleDot (s : List Char) : Bool :=
  ["..", ".%2e", "%2e.", "%2e%2e"].any fun form => s.map Char.toLower == form.toList

/-- One step up from a path, its last segment first. A drive letter stays. -/
def shorten (done : List (List Char)) : List (List Char) :=
  match done with
  | [] => []
  | s :: rest => if isDrive s then s :: rest else rest

/-- Resolves dots. The segments read so far come last first; a path that ends in dots ends in an
empty segment. -/
def resolve (kind : Kind) (done : List (List Char)) : List (List Char) → List (List Char)
  | [] => done.reverse
  | raw :: rest =>
    let s := Percent.encode keepsInPath raw
    if isDoubleDot s then
      let up := shorten done
      resolve kind (if rest.isEmpty then [] :: up else up) rest
    else if isSingleDot s then resolve kind (if rest.isEmpty then [] :: done else done) rest
    else
      let s := match kind, s with
        | .file, [a, _] => if isDrive s then [a, ':'] else s
        | _, s => s
      resolve kind (s :: done) rest

def segments (kind : Kind) (s : List Char) : List (List Char) :=
  resolve kind [] (pieces (isSlash kind) s)

def dropSlash (kind : Kind) : List Char → List Char
  | [] => []
  | c :: s => if isSlash kind c then s else c :: s

def tail (kind : Kind) (s : List Char) : Option (List Char) × Option (List Char) :=
  let fragmentOf := fun (s : List Char) => match s with
    | '#' :: f => some (Percent.encode keepsInFragment f)
    | _ => none
  match s with
  | '?' :: s =>
    let keep := if kind.isSpecial then keepsInSpecialQuery else keepsInQuery
    (some (Percent.encode keep (s.takeWhile (· != '#'))), fragmentOf (s.dropWhile (· != '#')))
  | s => (none, fragmentOf s)

def isPathChar (c : Char) : Bool := c != '?' && c != '#'

def bracketed (s : List Char) : Except Fault Host :=
  match s.getLast?, ipv6? s.dropLast with
  | some ']', some pieces => .ok (.ipv6 pieces)
  | _, _ => .error .ipv6

/-- The host of a scheme with rules of its own: percent-decoded, in lower case, and an address if it
ends in a number. A label that says it was converted from another script, with `xn--` in front, is
taken as it is. -/
def namedHost (s : List Char) : Except Fault Host :=
  match s with
  | '[' :: rest => bracketed rest
  | s =>
    match Utf8.decode? (Percent.decode s) with
    | none => .error .name
    | some decoded =>
      let name := decoded.map Char.toLower
      if name.any isForbiddenInName then .error .name
      else if name.isEmpty then .error .emptyHost
      else if endsInNumber name then
        match ipv4? name with
        | some address => .ok (.ipv4 address)
        | none => .error .ipv4
      else .ok (.named name)

def plainHost (s : List Char) : Except Fault Host :=
  match s with
  | '[' :: rest => bracketed rest
  | s =>
    if s.any isForbiddenInHost then .error .hostCharacter
    else .ok (.named (Percent.encode isPrintable s))

def splitPort (inside : Bool) : List Char → List Char × Option (List Char)
  | [] => ([], none)
  | c :: s =>
    if c == ':' && !inside then ([], some s)
    else
      let (host, port) :=
        splitPort (if c == '[' then true else if c == ']' then false else inside) s
      (c :: host, port)

/-- A port and what is left after its digits. The default port of the scheme is not kept. -/
def readPort (kind : Kind) (s : List Char) : Except Fault (Option Nat × List Char) :=
  let ds := s.takeWhile isDigit
  let rest := s.dropWhile isDigit
  let n := ds.foldl (fun n c => n * 10 + (c.toNat - 48)) 0
  if 65535 < n then .error .port
  else if !(rest.isEmpty || rest.head? == some '\\') then .error .port
  else .ok (if ds.isEmpty || kind == .special n then none else some n, rest)

def splitUser (s : List Char) : Option (List Char × List Char) :=
  if s.contains '@' then
    let back := s.reverse
    some ((back.dropWhile (· != '@')).drop 1 |>.reverse, (back.takeWhile (· != '@')).reverse)
  else none

def readUser (s : List Char) : List Char × Option (List Char) :=
  let name := s.takeWhile (· != ':')
  match (s.dropWhile (· != ':')).drop 1 with
  | [] => (Percent.encode keepsInUser name, none)
  | password => (Percent.encode keepsInUser name, some (Percent.encode keepsInUser password))

def readAuthority (scheme : List Char) (kind : Kind) (s : List Char) : Except Fault Url := do
  let authority := s.takeWhile fun c => !isTerminator kind c
  let rest := s.dropWhile fun c => !isTerminator kind c
  let (user, hostPort) := (splitUser authority).getD ([], authority)
  let (username, password) := readUser user
  if (splitUser authority).isSome && user.isEmpty && hostPort.isEmpty && !rest.isEmpty then
    throw .emptyHost
  let (hostText, portText) := splitPort false hostPort
  if kind.isSpecial && hostText.isEmpty then throw .emptyHost
  let host ← if kind.isSpecial then namedHost hostText else plainHost hostText
  if hostText.isEmpty && (portText.isSome || !username.isEmpty || password.isSome) then
    throw .emptyHost
  let (port, more) ← match portText with
    | some p => readPort kind p
    | none => .ok (none, [])
  let rest := more ++ rest
  let pathText := rest.takeWhile isPathChar
  let path :=
    if kind.isSpecial || !pathText.isEmpty then segments kind (dropSlash kind pathText) else []
  let (query, fragment) := tail kind (rest.dropWhile isPathChar)
  return {
    scheme, username, password, host := some host, port, path := .rooted path, query, fragment }

/-- A file address: an optional host, which a drive letter in the path takes away, and a path
without empty segments at its start. -/
def readFile (s : List Char) : Except Fault Url := do
  let (host, rest) ← match s with
    | a :: b :: t =>
      if isSlash .file a && isSlash .file b then
        let hostText := t.takeWhile fun c => !isTerminator .file c
        if isDrive hostText then .ok (Host.named [], t)
        else if hostText.isEmpty then .ok (.named [], t)
        else
          let host ← namedHost hostText
          .ok (if host == .named "localhost".toList then .named [] else host,
            t.dropWhile fun c => !isTerminator .file c)
      else .ok (.named [], s)
    | s => .ok (.named [], s)
  let path := segments .file (dropSlash .file (rest.takeWhile isPathChar))
  let path := match path.dropWhile (·.isEmpty) with
    | [] => [[]]
    | path => path
  let (query, fragment) := tail .file (rest.dropWhile isPathChar)
  return {
    scheme := "file".toList, host := some (if path.any isDrive then .named [] else host),
    path := .rooted path, query, fragment }

def readLoose (scheme s : List Char) : Url :=
  let pathText := s.takeWhile isPathChar
  let path := match pathText with
    | '/' :: p => Path.rooted (segments .other p)
    | p => .loose (Percent.encode isPrintable p)
  let (query, fragment) := tail .other (s.dropWhile isPathChar)
  { scheme, path, query, fragment }

def isSchemeChar (c : Char) : Bool := c.isAlphanum || c == '+' || c == '-' || c == '.'

def splitScheme (s : List Char) : Option (List Char × List Char) :=
  match s, s.dropWhile isSchemeChar with
  | c :: _, ':' :: rest =>
    if c.isAlpha then some ((s.takeWhile isSchemeChar).map Char.toLower, rest) else none
  | _, _ => none

/-- The text as it is read: without blanks and control characters at its ends, and without tabs and
line breaks. -/
def cleaned (s : List Char) : List Char :=
  (dropEnd (· ≤ ' ') (s.dropWhile (· ≤ ' '))).filter fun c => !(['\t', '\n', '\r'].contains c)

def read (s : List Char) : Except Fault Url :=
  match splitScheme (cleaned s) with
  | none => .error .relative
  | some (scheme, rest) =>
    match Kind.of scheme with
    | .file => readFile rest
    | .special port =>
      readAuthority scheme (.special port) (rest.dropWhile (isSlash (.special port)))
    | .other =>
      match rest with
      | '/' :: '/' :: rest => readAuthority scheme .other rest
      | rest => .ok (readLoose scheme rest)

def ofText (s : String) : Except Fault Url := read s.toList

end RecordSearch.Url
