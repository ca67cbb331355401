import RecordSearch.Json.Value

/-! The compact text of a value: no blanks, members in key order. -/
namespace RecordSearch.Json

def lowerHexDigit (n : Nat) : Char := Char.ofNat (if n < 10 then 48 + n else 87 + n)

/-- A character inside quotes. Only quotes, backslashes and control characters below U+0020 are
escaped. -/
def escape (c : Char) : List Char :=
  match c with
  | '"' => ['\\', '"']
  | '\\' => ['\\', '\\']
  | '\x08' => ['\\', 'b']
  | '\x0c' => ['\\', 'f']
  | '\n' => ['\\', 'n']
  | '\r' => ['\\', 'r']
  | '\t' => ['\\', 't']
  | c =>
    if c < ' ' then
      ['\\', 'u', '0', '0', lowerHexDigit (c.toNat / 16), lowerHexDigit (c.toNat % 16)]
    else [c]

def quoted (s : String) : List Char := '"' :: (s.toList.flatMap escape ++ ['"'])

namespace Value

mutual
def chars : Value → List Char
  | .null => ['n', 'u', 'l', 'l']
  | .bool true => ['t', 'r', 'u', 'e']
  | .bool false => ['f', 'a', 'l', 's', 'e']
  | .num n => n.text
  | .str s => quoted s
  | .arr items => '[' :: itemChars items
  | .obj members => '{' :: memberChars members

def itemChars : List Value → List Char
  | [] => [']']
  | [v] => v.chars ++ [']']
  | v :: w :: rest => v.chars ++ ',' :: itemChars (w :: rest)

def memberChars : List (String × Value) → List Char
  | [] => ['}']
  | [(k, v)] => quoted k ++ ':' :: (v.chars ++ ['}'])
  | (k, v) :: m :: rest => quoted k ++ ':' :: (v.chars ++ ',' :: memberChars (m :: rest))
end

def text (v : Value) : String := String.ofList v.chars

end Value
end RecordSearch.Json
