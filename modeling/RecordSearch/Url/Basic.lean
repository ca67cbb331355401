import RecordSearch.Url.Address
import RecordSearch.Text.Percent

/-! Web addresses in their parts, and their text. -/
namespace RecordSearch.Url

inductive Kind
  | file
  | special (defaultPort : Nat)
  | other
deriving DecidableEq

def Kind.of (scheme : List Char) : Kind :=
  match String.ofList scheme with
  | "file" => .file
  | "http" => .special 80
  | "https" => .special 443
  | "ws" => .special 80
  | "wss" => .special 443
  | "ftp" => .special 21
  | _ => .other

def Kind.isSpecial : Kind → Bool
  | .other => false
  | _ => true

inductive Host
  | named (name : List Char)
  | ipv4 (address : Nat)
  | ipv6 (pieces : List Nat)
deriving DecidableEq

def Host.chars : Host → List Char
  | .named name => name
  | .ipv4 address => ipv4Text address
  | .ipv6 pieces => '[' :: ipv6Text pieces ++ [']']

inductive Path
  | rooted (segments : List (List Char))
  | loose (text : List Char)
deriving DecidableEq

def Path.chars : Path → List Char
  | .rooted segments => segments.flatMap ('/' :: ·)
  | .loose text => text

def Path.segments : Path → List (List Char)
  | .rooted segments => segments
  | .loose _ => []

end RecordSearch.Url

namespace RecordSearch

/-- A web address. All parts are held as they are written, percent-encoded. -/
structure Url where
  scheme : List Char
  username : List Char := []
  password : Option (List Char) := none
  host : Option Url.Host := none
  port : Option Nat := none
  path : Url.Path
  query : Option (List Char) := none
  fragment : Option (List Char) := none
deriving DecidableEq

namespace Url

def userChars (u : Url) : List Char :=
  match u.username, u.password with
  | [], none => []
  | name, none => name ++ ['@']
  | name, some password => name ++ ':' :: (password ++ ['@'])

def authorityChars (u : Url) (host : Host) : List Char :=
  u.userChars ++ host.chars ++ (match u.port with
    | some port => ':' :: decimal port
    | none => [])

def marked (mark : Char) (part : Option (List Char)) : List Char :=
  match part with
  | some text => mark :: text
  | none => []

/-- The whole text. A path that starts with two slashes is kept apart from a host. -/
def chars (u : Url) : List Char :=
  let front := match u.host with
    | some host => '/' :: '/' :: u.authorityChars host
    | none => match u.path with
      | .rooted ([] :: _ :: _) => ['/', '.']
      | _ => []
  u.scheme ++ ':' :: (front ++ u.path.chars ++ marked '?' u.query ++ marked '#' u.fragment)

def text (u : Url) : String := String.ofList u.chars

inductive Fault
  | relative
  | emptyHost
  | port
  | ipv4
  | ipv6
  | name
  | hostCharacter
deriving DecidableEq

def Fault.message : Fault → String
  | .relative => "relative URL without a base"
  | .emptyHost => "empty host"
  | .port => "invalid port number"
  | .ipv4 => "invalid IPv4 address"
  | .ipv6 => "invalid IPv6 address"
  | .name => "invalid international domain name"
  | .hostCharacter => "invalid domain character"

end Url
end RecordSearch
