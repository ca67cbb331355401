import RecordSearch.Text.Pieces

/-! Files and directories, and the paths that lead to them. -/
namespace RecordSearch

inductive FileEntry
  | missing
  /-- The path goes on behind a file. -/
  | blocked
  /-- A file that cannot be opened. -/
  | locked
  | directory
  | file (content : List UInt8)
deriving DecidableEq

/-- Files by the names on the way to them. The directories on that way exist too, and a name without
content is one itself. -/
structure FileTree where
  entries : List (List String × Option (List UInt8))

namespace FileTree

def find (t : FileTree) (names : List String) : FileEntry :=
  match t.entries.lookup names with
  | some (some content) => .file content
  | some none => .directory
  | none =>
    if names.isEmpty || t.entries.any fun e => names.isPrefixOf e.1 then .directory else .missing

/-- Follows names one after another from a directory. Two dots lead up, and stay where there is
nothing above. -/
def walk (t : FileTree) (here : List String) : List String → FileEntry
  | [] => t.find here
  | name :: rest =>
    match t.find here with
    | .directory =>
      if name.isEmpty || name == "." then t.walk here rest
      else if name == ".." then t.walk here.dropLast rest
      else t.walk (here ++ [name]) rest
    | .file _ => .blocked
    | other => other

def names (path : String) : List String := (Text.pieces (· == '/') path.toList).map String.ofList

/-- What stands at a path as seen from a directory. An empty path leads nowhere, and one that begins
with a slash starts at the top. -/
def entryAt (t : FileTree) (directory : List String) (path : String) : FileEntry :=
  if path.isEmpty then .missing
  else t.walk (if path.startsWith "/" then [] else directory) (names path)

end FileTree
end RecordSearch
