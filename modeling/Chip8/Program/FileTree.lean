/-!
# File trees

A tree of directories and files around the current directory, and what a path
leads to in it. Of what lies outside the current directory nothing is known but
that it is a directory. Looking a path up changes nothing.
-/
namespace Chip8

/-- Directories and files by the names on the way to them from the current
directory. With a directory, those on the way to it are in the tree too. -/
structure FileTree where
  directories : List (List String)
  files : List (List String × Array UInt8)

namespace FileTree

inductive PathError where
  | notFound
  | isDirectory
  | notDirectory
  | nameTooLong
  deriving Repr, DecidableEq

/-- The names in a path; empty names are dropped. -/
def names (path : String) : List String :=
  ((path.toList.splitOn '/').map String.ofList).filter (· != "")

/-- The names that lead to an entry, without those that stay in place. -/
def key (path : String) : List String := (names path).filter (· != ".")

/-- A tree from the paths of its directories and files. -/
def ofEntries (directories : List String) (files : List (String × Array UInt8)) : FileTree where
  directories := directories.map key
  files := files.map fun (path, bytes) => (key path, bytes)

/-- A place in the tree, or somewhere outside the current directory. -/
inductive Place where
  | inside (way : List String)
  | outside
  deriving Repr, DecidableEq

inductive Node where
  | directory (place : Place)
  | file (bytes : Array UInt8)

/-- The longest name, in bytes. -/
def maxName : Nat := 255

/-- The longest path, in bytes. -/
def maxPath : Nat := 4095

def parent : Place → Place
  | .inside [] => .outside
  | .inside way => .inside way.dropLast
  | .outside => .outside

/-- What a name leads to from a directory. -/
def enter (t : FileTree) (place : Place) (name : String) : Except PathError Node :=
  if name = "." then pure (.directory place)
  else if name = ".." then pure (.directory (parent place))
  else if maxName < name.utf8ByteSize then throw .nameTooLong
  else
    match place with
    | .outside => throw .notFound
    | .inside way =>
        let way := way ++ [name]
        match t.files.lookup way with
        | some bytes => pure (.file bytes)
        | none =>
            if t.directories.any way.isPrefixOf then pure (.directory (.inside way))
            else throw .notFound

/-- Follows names one after another; only a directory can be entered. -/
def follow (t : FileTree) : Node → List String → Except PathError Node
  | node, [] => pure node
  | .file _, _ :: _ => throw .notDirectory
  | .directory place, name :: rest => do t.follow (← t.enter place name) rest

/-- What a path leads to. A path that ends in a slash leads to a directory only. -/
def resolve (t : FileTree) (path : String) : Except PathError Node := do
  if path = "" then throw .notFound
  if maxPath < path.utf8ByteSize then throw .nameTooLong
  let start := Node.directory (if path.startsWith "/" then .outside else .inside [])
  let node ← t.follow start (names path)
  match node with
  | .file _ => if path.endsWith "/" then throw .notDirectory else pure node
  | .directory _ => pure node

def content (t : FileTree) (path : String) : Except PathError (Array UInt8) := do
  match ← t.resolve path with
  | .file bytes => pure bytes
  | .directory _ => throw .isDirectory

end FileTree
end Chip8
