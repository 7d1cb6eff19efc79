import JvmCoverage.Command.Error
import JvmCoverage.Ordered
import JvmCoverage.Text.Utf8

/-!
# Files

`Files m` is what commands ask of a file system, and `FileTree` is a file system in memory: files,
each under the list of names that leads to it from the root.  A directory is there as long as a
file is below it; the usual directories at the root and the working directory are always there.
-/

namespace JvmCoverage

/-- What commands ask of a file system. -/
structure Files (m : Type → Type) where
  /-- The content of a file. -/
  read : String → m (Except FileError (List UInt8))
  /-- Makes a file with the given content, or replaces its content. -/
  write : String → List UInt8 → m (Except FileError Unit)
  isDirectory : String → m Bool
  /-- The names in a directory. -/
  names : String → m (Except FileError (List String))

/-- The files of a file system, under the names that lead to them from the root. -/
abbrev FileTree := List (List String × List UInt8)

namespace FileTree

/-! ## What is always there -/

/-- The directory in which programs run.  It holds what a path without a slash in front names. -/
def workingDirectory : List String := ["home", "work"]

/-- The directories that are there with or without files. -/
def standing : List (List String) :=
  [workingDirectory, ["bin"], ["boot"], ["dev"], ["etc"], ["home"], ["lib"], ["media"], ["mnt"],
   ["opt"], ["proc"], ["root"], ["run"], ["sbin"], ["srv"], ["sys"], ["tmp"], ["usr"], ["var"]]

/-- The file that stays empty whatever is written to it. -/
def sink : List String := ["dev", "null"]

/-- The most bytes that a name may have. -/
def nameLimit : Nat := 255

/-- The number of bytes that every path stays below. -/
def pathLimit : Nat := 4096

/-! ## Files and directories by their names -/

/-- The order of lists of names. -/
def precedes (a b : List String) : Bool := a < b

/-- The content of the file at `names`. -/
def content? (tree : FileTree) (names : List String) : Option (List UInt8) :=
  if names = sink then some [] else Ordered.lookup names tree

/-- The tree with the given content at `names`. -/
def put (tree : FileTree) (names : List String) (bytes : List UInt8) : FileTree :=
  if names = sink then tree else Ordered.insert precedes names bytes tree

/-- The names of all files and of the directories that are always there. -/
def entries (tree : FileTree) : List (List String) :=
  tree.map Prod.fst ++ sink :: standing

/-- Whether there is a directory at `names`. -/
def hasDirectory (tree : FileTree) (names : List String) : Bool :=
  names.isEmpty || standing.contains names ||
    tree.entries.any fun entry => names.isPrefixOf entry && names != entry

/-- The names of the parts of a path. -/
def parts (path : String) : List String :=
  (path.splitOn "/").filter (· ≠ "")

/-- The tree with the given files, which have paths in the working directory. -/
def ofFiles (files : List (String × List UInt8)) : FileTree :=
  files.foldl (fun tree (path, bytes) =>
    tree.put (workingDirectory ++ (parts path).filter (· ≠ ".")) bytes) []

/-- The files in the working directory with their paths, in the order of their names. -/
def workingFiles (tree : FileTree) : List (String × List UInt8) :=
  (tree.filter fun file => workingDirectory.isPrefixOf file.1).map fun (names, bytes) =>
    ("/".intercalate (names.drop workingDirectory.length), bytes)

/-! ## Paths -/

/-- A place that a path leads to: a name in a directory. -/
structure Place where
  directory : List String
  name : String
  /-- Whether only a directory can be meant. -/
  isClosed : Bool

/-- What `name` in `directory` leads to. -/
def child (directory : List String) (name : String) : Except FileError (List String) :=
  if name = "." then .ok directory
  else if name = ".." then .ok directory.dropLast
  else if nameLimit < name.utf8ByteSize then .error .nameTooLong
  else .ok (directory ++ [name])

/-- The names of a place. -/
def Place.names (place : Place) : Except FileError (List String) :=
  child place.directory place.name

/-- The directory that `name` in `directory` leads to. -/
def enter (tree : FileTree) (directory : List String) (name : String) :
    Except FileError (List String) := do
  let names ← child directory name
  if tree.hasDirectory names then return names
  if (tree.content? names).isSome then throw .notDirectory
  throw .notFound

/-- The place that a path leads to.  All directories on the way have to be there. -/
def place (tree : FileTree) (path : String) : Except FileError Place := do
  if path.isEmpty then throw .notFound
  if pathLimit ≤ path.utf8ByteSize then throw .nameTooLong
  let start := if path.startsWith "/" then [] else workingDirectory
  let directory ← (parts path).dropLast.foldlM tree.enter start
  let name := (parts path).getLast?.getD "."
  return { directory, name, isClosed := path.endsWith "/" ∨ name = "." ∨ name = ".." }

/-! ## What commands ask -/

/-- The content of the file at a path. -/
def read (tree : FileTree) (path : String) : Except FileError (List UInt8) := do
  let place ← tree.place path
  let names ← place.names
  if tree.hasDirectory names then throw .isDirectory
  match tree.content? names with
  | some bytes => if place.isClosed then throw .notDirectory else return bytes
  | none => throw .notFound

/-- The tree with the given content at a path. -/
def write (tree : FileTree) (path : String) (bytes : List UInt8) : Except FileError FileTree := do
  let place ← tree.place path
  if place.isClosed then throw .isDirectory
  let names ← place.names
  if tree.hasDirectory names then throw .isDirectory
  return tree.put names bytes

/-- The names that a path leads to. -/
def resolve (tree : FileTree) (path : String) : Except FileError (List String) := do
  (← tree.place path).names

/-- Whether a path leads to a directory. -/
def isDirectory (tree : FileTree) (path : String) : Bool :=
  match tree.resolve path with
  | .ok names => tree.hasDirectory names
  | .error _ => false

/-- The names in the directory at a path. -/
def namesIn (tree : FileTree) (path : String) : Except FileError (List String) := do
  let names ← tree.resolve path
  return ((tree.entries.filter fun entry => names.isPrefixOf entry).filterMap fun entry =>
    entry[names.length]?).eraseDups

/-- The tree as a file system. -/
def files : Files (StateM FileTree) where
  read path := return (← get).read path
  write path bytes := do
    match (← get).write path bytes with
    | .ok tree => set tree; return .ok ()
    | .error e => return .error e
  isDirectory path := return (← get).isDirectory path
  names path := return (← get).namesIn path

end FileTree

end JvmCoverage
