/-!
# Paths

A path is a text of names with slashes between them.  Slashes at the end and names that are a
single dot say nothing, except at the beginning of a path.
-/

namespace JvmCoverage.Path

/-! ## Names -/

/-- The characters of a path without what says nothing at its end, last first. -/
def trimEnd : List Char → List Char
  | '/' :: rest => trimEnd rest
  | '.' :: '/' :: rest => trimEnd rest
  | reversed => reversed

/-- The last name in a path and what comes before it.  There is none in the root, and none when
the path ends with a dot or two dots. -/
def splitLast? (path : List Char) : Option (List Char × List Char) :=
  let reversed := trimEnd path.reverse
  let name := (reversed.takeWhile (· ≠ '/')).reverse
  if name = [] ∨ name = ['.'] ∨ name = ['.', '.'] then none
  else some (name, (reversed.dropWhile (· ≠ '/')).reverse)

/-- The part of a name before its extension, and the extension behind the last dot.  A dot at the
beginning of a name starts no extension. -/
def splitName (name : List Char) : List Char × Option (List Char) :=
  let reversed := name.reverse
  let extension := (reversed.takeWhile (· ≠ '.')).reverse
  match reversed.dropWhile (· ≠ '.') with
  | [] | ['.'] => (name, none)
  | _ :: stem => (stem.reverse, some extension)

/-- The extension of the last name in a path. -/
def extension? (path : String) : Option String :=
  (splitLast? path.toList).bind fun (name, _) => (splitName name).2.map String.ofList

/-- A path with everything behind the stem of its last name replaced by `extension`. -/
def setExtension (path extension : List Char) : List Char :=
  match splitLast? path with
  | some (name, before) => before ++ (splitName name).1 ++ '.' :: extension
  | none => path

/-- A path with the extension of its last name replaced by `extension`.  As many characters as
the old extension has are dropped from the end first, which matters when only dots are left. -/
def withExtension (path extension : String) : String :=
  let chars := path.toList
  let old := ((extension? path).map String.length).getD 0
  String.ofList (setExtension (chars.take (chars.length - old)) extension.toList)

/-- The path written to when none is given: that of the input with another extension. -/
def instrumented (input : String) : String :=
  withExtension input "instrumented.class"

/-- The path of `name` in a directory. -/
def join (directory name : String) : String :=
  if directory.endsWith "/" then directory ++ name else directory ++ "/" ++ name

/-- Whether a path is that of a class file. -/
def isClassFile (path : String) : Bool :=
  extension? path == some "class"

end JvmCoverage.Path
