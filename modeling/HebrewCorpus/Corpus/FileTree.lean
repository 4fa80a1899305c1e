import HebrewCorpus.Text.Encoding
import HebrewCorpus.Text.Order

/-! # File trees

The files of a corpus lie in directories below a common root.

* **`FileTree`**: the files with their bytes, and the directories that hold no file.
* **`FileTree.isDirectory`**, **`FileTree.occurs`**: what a path leads to.
* **`FileTree.below`**, **`FileTree.namesIn`**: the files below a directory, and the names in it.
* **`descend`**: the path that a written path leads to from a directory. -/

namespace HebrewCorpus

/-- **A path**: the names that lead from the root to a place, the outermost first. -/
abbrev Path := List Text

/-- **A tree of files.** A directory is there when it is listed or lies above a file or a listed
directory. -/
structure FileTree where
  /-- The name of the directory at the root. -/
  name : Text
  files : List (Path × ByteArray)
  directories : List Path

/-- The first name of a path that leads out of the tree; no file has it. -/
def outside : Text := ['/']

/-- **The path that a written path leads to from a directory.** One that starts with a stroke leads out
of the tree. Two points lead back, but only from a directory below the root. -/
def descend (base : Path) (written : Text) (isDirectory : Path → Bool := fun _ => true) : Path :=
  (Text.pieces '/' written).foldl (fun path name =>
    if name.isEmpty || name = ['.'] then path
    else if name = ['.', '.'] then
      if path ≠ [] ∧ isDirectory path then path.dropLast else [outside]
    else path ++ [name]) (if written.head? = some '/' then [outside] else base)

/-- The path written with a stroke before each name. -/
def writtenPath (path : Path) : Text := path.flatMap ('/' :: ·)

namespace FileTree

/-- The name of the directory that a file lies in. -/
def folderOf (t : FileTree) (path : Path) : Text := path.dropLast.getLast?.getD t.name

/-- The bytes of a file. -/
def bytes? (t : FileTree) (path : Path) : Option ByteArray := t.files.lookup path

/-- Whether a path leads to a directory. -/
def isDirectory (t : FileTree) (path : Path) : Bool :=
  t.files.any (fun f => path.isPrefixOf f.1 && path.length < f.1.length) ||
    t.directories.any path.isPrefixOf

/-- Whether a path leads to a file or a directory. -/
def occurs (t : FileTree) (path : Path) : Bool := (t.bytes? path).isSome || t.isDirectory path

/-- The paths of the files below a directory, in order. -/
def below (t : FileTree) (directory : Path) : List Path :=
  sortOrdered pathLe <| (t.files.map (·.1)).filter fun path =>
    directory.isPrefixOf path && directory.length < path.length

/-- The names of the files and directories in a directory, in order, each once. -/
def namesIn (t : FileTree) (directory : Path) : List Text :=
  let paths := t.files.map (·.1) ++ t.directories
  let names := paths.filterMap fun path =>
    if directory.isPrefixOf path then path[directory.length]? else none
  sortOrdered Text.le names.eraseDups

end FileTree

end HebrewCorpus
