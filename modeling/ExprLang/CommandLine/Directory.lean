/-
  DIRECTORIES in memory: files under their paths, to run the command line without a disk.

  A path is walked from the working directory, part by part: `.` and empty parts stay where they
  are, `..` goes up, and a name goes into a file or directory of that name.  Only a directory can
  be gone through.  A path that ends in a directory, or outside the tree, has no contents.
-/
import ExprLang.CommandLine

namespace ExprLang.CommandLine

/-- A file with the names that lead to it. -/
structure StoredFile where
  path : List String
  contents : ByteArray

/-- The files below a working directory. -/
abbrev Directory := List StoredFile

/-- Where a walk has come to. -/
inductive Place where
  | outside
  | directory (path : List String)
  | file (f : StoredFile)

namespace Directory

/-- The parts of a path. -/
def partsOf (path : String) : List String := path.splitOn "/"

/-- What lies at some names below the working directory. -/
def placeAt? (files : Directory) (path : List String) : Option Place :=
  match files.find? (·.path = path) with
  | some f => some (.file f)
  | none => if files.any (path.isPrefixOf ·.path) then some (.directory path) else none

/-- Go one part further. -/
def step (files : Directory) (place : Place) (part : String) : Except FileError Place :=
  match place with
  | .file _ => .error .notADirectory
  | .outside => if part = "" ∨ part = "." ∨ part = ".." then .ok .outside else .error .notFound
  | .directory path =>
    if part = "" ∨ part = "." then .ok (.directory path)
    else if part = ".." then
      if path = [] then .ok .outside else .ok (.directory path.dropLast)
    else
      match files.placeAt? (path ++ [part]) with
      | some place => .ok place
      | none => .error .notFound

/-- Read the file at a path. -/
def read (files : Directory) (path : String) : Except FileError String :=
  if path = "" then .error .notFound
  else do
    let start := if path.startsWith "/" then Place.outside else .directory []
    match ← (partsOf path).foldlM files.step start with
    | .file f =>
      match String.fromUTF8? f.contents with
      | some text => pure text
      | none => throw .notText
    | _ => throw .isADirectory

end Directory
end ExprLang.CommandLine
