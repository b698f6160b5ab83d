/-
# Directories in memory

A directory that is given by its files, and what a path leads to in it.  A path is
followed piece by piece, and stops with the problem that it meets first.  The directory
has a place in a larger tree, which a path can enter by `..` or by starting with `/`.  Of
that tree only the directories above are taken to exist, so there a path meets nothing
but directories as long as it names none.  A path that leads to a directory can be opened, but
not read.
-/
import ChomskyGrammar.GrammarFile.FileReading
import ChomskyGrammar.GrammarFile.Location

namespace ChomskyGrammar

/-- A directory given by its files, each with the components of its path. -/
structure Directory where
  files : List (List (List Char) × ByteArray)

namespace Directory

/-- Where a path has led so far. -/
inductive Place where
  /-- To the place in the directory that some components lead to. -/
  | inside (names : List (List Char))
  /-- To a directory above. -/
  | outside
deriving DecidableEq, Repr

/-- The directory of some files with their paths. -/
def ofList (files : List (String × ByteArray)) : Directory :=
  ⟨files.map fun f => ((PathComponents.ofPath f.1).names.filter PathComponents.isName, f.2)⟩

/-- The bytes of the file at a place, if there is one. -/
def file? (d : Directory) : Place → Option ByteArray
  | .inside names => d.files.lookup names
  | .outside => none

/-- Whether a place is a directory.  Inside, that is the whole one, or one on the way to a
file. -/
def isDirectory (d : Directory) : Place → Bool
  | .inside names =>
    names.isEmpty || d.files.any fun f => names.isPrefixOf f.1 && decide (f.1 ≠ names)
  | .outside => true

/-- The place above. -/
def parent : Place → Place
  | .inside [] => .outside
  | .inside names => .inside names.dropLast
  | .outside => .outside

/-- The place that a name stands for at a given place, if anything there has that name. -/
def child? (d : Directory) (place : Place) (name : List Char) : Option Place :=
  match place with
  | .outside => none
  | .inside names =>
    let next := Place.inside (names ++ [name])
    if (d.file? next).isSome || d.isDirectory next then some next else none

/-- The longest name that a file may have, in bytes. -/
def maxNameLength : Nat := 255

/-- The longest path that can be followed, in bytes. -/
def maxPathLength : Nat := 4095

/-- The place that some pieces of a path lead to from a given place. -/
def follow (d : Directory) (place : Place) : List (List Char) → Except ReadProblem Place
  | [] => .ok place
  | p :: ps =>
    -- Even an empty piece, as after a final `/`, asks for a directory.
    if !d.isDirectory place then .error .notADirectory
    else if p = [] ∨ p = ['.'] then d.follow place ps
    else if p = ['.', '.'] then d.follow (parent place) ps
    else if maxNameLength < (String.ofList p).utf8ByteSize then .error .nameTooLong
    else
      match d.child? place p with
      | some next => d.follow next ps
      | none => .error .missing

/-- What comes of opening and reading what a path leads to.  Whether a path can be followed at
all is found out before any of its pieces is looked at. -/
def read (d : Directory) (path : String) : FileReading :=
  if '\x00' ∈ path.toList then .error .nulInName
  else if path.isEmpty then .error .missing
  else if maxPathLength < path.utf8ByteSize then .error .nameTooLong
  else
    let start := if (PathComponents.ofPath path).absolute then .outside else .inside []
    match d.follow start (pieces '/' path.toList) with
    | .error problem => .error problem
    | .ok place =>
      match d.file? place with
      | some bytes => .ok bytes
      | none => .unreadable .isADirectory

end Directory

end ChomskyGrammar
