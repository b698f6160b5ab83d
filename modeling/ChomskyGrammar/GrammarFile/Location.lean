/-
# Places in grammar files

A fault is pinned to a line of a file, or to the file as a whole.  Two locations are the
same if they have the same line and their paths lead through the same components: empty
components and `.` lead nowhere, so they do not count, except that a path that starts with
`.` says so on purpose.  Nothing is looked up, so `..` is a component like any other.
-/
import ChomskyGrammar.GrammarFile.Fault
import ChomskyGrammar.Text.Pieces

namespace ChomskyGrammar

/-- The components of a path. -/
structure PathComponents where
  /-- Whether the path starts at the root. -/
  absolute : Bool
  /-- The components that count, in order. -/
  names : List (List Char)
deriving DecidableEq, Repr

namespace PathComponents

/-- Whether a piece of a path is an ordinary component, neither empty nor `.`. -/
def isName (piece : List Char) : Bool := decide (piece ≠ []) && decide (piece ≠ ['.'])

/-- The components of a path, whose pieces are separated by `/`.  A `.` counts only as the
first piece of a relative path. -/
def ofPath (path : String) : PathComponents :=
  match pieces '/' path.toList with
  | ['.'] :: rest => ⟨false, ['.'] :: rest.filter isName⟩
  | [] :: (p :: rest) => ⟨true, (p :: rest).filter isName⟩
  | ps => ⟨false, ps.filter isName⟩

end PathComponents

/-- A line of a file, or a whole file. -/
structure Location where
  /-- The path of the file.  It is a text; a path whose bytes are not one has no location here. -/
  file : String
  /-- The number of the line, starting from 1; 0 stands for the whole file. -/
  line : Nat
deriving DecidableEq, Repr

namespace Location

/-- The text of a location: `file:line`, or only the file. -/
def text (l : Location) : String :=
  if l.line = 0 then l.file else l.file ++ ":" ++ toString l.line

/-- Whether two locations are the same line of the same path. -/
def same (l m : Location) : Bool :=
  decide (l.line = m.line) &&
    decide (PathComponents.ofPath l.file = PathComponents.ofPath m.file)

end Location

/-- A fault and the place where it was found. -/
structure LocatedFault where
  location : Location
  fault : Fault
deriving DecidableEq, Repr

namespace LocatedFault

/-- The fault as it is shown on a terminal: its location in bold red, and its message. -/
def text (f : LocatedFault) : String :=
  "\x1b[31;49;1m[" ++ f.location.text ++ "]\x1b[39;49;1m  " ++ f.fault.message ++ "\x1b[0m"

/-- Whether two located faults say the same of the same place. -/
def same (f g : LocatedFault) : Bool :=
  f.location.same g.location && f.fault.same g.fault

end LocatedFault

end ChomskyGrammar
