/-
# Reading a file line by line

A file is opened, and then attempts are made to read a line, until one of them finds that there
are no more.  An attempt may also fail, which does not end the reading: the next attempt is made
all the same.  So a file of which no line can ever be read has no end.  A directory is such a
file: it can be opened, and then every attempt meets the same problem.
-/
import ChomskyGrammar.GrammarFile.ReadProblem
import ChomskyGrammar.Text.Pieces

namespace ChomskyGrammar

namespace GrammarFile

/-- The characters of a line, or the problem that keeps it from being read. -/
abbrev RawLine := Except ReadProblem (List Char)

/-- The characters of a line of bytes. -/
def decodeLine (bs : List UInt8) : RawLine :=
  match String.fromUTF8? ⟨bs.toArray⟩ with
  | some s => .ok s.toList
  | none => .error .notText

/-- The lines of some bytes. -/
def rawLines (bytes : ByteArray) : List RawLine := (byteLines bytes.data.toList).map decodeLine

/-- What attempts to read a line give, by their number: a line, a problem, or nothing at the end
of the file. -/
abbrev Attempts := Nat → Option RawLine

/-- The number of the first attempt, from number `n` on, that finds the end of the file.  There is
no result if none does. -/
def Attempts.endFrom? (attempts : Attempts) (n : Nat) : Option Nat :=
  match attempts n with
  | none => some n
  | some _ => attempts |>.endFrom? (n + 1)
partial_fixpoint

/-- The lines of a file, given what attempts to read them give.  There is no result if there is no
end to them. -/
def Attempts.lines? (attempts : Attempts) : Option (List RawLine) :=
  (attempts.endFrom? 0).map fun n => (List.range n).filterMap attempts

end GrammarFile

open GrammarFile (Attempts rawLines)

/-- What comes of opening a file and reading it. -/
inductive FileReading where
  /-- The file cannot be opened. -/
  | error (problem : ReadProblem)
  /-- The file is opened, and attempts are made to read its lines. -/
  | opened (attempts : Attempts)

namespace FileReading

/-- The file is opened and holds some bytes. -/
def ok (bytes : ByteArray) : FileReading :=
  let lines := (rawLines bytes).toArray
  .opened fun n => lines[n]?

/-- The file is opened, but every attempt to read a line meets the same problem. -/
def unreadable (problem : ReadProblem) : FileReading := .opened fun _ => some (.error problem)

/-- Whether the reading comes to an end: the file cannot be opened, or some attempt to read a line
finds none left. -/
def Ends : FileReading → Prop
  | .error _ => True
  | .opened attempts => ∃ n, attempts n = none

end FileReading

end ChomskyGrammar
