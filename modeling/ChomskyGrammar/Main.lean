/-
# The program

Reads the arguments and the grammar file, and prints what the call yields.
-/
import ChomskyGrammar.CommandLine.Run

namespace ChomskyGrammar

namespace CommandLine

/-- The code and the description that an error of the system comes with. -/
def systemError? : IO.Error → Option (UInt32 × String)
  | .alreadyExists _ code description
  | .otherError code description
  | .resourceBusy code description
  | .resourceVanished code description
  | .unsupportedOperation code description
  | .hardwareFault code description
  | .unsatisfiedConstraints code description
  | .illegalOperation code description
  | .protocolError code description
  | .timeExpired code description
  | .interrupted _ code description
  | .noFileOrDirectory _ code description
  | .invalidArgument _ code description
  | .permissionDenied _ code description
  | .resourceExhausted _ code description
  | .inappropriateType _ code description
  | .noSuchThing _ code description => some (code, description)
  | .unexpectedEof | .userError _ => none

/-- The problem that an error amounts to. -/
def readProblem (e : IO.Error) : ReadProblem :=
  match systemError? e, e with
  | some (code, description), _ => .ofCode code.toNat description
  | none, .unexpectedEof => ⟨.unexpectedEof, "unexpected end of file"⟩
  | none, _ => ⟨.other, toString e⟩

/-- Opens a file and reads it.  If it can be opened but not read, then this is so for ever. -/
def readFile (file : String) : IO FileReading := do
  match ← (IO.FS.Handle.mk file .read).toBaseIO with
  | .error e => return .error (readProblem e)
  | .ok handle =>
    match ← handle.readBinToEnd.toBaseIO with
    | .error e => return .unreadable (readProblem e)
    | .ok bytes => return .ok bytes

/-- A source that differs from run to run. -/
def freshSource : IO Source := do
  let bytes ← IO.getRandomBytes 8
  return .seeded (bytes.foldl (fun n b => n * 256 + b.toUInt64) 0)

end CommandLine

end ChomskyGrammar

/-- Answers one call of the program. -/
def main (args : List String) : IO UInt32 := do
  let request := ChomskyGrammar.CommandLine.Request.ofArguments args
  let reading ← match request.file? with
    | some file => ChomskyGrammar.CommandLine.readFile file
    | none => pure (.error .missing)
  let outcome := request.outcome reading (← ChomskyGrammar.CommandLine.freshSource)
  IO.print outcome.stdout
  IO.eprint outcome.stderr
  return UInt32.ofNat outcome.code
