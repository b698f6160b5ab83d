/-
# Runs

What a call of the program prints and how it ends, as a function of its request, of what
comes of reading the grammar file, and of a random source for the case that no seed is asked for.

A run loads its file and sets the start symbol; if either fails, nothing else happens.
Then it prints the rules, tests the words and makes random words, as asked.  A word that
cannot be tested does not stop the run, but makes it fail in the end with one line per
such word.  A random word that cannot be made stops it at once.

A run whose file has no end does not come to an end itself (`Request.outcome?`).

Two things about the log depend on more than the call.  A record is shown with the time at which
it was made, which is left out here.  And which records are shown can also be chosen by an
environment variable, which then decides alone; here it is taken not to be set.
-/
import ChomskyGrammar.CommandLine.Request
import ChomskyGrammar.GrammarFile.Loader
import ChomskyGrammar.Recognition.Query

namespace ChomskyGrammar

namespace CommandLine

/-- The name of the program, as it appears in its log and its texts. -/
def programName : String := "cyk"

/-- The version of the program. -/
def programVersion : String := "0.1.0"

/-- How a run ends. -/
inductive Ending where
  | done
  /-- The run failed, for the reason given. -/
  | failed (reason : String)
  /-- The run broke down, for the reason given. -/
  | aborted (reason : String)
deriving DecidableEq, Repr

namespace Ending

/-- The exit code. -/
def code : Ending → Nat
  | done => 0
  | failed _ => 1
  | aborted _ => 101

/-- What is printed at the end on the error stream. -/
def text : Ending → String
  | done => ""
  | failed reason => reason ++ "\n"
  | aborted reason => reason ++ "\n"

end Ending

/-- What a run yields. -/
structure Report where
  /-- The records that it logs. -/
  log : List LogRecord
  output : String
  ending : Ending
deriving DecidableEq, Repr

/-- A word as it is shown; the empty word has a sign of its own. -/
def shownWord (word : String) : String := if word.isEmpty then "ε" else word

/-- The record of the test of a word. -/
def checkingRecord (word : String) : LogRecord :=
  ⟨.debug, programName, "Checking `" ++ word ++ "`"⟩

/-- What the test of a word prints, or the line that says why it cannot be tested. -/
def testWord (g : Grammar) (showChart : Bool) (word : String) : Except String String :=
  match g.membership word with
  | .error e => .error (shownWord word ++ ": " ++ e.message)
  | .ok (derived, chart) =>
    .ok (shownWord word ++ (if derived then ": derived\n" else ": not derived\n") ++
      (if showChart then chart.text else ""))

/-- The values among some results. -/
def successes {ε α : Type} (rs : List (Except ε α)) : List α :=
  rs.filterMap fun r =>
    match r with
    | .ok a => some a
    | .error _ => none

/-- The errors among some results. -/
def failures {ε α : Type} (rs : List (Except ε α)) : List ε :=
  rs.filterMap fun r =>
    match r with
    | .ok _ => none
    | .error e => some e

/-- The grammar with the start symbol that was asked for, if one was. -/
def withStart (g : Grammar) : Option Char → Except GrammarError Grammar
  | none => .ok g
  | some c => g.setStart c

/-- The ending of a run that has got to its end, given the lines about words that could
not be tested. -/
def endingOfFailures (lines : List String) : Ending :=
  if lines.isEmpty then .done else .failed ("\n".intercalate lines)

/-- The random source of a run: the one that the seed determines, or if none is asked for, any
fresh one. -/
def Settings.source (s : Settings) (fresh : Source) : Source :=
  match s.seed with
  | some seed => .seeded (UInt64.ofNat seed)
  | none => fresh

/-- The random words that a run makes. -/
def Settings.randomWords (s : Settings) (g : Grammar) (fresh : Source) : Generation.Batch :=
  match s.amount with
  | none => ⟨[], none, s.source fresh⟩
  | some n => Generation.batch (g.generate s.maxDepth) n (s.source fresh)

/-- What a run does once it has its grammar. -/
def Settings.reportOn (s : Settings) (g : Grammar) (fresh : Source) : Report :=
  let rules := if s.showRules then g.dump ++ "\n" else ""
  let tests := s.words.map (testWord g s.showCharts)
  let made := s.randomWords g fresh
  { log := s.words.map checkingRecord
    output := rules ++ String.join (successes tests) ++
      String.join (made.words.map fun w => w ++ "\n")
    ending := match made.failure with
      -- The lines about words are told only if all random words could be made.
      | none => endingOfFailures (failures tests)
      | some .overflow => .aborted GenerationError.overflow.message
      | some e => .failed e.message }

/-- What a run yields once it has loaded its file. -/
def Settings.reportAfter (s : Settings) (load : Load) (fresh : Source) : Report :=
  match load.result with
  | .error faults =>
    ⟨load.log, "", .failed ("\n".intercalate (faults.map LocatedFault.text))⟩
  | .ok g =>
    match withStart g s.start with
    | .error e => ⟨load.log, "", .failed e.message⟩
    | .ok g' =>
      let rest := s.reportOn g' fresh
      { rest with log := load.log ++ rest.log }

/-- What a run yields if the load of its file ends. -/
def Settings.report (s : Settings) (reading : FileReading) (fresh : Source) : Report :=
  s.reportAfter (GrammarFile.loadFile s.file reading) fresh

/-! ### Output -/

/-- The least level of the records that are shown, unless the environment says otherwise. -/
def shownLevel (verbosity : Nat) : LogLevel :=
  match verbosity with
  | 0 => .warn
  | 1 => .info
  | _ => .debug

/-- A text in which every line but the first is indented. -/
def indented (text : String) : String :=
  String.ofList (text.toList.flatMap fun c => if c = '\n' then "\n    ".toList else [c])

/-- The line of a record, without its time: its level, five characters wide, its target and its
message. -/
def recordLine (r : LogRecord) : String :=
  let level := r.level.name ++ String.ofList (List.replicate (5 - r.level.name.length) ' ')
  "[" ++ level ++ " " ++ r.target ++ "] " ++ indented r.message ++ "\n"

/-- The lines of the records of at least some level. -/
def logText (least : LogLevel) (log : List LogRecord) : String :=
  String.join ((log.filter fun r => decide (least.rank ≤ r.level.rank)).map recordLine)

/-- What a call does to the world outside. -/
structure Outcome where
  code : Nat
  stdout : String
  stderr : String
deriving DecidableEq, Repr

/-- The exit code of a call that makes no sense. -/
def misuseCode : Nat := 2

/-- How to call the program. -/
def usage : String :=
  "Usage: " ++ programName ++ " [OPTIONS] <FILE> [WORDS]...\n\n" ++
  "  -s, --start <SYMBOL>     Start symbol\n" ++
  "  -t, --table              Print the derivation table of every word\n" ++
  "  -g, --grammar            Print the productions of the grammar\n" ++
  "  -n, --generate <AMOUNT>  Amount of random words to generate\n" ++
  "      --max-depth <DEPTH>  Depth after which generated words are kept short\n" ++
  "      --seed <SEED>        Seed for word generation\n" ++
  "  -v, --verbose            Log more, repeat for even more\n" ++
  "  -h, --help               Print help\n" ++
  "  -V, --version            Print version\n"

/-- The outcome of a run that has loaded its file. -/
def Settings.outcome (s : Settings) (load : Load) (fresh : Source) : Outcome :=
  let r := s.reportAfter load fresh
  ⟨r.ending.code, r.output, logText (shownLevel s.verbosity) r.log ++ r.ending.text⟩

namespace Request

/-- The file that a request needs to be read. -/
def file? : Request → Option String
  | run s => some s.file
  | _ => none

/-- The outcome of a call, given what comes of reading its file and a random source for the case
that no seed is asked for.  There is none if the load of the file has no end. -/
def outcome? (r : Request) (reading : FileReading) (fresh : Source) : Option Outcome :=
  match r with
  | help => some ⟨0, usage, ""⟩
  | version => some ⟨0, programName ++ " " ++ programVersion ++ "\n", ""⟩
  | misuse e => some ⟨misuseCode, "", "error: " ++ e.message ++ "\n\n" ++ usage⟩
  | run s => (GrammarFile.loadFile? s.file reading).map fun load => s.outcome load fresh

/-- The outcome of a call that comes to an end.  Of one without end this says nothing. -/
def outcome (r : Request) (reading : FileReading) (fresh : Source) : Outcome :=
  (r.outcome? reading fresh).getD ⟨0, "", ""⟩

end Request

end CommandLine

end ChomskyGrammar
