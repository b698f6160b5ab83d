/-
# Requests

What a call of the program asks for.  The items that its arguments stand for are taken in
order, and the first one that makes no sense, or that asks for help or for the version,
decides; a missing file is noticed only at the end.
-/
import ChomskyGrammar.CommandLine.Argument
import ChomskyGrammar.Generation.Word

namespace ChomskyGrammar

namespace CommandLine

/-- How the program is to run. -/
structure Settings where
  file : String
  words : List String
  /-- The start symbol, if it is not to be that of the file. -/
  start : Option Char
  showCharts : Bool
  showRules : Bool
  amount : Option Nat
  /-- The depth from which on random words are kept short. -/
  maxDepth : Nat
  seed : Option Nat
  verbosity : Nat
deriving DecidableEq, Repr

/-- What a call asks for. -/
inductive Request where
  | help
  | version
  /-- Nothing that makes sense. -/
  | misuse (e : UsageError)
  | run (s : Settings)
deriving DecidableEq, Repr

/-- What is known of a run while its arguments are read. -/
structure Draft where
  file : Option String
  /-- The words to test, last one first. -/
  wordsReversed : List String
  start : Option Char
  showCharts : Bool
  showRules : Bool
  amount : Option Nat
  /-- The depth from which on random words are kept short. -/
  maxDepth : Option Nat
  seed : Option Nat
  verbosity : Nat
deriving DecidableEq, Repr

namespace Draft

/-- The draft before any argument. -/
def empty : Draft := ⟨none, [], none, false, false, none, none, none, 0⟩

/-- The draft after an option without a value, unless that decides the request. -/
def withFlag (d : Draft) (o : OptionName) : Except Request Draft :=
  match o with
  | .help => .error .help
  | .version => .error .version
  | .verbose => .ok { d with verbosity := d.verbosity + 1 }
  | .table =>
    if d.showCharts then .error (.misuse (.repeated o)) else .ok { d with showCharts := true }
  | .grammar =>
    if d.showRules then .error (.misuse (.repeated o)) else .ok { d with showRules := true }
  | _ => .error (.misuse (.missingValue o))

/-- The draft after an option with its value, unless that decides the request. -/
def withSetting (d : Draft) (o : OptionName) (value : String) : Except Request Draft :=
  match o with
  | .start =>
    if d.start.isSome then .error (.misuse (.repeated o))
    else
      match readChar value with
      | some c => .ok { d with start := some c }
      | none => .error (.misuse (.badValue o value))
  | .generate =>
    if d.amount.isSome then .error (.misuse (.repeated o))
    else
      match (readAmount value).filter fun n => decide (n ≤ maxAmount) with
      | some n => .ok { d with amount := some n }
      | none => .error (.misuse (.badValue o value))
  | .maxDepth =>
    if d.maxDepth.isSome then .error (.misuse (.repeated o))
    else
      match (readUnsigned value).filter fun n => decide (n ≤ maxWide) with
      | some n => .ok { d with maxDepth := some n }
      | none => .error (.misuse (.badValue o value))
  | .seed =>
    if d.seed.isSome then .error (.misuse (.repeated o))
    else
      match (readUnsigned value).filter fun n => decide (n ≤ maxWide) with
      | some n => .ok { d with seed := some n }
      | none => .error (.misuse (.badValue o value))
  | _ => .error (.misuse (.unwantedValue o))

/-- The draft after a positional argument: the first is the file, the others are words. -/
def withPositional (d : Draft) (text : String) : Except Request Draft :=
  match d.file with
  | some _ => .ok { d with wordsReversed := text :: d.wordsReversed }
  | none =>
    if text.isEmpty then .error (.misuse .missingFile) else .ok { d with file := some text }

/-- The draft after an item, unless that decides the request. -/
def withItem (d : Draft) : Item → Except Request Draft
  | .flag o => d.withFlag o
  | .setting o value => d.withSetting o value
  | .positional text => d.withPositional text
  | .fault e => .error (.misuse e)

/-- The request that a draft amounts to when all arguments are read. -/
def finish (d : Draft) : Request :=
  match d.file with
  | none => .misuse .missingFile
  | some file =>
    .run ⟨file, d.wordsReversed.reverse, d.start, d.showCharts, d.showRules, d.amount,
      d.maxDepth.getD Generation.defaultMaxDepth, d.seed, d.verbosity⟩

/-- The request that a draft and the remaining items amount to. -/
def complete (d : Draft) : List Item → Request
  | [] => d.finish
  | item :: rest =>
    match d.withItem item with
    | .error request => request
    | .ok d' => d'.complete rest

end Draft

/-- The request that some arguments make. -/
def Request.ofArguments (args : List String) : Request :=
  Draft.empty.complete (Item.ofArguments args)

end CommandLine

end ChomskyGrammar
