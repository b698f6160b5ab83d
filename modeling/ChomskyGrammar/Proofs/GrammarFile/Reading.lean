/-
# Reading the lines of a text

A line says nothing (`Vacant`), makes a statement (`Makes`), or is garbled (`Garbled`), and only
one of the three.  The first stage of a load finds the statements of a text (`numberedStatements`)
and one fault for each of its garbled lines (`readLines_text`, `onePerLine_garbles`), whatever comes
before and after a line.
-/
import Mathlib.Logic.Basic
import ChomskyGrammar.GrammarFile.Loader
import ChomskyGrammar.Proofs.GrammarFile.Tokens

namespace ChomskyGrammar

namespace GrammarFile

/-! ### One fault for each faulty line -/

/-- Whether some faults are those of the faulty lines of a file, one for each of these lines and
from the first to the last.  What is wrong with which line is given. -/
structure OnePerLine (file : String) (wrong : Nat → Fault → Prop)
    (faults : List LocatedFault) : Prop where
  mem_iff : ∀ f, f ∈ faults ↔ f.location.file = file ∧ wrong f.location.line f.fault
  ascending : faults.Pairwise fun f f' => f.location.line < f'.location.line

/-- The faults of elements with ascending line numbers are one for each line. -/
lemma OnePerLine.filterMap {γ : Type} {ls : List γ} (file : String) (number : γ → Nat)
    (fault? : γ → Option Fault) (h : ls.Pairwise fun l m => number l < number m) :
    OnePerLine file (fun n fault => ∃ l ∈ ls, number l = n ∧ fault? l = some fault)
      (ls.filterMap fun l => (fault? l).map fun fault => ⟨⟨file, number l⟩, fault⟩) where
  mem_iff f := by
    simp only [List.mem_filterMap, Option.map_eq_some_iff]
    constructor
    · rintro ⟨l, hl, fault, hfault, rfl⟩
      exact ⟨rfl, l, hl, rfl, hfault⟩
    · rintro ⟨rfl, l, hl, hnumber, hfault⟩
      exact ⟨l, hl, f.fault, hfault, by rw [hnumber]⟩
  ascending := by
    refine List.pairwise_filterMap.2 (h.imp ?_)
    intro l m hlm f hf f' hf'
    obtain ⟨fault, -, rfl⟩ := Option.map_eq_some_iff.1 hf
    obtain ⟨fault', -, rfl⟩ := Option.map_eq_some_iff.1 hf'
    exact hlm

/-! ### What a line says -/

/-- Whether a line makes a statement. -/
def Makes (line : List Char) (s : Statement) : Prop :=
  Statement.ofTokens (Token.ofChars line) = .ok s

/-- Whether a line says something that is no statement, and what is wrong with it. -/
def Garbled (line : List Char) (fault : Fault) : Prop :=
  ¬Vacant line ∧ Statement.ofTokens (Token.ofChars line) = .error fault

/-- The statement that a line makes, if it makes one. -/
def statement? (line : List Char) : Option Statement :=
  (Statement.ofTokens (Token.ofChars line)).toOption

/-- What is wrong with a line, if it is garbled. -/
def garble? (line : List Char) : Option Fault :=
  match Token.ofChars line, Statement.ofTokens (Token.ofChars line) with
  | _ :: _, .error fault => some fault
  | _, _ => none

variable {line : List Char} {s : Statement} {fault : Fault}

lemma statement?_eq_some_iff : statement? line = some s ↔ Makes line s := by
  rw [statement?, Makes]
  cases Statement.ofTokens (Token.ofChars line) with
  | error e => simp [Except.toOption]
  | ok s' => simp [Except.toOption]

lemma garble?_eq_some_iff : garble? line = some fault ↔ Garbled line fault := by
  rw [garble?, Garbled, ← Token.ofChars_eq_nil_iff]
  cases Token.ofChars line with
  | nil => simp
  | cons t ts =>
    cases Statement.ofTokens (t :: ts) with
    | error e => simp
    | ok s => simp

/-- A line is garbled if it neither says nothing nor makes a statement. -/
lemma exists_garbled_iff :
    (∃ fault, Garbled line fault) ↔ ¬(Vacant line ∨ ∃ s, Makes line s) := by
  simp only [Garbled, Makes]
  cases Statement.ofTokens (Token.ofChars line) with
  | error e => simp
  | ok s => simp

/-! ### The lines of a text -/

/-- The lines of a text with their numbers, starting from 1. -/
def numberedLines (text : String) : List (List Char × Nat) := (textLines text.toList).zipIdx 1

/-- The statements that the lines of a text make, from the first line to the last. -/
def statements (text : String) : List Statement := (textLines text.toList).filterMap statement?

/-- The statements of a text with the numbers of their lines. -/
def numberedStatements (text : String) : List Line :=
  (numberedLines text).filterMap fun l => (statement? l.1).map (Line.mk l.2)

/-- Whether every line of a text says nothing or makes a statement. -/
def Readable (text : String) : Prop :=
  ∀ line ∈ textLines text.toList, Vacant line ∨ ∃ s, Makes line s

/-- Whether a text has a garbled line with some number, and what is wrong with it. -/
def GarbledAt (text : String) (number : Nat) (fault : Fault) : Prop :=
  ∃ line, (line, number) ∈ numberedLines text ∧ Garbled line fault

/-- The faults of the garbled lines of a text. -/
def garbles (file text : String) : List LocatedFault :=
  (numberedLines text).filterMap fun l => (garble? l.1).map fun fault => ⟨⟨file, l.2⟩, fault⟩

variable {text file : String}

lemma pairwise_zipIdx {α : Type} (xs : List α) (k : Nat) :
    (xs.zipIdx k).Pairwise fun x y => x.2 < y.2 := by
  induction xs generalizing k with
  | nil => exact List.Pairwise.nil
  | cons x xs ih =>
    exact List.pairwise_cons.2 ⟨fun _ hy => List.le_snd_of_mem_zipIdx hy, ih (k + 1)⟩

/-- The numbers of the lines of a text go from 1 to the number of its lines. -/
lemma number_bounds {l : List Char × Nat} (h : l ∈ numberedLines text) :
    1 ≤ l.2 ∧ l.2 ≤ (textLines text.toList).length := by
  have hle := List.le_snd_of_mem_zipIdx h
  have hlt := List.snd_lt_add_of_mem_zipIdx h
  omega

lemma line_bounds {l : Line} (h : l ∈ numberedStatements text) :
    1 ≤ l.number ∧ l.number ≤ (textLines text.toList).length := by
  obtain ⟨m, hm, hl⟩ := List.mem_filterMap.1 h
  obtain ⟨s, -, rfl⟩ := Option.map_eq_some_iff.1 hl
  exact number_bounds hm

lemma pairwise_numberedStatements (text : String) :
    (numberedStatements text).Pairwise fun l m => l.number < m.number := by
  refine List.pairwise_filterMap.2 ((pairwise_zipIdx _ 1).imp ?_)
  intro l m hlm l' hl' m' hm'
  obtain ⟨s, -, rfl⟩ := Option.map_eq_some_iff.1 hl'
  obtain ⟨s', -, rfl⟩ := Option.map_eq_some_iff.1 hm'
  exact hlm

lemma map_statement_numberedStatements (text : String) :
    (numberedStatements text).map (fun l => l.statement) = statements text := by
  have hmap : statements text = (numberedLines text).filterMap fun l => statement? l.1 := by
    rw [statements, ← List.zipIdx_map_fst 1 (textLines text.toList), List.filterMap_map]
    rfl
  rw [hmap, numberedStatements, List.map_filterMap]
  refine congrArg (fun f => (numberedLines text).filterMap f) (funext fun l => ?_)
  rw [Option.map_map]
  exact Option.map_id'

/-- Every garbled line has one fault. -/
theorem onePerLine_garbles (file text : String) :
    OnePerLine file (GarbledAt text) (garbles file text) := by
  have h := OnePerLine.filterMap file Prod.snd (fun l => garble? l.1)
    (pairwise_zipIdx (textLines text.toList) 1)
  refine ⟨fun f => (h.mem_iff f).trans (and_congr_right fun _ => ?_), h.ascending⟩
  simp only [GarbledAt, garble?_eq_some_iff]
  constructor
  · rintro ⟨l, hl, hnumber, hgarbled⟩
    exact ⟨l.1, hnumber ▸ hl, hgarbled⟩
  · rintro ⟨line, hl, hgarbled⟩
    exact ⟨_, hl, rfl, hgarbled⟩

lemma garbles_eq_nil_iff : garbles file text = [] ↔ Readable text := by
  have hnone : ∀ line, garble? line = none ↔ Vacant line ∨ ∃ s, Makes line s := by
    intro line
    rw [← not_iff_not, ← exists_garbled_iff, ← ne_eq, Option.ne_none_iff_exists']
    exact exists_congr fun fault => garble?_eq_some_iff
  simp only [garbles, List.filterMap_eq_nil_iff, Option.map_eq_none_iff, Readable, hnone]
  constructor
  · intro h line hline
    rw [← List.zipIdx_map_fst 1 (textLines text.toList), List.mem_map] at hline
    obtain ⟨l, hl, rfl⟩ := hline
    exact h l hl
  · intro h l hl
    exact h l.1 (List.fst_mem_of_mem_zipIdx hl)

/-! ### The first stage of a load -/

/-- The fault of a numbered line, if it has one. -/
def lineFault? (file : String) (l : RawLine × Nat) : Option LocatedFault :=
  match readLine file l.2 l.1 with
  | .error fault => some fault
  | .ok _ => none

/-- The statement of a numbered line, if it makes one. -/
def lineStatement? (file : String) (l : RawLine × Nat) : Option Line :=
  match readLine file l.2 l.1 with
  | .error _ => none
  | .ok line => line

/-- The faults and the statements are found line by line. -/
lemma readLines_eq (file : String) (n : Nat) (ls : List RawLine) :
    readLines file n ls =
      ((ls.zipIdx n).filterMap (lineFault? file),
        (ls.zipIdx n).filterMap (lineStatement? file)) := by
  induction ls generalizing n with
  | nil => rfl
  | cons l ls ih =>
    rw [readLines, ih, List.zipIdx_cons, List.filterMap_cons, List.filterMap_cons, lineFault?,
      lineStatement?]
    cases readLine file n l with
    | error fault => rfl
    | ok line =>
      cases line with
      | none => rfl
      | some line => rfl

lemma lineFault?_ok (file : String) (l : List Char × Nat) :
    lineFault? file (.ok l.1, l.2) = (garble? l.1).map fun fault => ⟨⟨file, l.2⟩, fault⟩ := by
  rw [lineFault?, readLine, garble?]
  cases Token.ofChars l.1 with
  | nil => rfl
  | cons t ts => cases h : Statement.ofTokens (t :: ts) <;> simp [h]

lemma lineStatement?_ok (file : String) (l : List Char × Nat) :
    lineStatement? file (.ok l.1, l.2) = (statement? l.1).map (Line.mk l.2) := by
  rw [lineStatement?, readLine, statement?]
  cases Token.ofChars l.1 with
  | nil => rfl
  | cons t ts => cases h : Statement.ofTokens (t :: ts) <;> simp [h, Except.toOption]

/-- The first stage finds the faults of the garbled lines of a text, and its statements. -/
theorem readLines_text (file text : String) :
    readLines file 1 ((textLines text.toList).map .ok) =
      (garbles file text, numberedStatements text) := by
  rw [readLines_eq, List.zipIdx_map, List.filterMap_map, List.filterMap_map, garbles,
    numberedStatements]
  refine Prod.ext ?_ ?_
  · exact congrArg (fun f => (numberedLines text).filterMap f) (funext (lineFault?_ok file))
  · exact congrArg (fun f => (numberedLines text).filterMap f) (funext (lineStatement?_ok file))

end GrammarFile

end ChomskyGrammar
