/-
# What a run reports

A run works with one grammar, if with any: the one of its file, with the start symbol that the
run asks for (`Settings.InForce`).  What it reports about each word depends on the grammar and the
word alone.  The word gets its `verdict` if the question about it is answered, and a `complaint?`
if it is refused; and it is refused only for a letter that is not declared, or for want of a start
symbol or of rules (`complaint?_eq_none_iff`).

A run has an outcome exactly if the reading of its file has an end (`outcome?_run`,
`outcome?_run_of_not_ends`).
-/
import ChomskyGrammar.CommandLine.Run
import ChomskyGrammar.Proofs.GrammarFile.Bytes
import ChomskyGrammar.Proofs.GrammarFile.RoundTrip
import ChomskyGrammar.Proofs.Recognition.Refusals

namespace ChomskyGrammar

namespace CommandLine

/-! ### Words -/

/-- What a run prints about a word: whether it is derived and, if wanted, its chart.  It is nothing
if the question is refused. -/
def verdict (g : Grammar) (showCharts : Bool) (word : String) : String :=
  match g.derives word, g.chartText word with
  | .ok derived, .ok chart =>
    shownWord word ++ (if derived then ": derived\n" else ": not derived\n") ++
      (if showCharts then chart else "")
  | _, _ => ""

/-- What a run says about a word if the question is refused. -/
def complaint? (g : Grammar) (word : String) : Option String :=
  match g.derives word with
  | .error e => some (shownWord word ++ ": " ++ e.message)
  | .ok _ => none

variable {g : Grammar}

/-- The test of a word ends with its verdict or its complaint. -/
lemma testWord_eq (g : Grammar) (showCharts : Bool) (word : String) :
    testWord g showCharts word =
      match complaint? g word with
      | some line => .error line
      | none => .ok (verdict g showCharts word) := by
  rw [testWord, complaint?, verdict, Grammar.derives, Grammar.chartText, Grammar.chart,
    Grammar.membership]
  cases g.startAndChart word <;> rfl

lemma verdict_eq_empty {showCharts : Bool} {word line : String}
    (h : complaint? g word = some line) : verdict g showCharts word = "" := by
  rw [complaint?] at h
  rw [verdict]
  cases hd : g.derives word with
  | error e => rfl
  | ok derived =>
    rw [hd] at h
    exact absurd h (by simp)

/-- The tests of some words print their verdicts, one after the other. -/
lemma join_successes (g : Grammar) (showCharts : Bool) (words : List String) :
    String.join (successes (words.map (testWord g showCharts))) =
      String.join (words.map (verdict g showCharts)) := by
  induction words with
  | nil => rfl
  | cons word words ih =>
    rw [successes] at ih ⊢
    rw [List.map_cons, List.map_cons, List.filterMap_cons, testWord_eq, String.join_cons, ← ih]
    cases h : complaint? g word with
    | none => rw [String.join_cons]
    | some line => rw [verdict_eq_empty h, String.empty_append]

lemma failures_eq (g : Grammar) (showCharts : Bool) (words : List String) :
    failures (words.map (testWord g showCharts)) = words.filterMap (complaint? g) := by
  rw [failures, List.filterMap_map]
  refine List.filterMap_congr fun word _ => ?_
  rw [Function.comp, testWord_eq]
  cases complaint? g word <;> rfl

/-- The question about a word is refused only for a character that is not a declared letter, or
for want of a start symbol or of rules. -/
theorem complaint?_eq_none_iff (hg : g.WellFormed) {word : String} :
    complaint? g word = none ↔ (∀ c ∈ word.toList, ∃ t ∈ g.terminals, t.char = c) ∧
      (∃ a, g.start = some a) ∧ 0 < g.ruleCount := by
  refine Iff.trans ?_ hg.exists_startAndChart_iff
  rw [complaint?, Grammar.derives, Grammar.membership]
  cases g.startAndChart word <;> simp [Except.map]

/-! ### The grammar of a run -/

/-- Whether a grammar is the one that a run works with: the file is loaded, and if the run asks for
a start symbol, it is a declared nonterminal and stands in place of the one of the file. -/
def Settings.InForce (s : Settings) (reading : FileReading) (g : Grammar) : Prop :=
  ∃ loaded, (GrammarFile.loadFile s.file reading).result = .ok loaded ∧
    (s.start = none → g = loaded) ∧
    ∀ c, s.start = some c → ∃ a ∈ loaded.nonterminals, a.char = c ∧
      g = { loaded with start := some a }

variable {s : Settings} {reading : FileReading} {fresh : Source}

lemma inForce_iff :
    s.InForce reading g ↔ ∃ loaded, (GrammarFile.loadFile s.file reading).result = .ok loaded ∧
      withStart loaded s.start = .ok g := by
  rw [Settings.InForce]
  refine exists_congr fun loaded => and_congr_right fun _ => ?_
  cases s.start with
  | none => simp [withStart, eq_comm]
  | some c =>
    rw [withStart, Grammar.setStart_eq_ok_iff]
    constructor
    · rintro ⟨-, h⟩
      obtain ⟨a, hmem, hchar, hg⟩ := h c rfl
      exact ⟨a, hchar, hmem, hg⟩
    · rintro ⟨a, hchar, hmem, hg⟩
      refine ⟨by simp, fun c' hc' => ⟨a, hmem, ?_, hg⟩⟩
      rw [hchar, Option.some.inj hc']

/-- A run works with a well-formed grammar. -/
lemma Settings.InForce.wellFormed (h : s.InForce reading g) : g.WellFormed := by
  obtain ⟨loaded, hload, hstart⟩ := inForce_iff.1 h
  have hloaded : loaded.WellFormed := by
    obtain ⟨source, hlines⟩ := GrammarFile.exists_lines_of_loadFile hload
    exact (GrammarFile.reachable_of_loadLines hlines).wellFormed
  cases hs : s.start with
  | none =>
    rw [hs] at hstart
    obtain rfl := Except.ok.inj hstart
    exact hloaded
  | some c =>
    rw [hs] at hstart
    have hedit : loaded.edit (.setStart c) = .ok g := hstart
    exact hloaded.edit hedit

/-! ### The outcome and the report -/

/-- A run has an outcome if the reading of its file has an end. -/
lemma outcome?_run (h : reading.Ends) (s : Settings) (fresh : Source) :
    (Request.run s).outcome? reading fresh =
      some (s.outcome (GrammarFile.loadFile s.file reading) fresh) := by
  rw [Request.outcome?, GrammarFile.loadFile?_eq_some h, Option.map_some]

/-- A run has no outcome if the reading of its file has no end. -/
lemma outcome?_run_of_not_ends (h : ¬reading.Ends) (s : Settings) (fresh : Source) :
    (Request.run s).outcome? reading fresh = none := by
  rw [Request.outcome?, GrammarFile.loadFile?_eq_none_iff.2 h, Option.map_none]

/-- The file of a run with a grammar has an end. -/
lemma Settings.InForce.ends (h : s.InForce reading g) : reading.Ends := by
  obtain ⟨loaded, hload, -⟩ := h
  exact GrammarFile.ends_of_loadFile hload

/-- A run that has its grammar reports on it, after the records of the load. -/
lemma report_of_inForce (h : s.InForce reading g) (fresh : Source) :
    (s.report reading fresh).output = (s.reportOn g fresh).output ∧
      (s.report reading fresh).ending = (s.reportOn g fresh).ending := by
  obtain ⟨loaded, hload, hstart⟩ := inForce_iff.1 h
  simp only [Settings.report, Settings.reportAfter, hload, hstart, and_self]

/-- A run without a grammar prints nothing and fails. -/
lemma report_of_not_inForce (h : ∀ g, ¬s.InForce reading g) (fresh : Source) :
    (s.report reading fresh).output = "" ∧
      ∃ reason, (s.report reading fresh).ending = .failed reason := by
  cases hload : (GrammarFile.loadFile s.file reading).result with
  | error faults => simp [Settings.report, Settings.reportAfter, hload]
  | ok loaded =>
    cases hstart : withStart loaded s.start with
    | error e => simp [Settings.report, Settings.reportAfter, hload, hstart]
    | ok g => exact absurd (inForce_iff.2 ⟨loaded, hload, hstart⟩) (h g)

end CommandLine

end ChomskyGrammar
