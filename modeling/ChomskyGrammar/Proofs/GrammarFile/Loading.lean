/-
# What loading a text yields

A load ends in one of four ways (`result_loadText_cases`): with the faults of one of its three
stages, or with a grammar.  Two statements follow for all texts and paths:

* `loadText_succeeds_iff`: a text is loaded exactly if all its lines can be read, its statements
  are compatible, and the edits that they ask for succeed one after the other; the grammar is
  what these edits have built;
* `loadText_reports_faults`: a text that is not loaded has faults of exactly one stage, all of
  them, and no others, each at its line.
-/
import Mathlib.Data.List.Permutation
import Mathlib.Logic.ExistsUnique
import ChomskyGrammar.Proofs.GrammarFile.Editing

namespace ChomskyGrammar

namespace GrammarFile

/-- The edits that the lines of a text ask for, each with the number of its line: from the first
line to the last, and from left to right within a line. -/
def requestedEdits (text : String) : List (Nat × Edit) :=
  (numberedStatements text).flatMap fun l => l.statement.edits.map fun e => (l.number, e)

variable {text file : String} {g : Grammar} {faults : List LocatedFault}

lemma map_snd_requestedEdits (text : String) :
    (requestedEdits text).map Prod.snd = (statements text).flatMap Statement.edits := by
  have hsnd : ∀ l : Line, (l.statement.edits.map fun e => (l.number, e)).map Prod.snd =
      l.statement.edits := fun l => by
    rw [List.map_map]
    exact List.map_id _
  rw [requestedEdits, List.map_flatMap, ← map_statement_numberedStatements, List.flatMap_map]
  simp only [hsnd]

/-! ### The four ways in which a load ends -/

lemma result_loadLines (file : String) (source : List RawLine) :
    (loadLines file source).result =
      match readLines file 1 source with
      | (f :: fs, _) => .error (f :: fs)
      | ([], lines) => (loadStatements file lines).result := by
  rw [loadLines]
  split <;> simp_all

lemma result_loadStatements (file : String) (lines : List Line) :
    (loadStatements file lines).result =
      match statementFaults file false lines with
      | f :: fs => .error (f :: fs)
      | [] =>
        match applyEdits .empty (numberedEdits lines) with
        | (_, r :: rs) => .error (refusalFaults file (r :: rs))
        | (g, []) => .ok g := by
  rw [loadStatements]
  split
  · simp_all
  · split <;> simp_all

/-- Each stage is entered only if the ones before found no fault. -/
theorem result_loadText_cases (text file : String) :
    (garbles file text ≠ [] ∧ (loadText text file).result = .error (garbles file text)) ∨
    (garbles file text = [] ∧ statementFaults file false (numberedStatements text) ≠ [] ∧
      (loadText text file).result =
        .error (statementFaults file false (numberedStatements text))) ∨
    (garbles file text = [] ∧ statementFaults file false (numberedStatements text) = [] ∧
      refusals (requestedEdits text) ≠ [] ∧
      (loadText text file).result =
        .error (refusalFaults file (refusals (requestedEdits text)))) ∨
    (garbles file text = [] ∧ statementFaults file false (numberedStatements text) = [] ∧
      refusals (requestedEdits text) = [] ∧
      (loadText text file).result = .ok (Grammar.run ((requestedEdits text).map Prod.snd))) := by
  have hresult := result_loadLines file ((textLines text.toList).map .ok)
  rw [readLines_text] at hresult
  change (loadText text file).result = _ at hresult
  cases hgarbles : garbles file text with
  | cons f fs =>
    rw [hgarbles] at hresult
    exact .inl ⟨by simp, hresult⟩
  | nil =>
    rw [hgarbles] at hresult
    dsimp only at hresult
    rw [result_loadStatements] at hresult
    cases hfaults : statementFaults file false (numberedStatements text) with
    | cons f fs =>
      rw [hfaults] at hresult
      exact .inr (.inl ⟨rfl, by simp, hresult⟩)
    | nil =>
      have hedits : numberedEdits (numberedStatements text) = requestedEdits text := rfl
      rw [hfaults, hedits, applyEdits_eq] at hresult
      cases hrefusals : refusals (requestedEdits text) with
      | cons r rs =>
        rw [hrefusals] at hresult
        exact .inr (.inr (.inl ⟨rfl, rfl, by simp, hresult⟩))
      | nil =>
        rw [hrefusals] at hresult
        exact .inr (.inr (.inr ⟨rfl, rfl, rfl, hresult⟩))

/-- A text is loaded if no stage finds a fault. -/
lemma result_loadText_eq_ok_iff :
    (loadText text file).result = .ok g ↔
      garbles file text = [] ∧ statementFaults file false (numberedStatements text) = [] ∧
        refusals (requestedEdits text) = [] ∧
        Grammar.run ((requestedEdits text).map Prod.snd) = g := by
  rcases result_loadText_cases text file with ⟨hne, h⟩ | ⟨-, hne, h⟩ | ⟨-, -, hne, h⟩ |
    ⟨hgarbles, hfaults, hrefusals, h⟩
  · simp [h, hne]
  · simp [h, hne]
  · simp [h, hne]
  · simp [h, hgarbles, hfaults, hrefusals]

/-- A text is loaded if its lines can be read, its statements go together and its edits
succeed. -/
lemma result_loadText_eq_ok_iff_of_edits :
    (loadText text file).result = .ok g ↔
      Readable text ∧ Compatible (statements text) ∧
        ((statements text).flatMap Statement.edits).foldlM Grammar.edit .empty = .ok g := by
  rw [result_loadText_eq_ok_iff, garbles_eq_nil_iff, statementFaults_eq_nil_iff,
    map_statement_numberedStatements, ← foldlM_edit_eq_ok_iff, map_snd_requestedEdits]

/-! ### Texts that are loaded -/

/-- **Loading a text is making the edits that it asks for.**  A text is loaded exactly if every
line says nothing or makes a statement, the statements are compatible, and their edits, made in
order from the grammar that declares nothing, all succeed; the grammar is the one after these
edits.  So its start symbol is the one that the only choice in the text names, and it has none
if there is no choice. -/
theorem loadText_succeeds_iff (text file : String) (g : Grammar) :
    ((loadText text file).result = .ok g ↔
      (∀ line ∈ textLines text.toList, Vacant line ∨ ∃ s, Makes line s) ∧
        Compatible (statements text) ∧
        ((statements text).flatMap Statement.edits).foldlM Grammar.edit .empty = .ok g) ∧
    ((loadText text file).result = .ok g →
      choices (statements text) = g.start.toList.map fun a => [a.char]) := by
  refine ⟨result_loadText_eq_ok_iff_of_edits, fun h => ?_⟩
  obtain ⟨-, hcompatible, hedits⟩ := result_loadText_eq_ok_iff_of_edits.1 h
  exact hcompatible.choices_eq hedits

/-- A file for the grammar of brackets, with comments, a blank line and a carriage return. -/
def bracketsText : String :=
  "; balanced brackets\nnonterminals = S L R T\r\nterminals = l r\n\nstart = S\n" ++
    "L = l\nR=r\nS = LR\nT = SR\nS = LT | SS ; nested, or one after the other"

/-- The file is loaded as the grammar of brackets, and its only choice names the start symbol. -/
theorem loadText_succeeds_on_brackets :
    (loadText bracketsText "brackets.cnf").result = .ok Grammar.brackets ∧
      choices (statements bracketsText) = [['S']] := by
  have hload : (loadText bracketsText "brackets.cnf").result = .ok Grammar.brackets := by cbv
  have hchoices := (loadText_succeeds_iff bracketsText "brackets.cnf" _).2 hload
  rw [Grammar.start_brackets] at hchoices
  exact ⟨hload, hchoices⟩

/-! ### Texts that are not loaded -/

/-- The stages of a load. -/
inductive Stage where
  | reading
  | checking
  | editing

/-- What it takes for some faults to be the ones that a load stops with at a stage: the stages
before have nothing to find, this one has, and the faults are what it finds.

* A text that is not readable has one fault for each garbled line.
* Statements that are not compatible have one fault for each of them that offends.
* Edits have one fault for each that is refused, in order.  A refused edit is passed over, and
  the ones after it are judged as if it had not been asked for. -/
def Stage.StopsWith (text file : String) (faults : List LocatedFault) : Stage → Prop
  | reading => ¬Readable text ∧ OnePerLine file (GarbledAt text) faults
  | checking => Readable text ∧ ¬Compatible (statements text) ∧
      OnePerLine file (OffendsAt (numberedStatements text)) faults
  | editing => Readable text ∧ Compatible (statements text) ∧
      faults = (refusals (requestedEdits text)).map fun r => ⟨⟨file, r.1⟩, .grammar r.2⟩

/-- A load can stop at one stage only. -/
lemma Stage.stopsWith_unique {faults' : List LocatedFault} {stage stage' : Stage}
    (h : stage.StopsWith text file faults) (h' : stage'.StopsWith text file faults') :
    stage = stage' := by
  cases stage <;> cases stage' <;> simp_all [StopsWith]

/-- A load that fails stops at some stage. -/
lemma exists_stopsWith (h : (loadText text file).result = .error faults) :
    faults ≠ [] ∧ ∃ stage : Stage, stage.StopsWith text file faults := by
  have hcompatible : statementFaults file false (numberedStatements text) = [] ↔
      Compatible (statements text) := by
    rw [statementFaults_eq_nil_iff, map_statement_numberedStatements]
  rcases result_loadText_cases text file with ⟨hne, hresult⟩ | ⟨hread, hne, hresult⟩ |
    ⟨hread, hcheck, hne, hresult⟩ | ⟨-, -, -, hresult⟩
  · obtain rfl := Except.error.inj (hresult.symm.trans h)
    refine ⟨hne, .reading, fun hread => hne (garbles_eq_nil_iff.2 hread), ?_⟩
    exact onePerLine_garbles file text
  · obtain rfl := Except.error.inj (hresult.symm.trans h)
    refine ⟨hne, .checking, garbles_eq_nil_iff.1 hread, fun hc => hne (hcompatible.2 hc), ?_⟩
    exact onePerLine_statementFaults file (pairwise_numberedStatements text)
  · obtain rfl := Except.error.inj (hresult.symm.trans h)
    exact ⟨by simpa [refusalFaults] using hne, .editing, garbles_eq_nil_iff.1 hread,
      hcompatible.1 hcheck, rfl⟩
  · exact absurd (hresult.symm.trans h) (by simp)

/-! ### Where the faults are -/

/-- Whether a line number is one of a text. -/
def IsLineNumber (text : String) (n : Nat) : Prop :=
  1 ≤ n ∧ n ≤ (textLines text.toList).length

lemma pairwise_requestedEdits (text : String) :
    (requestedEdits text).Pairwise fun e e' => e.1 ≤ e'.1 := by
  refine List.pairwise_flatMap.2 ⟨fun l _ => ?_, (pairwise_numberedStatements text).imp ?_⟩
  · exact List.pairwise_map.2 (List.pairwise_iff_getElem.2 fun _ _ _ _ _ => Nat.le_refl l.number)
  · intro l m hlm e he e' he'
    obtain ⟨_, -, rfl⟩ := List.mem_map.1 he
    obtain ⟨_, -, rfl⟩ := List.mem_map.1 he'
    exact Nat.le_of_lt hlm

lemma isLineNumber_of_mem_requestedEdits {e : Nat × Edit} (h : e ∈ requestedEdits text) :
    IsLineNumber text e.1 := by
  obtain ⟨l, hl, he⟩ := List.mem_flatMap.1 h
  obtain ⟨_, -, rfl⟩ := List.mem_map.1 he
  exact line_bounds hl

/-- A refusal has the line number of its edit. -/
lemma exists_edit_of_mem_refusals {es : List (Nat × Edit)} {r : Nat × GrammarError}
    (h : r ∈ refusals es) : ∃ e ∈ es, e.1 = r.1 := by
  obtain ⟨e, he, hr⟩ := List.mem_filterMap.1 h
  obtain ⟨refusal, -, rfl⟩ := Option.map_eq_some_iff.1 hr
  exact ⟨e.1, List.fst_mem_of_mem_zipIdx he, rfl⟩

lemma pairwise_refusals {es : List (Nat × Edit)} (h : es.Pairwise fun e e' => e.1 ≤ e'.1) :
    (refusals es).Pairwise fun r r' => r.1 ≤ r'.1 := by
  have hzip : es.zipIdx.Pairwise fun e e' => e.1.1 ≤ e'.1.1 := by
    rw [← List.zipIdx_map_fst 0 es, List.pairwise_map] at h
    exact h
  refine List.pairwise_filterMap.2 (hzip.imp ?_)
  intro e e' hle r hr r' hr'
  obtain ⟨_, -, rfl⟩ := Option.map_eq_some_iff.1 hr
  obtain ⟨_, -, rfl⟩ := Option.map_eq_some_iff.1 hr'
  exact hle

/-- Every fault of a load that stops is at a line of the text. -/
lemma Stage.StopsWith.location {stage : Stage} (h : stage.StopsWith text file faults) :
    ∀ f ∈ faults, f.location.file = file ∧ IsLineNumber text f.location.line := by
  intro f hf
  cases stage with
  | reading =>
    obtain ⟨hfile, line, hline, -⟩ := (h.2.mem_iff f).1 hf
    exact ⟨hfile, number_bounds hline⟩
  | checking =>
    obtain ⟨hfile, earlier, l, later, hlines, hnumber, -⟩ := (h.2.2.mem_iff f).1 hf
    have hl : l ∈ numberedStatements text := by simp [hlines]
    exact ⟨hfile, hnumber ▸ line_bounds hl⟩
  | editing =>
    obtain ⟨-, -, rfl⟩ := h
    obtain ⟨r, hr, rfl⟩ := List.mem_map.1 hf
    obtain ⟨e, he, hnumber⟩ := exists_edit_of_mem_refusals hr
    exact ⟨rfl, hnumber ▸ isLineNumber_of_mem_requestedEdits he⟩

/-- The faults of a load that stops are in the order of the lines. -/
lemma Stage.StopsWith.pairwise {stage : Stage} (h : stage.StopsWith text file faults) :
    faults.Pairwise fun f f' => f.location.line ≤ f'.location.line := by
  cases stage with
  | reading => exact h.2.ascending.imp Nat.le_of_lt
  | checking => exact h.2.2.ascending.imp Nat.le_of_lt
  | editing =>
    obtain ⟨-, -, rfl⟩ := h
    exact List.pairwise_map.2 (pairwise_refusals (pairwise_requestedEdits text))

/-- **A failed load reports the faults of one stage, and all of them.**  There is at least one
fault, every fault carries the path and the number of a line of the text, and the numbers never
go down.  Exactly one stage stops with these faults. -/
theorem loadText_reports_faults (h : (loadText text file).result = .error faults) :
    faults ≠ [] ∧
      (∀ f ∈ faults, f.location.file = file ∧ 1 ≤ f.location.line ∧
        f.location.line ≤ (textLines text.toList).length) ∧
      (faults.Pairwise fun f f' => f.location.line ≤ f'.location.line) ∧
      ∃! stage : Stage, stage.StopsWith text file faults := by
  obtain ⟨hne, stage, hstage⟩ := exists_stopsWith h
  refine ⟨hne, hstage.location, hstage.pairwise, stage, hstage, ?_⟩
  intro stage' hstage'
  exact Stage.stopsWith_unique hstage' hstage

/-- A file in which a rule is refused on line 4, and on line 5 another one that needs it. -/
def cascadeText : String := "nonterminals = S A\nterminals = a\nstart = S\nA = b\nS = a | AA\n"

/-- Both refusals are reported, and no other stage has anything to report. -/
theorem loadText_reports_cascade :
    ∃ faults, (loadText cascadeText "cascade.cnf").result = .error faults ∧
      faults.map (fun f => (f.location.line, f.fault)) =
        [(4, .grammar (.undefinedInBody 'b')), (5, .grammar (.undefinedInBody 'A'))] ∧
      ∃! stage : Stage, stage.StopsWith cascadeText "cascade.cnf" faults := by
  have hload : (loadText cascadeText "cascade.cnf").result = .error
      [⟨⟨"cascade.cnf", 4⟩, .grammar (.undefinedInBody 'b')⟩,
        ⟨⟨"cascade.cnf", 5⟩, .grammar (.undefinedInBody 'A')⟩] := by cbv
  exact ⟨_, hload, rfl, (loadText_reports_faults hload).2.2.2⟩

end GrammarFile

end ChomskyGrammar
