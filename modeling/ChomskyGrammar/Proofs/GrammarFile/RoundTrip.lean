/-
# Grammars that are written are loaded back

A grammar is written as a file that declares its symbols, chooses its start symbol and then
gives its rules, one on a line (`grammarStatements`).  No letter of either case is a blank or a
mark of the format, so the statements of the file are read back.  They are compatible, and they
ask for just the edits that build the grammar, as long as the rules come in an admissible order.
So every reachable grammar is loaded from such files, and a load that succeeds yields nothing
else (`written_grammars_are_loaded`).
-/
import ChomskyGrammar.Proofs.Grammar.RuleOrder
import ChomskyGrammar.Proofs.GrammarFile.Loading
import ChomskyGrammar.Proofs.GrammarFile.Writing

namespace ChomskyGrammar

/-- The statement that gives a single rule. -/
def Statement.ofRule (r : Rule) : Statement := .rules r.head.char [r.body.text]

namespace GrammarFile

open Statement (Writable)
open Token (isWordChar)

/-- A line for some symbols, left out if there are none. -/
def lineFor (make : List Char → Statement) (symbols : List Char) : List Statement :=
  if symbols = [] then [] else [make symbols]

/-- The statements of a file for a grammar: its symbols, its start symbol and its rules. -/
def grammarStatements (nonterminals : List Nonterminal) (terminals : List Terminal)
    (start : Option Nonterminal) (order : List Rule) : List Statement :=
  lineFor .nonterminals (nonterminals.map fun a => a.char) ++
    (lineFor .terminals (terminals.map fun t => t.char) ++
      (lineFor .start (start.toList.map fun a => a.char) ++ order.map .ofRule))

/-- The text of a file for a grammar. -/
def grammarText (nonterminals : List Nonterminal) (terminals : List Terminal)
    (start : Option Nonterminal) (order : List Rule) : String :=
  fileText (grammarStatements nonterminals terminals start order)

variable {nonterminals : List Nonterminal} {terminals : List Terminal}
  {start : Option Nonterminal} {order : List Rule} {g : Grammar}

lemma mem_lineFor {make : List Char → Statement} {symbols : List Char} {s : Statement} :
    s ∈ lineFor make symbols ↔ symbols ≠ [] ∧ s = make symbols := by
  rw [lineFor]
  split <;> simp_all

lemma mem_grammarStatements {s : Statement} :
    s ∈ grammarStatements nonterminals terminals start order ↔
      (nonterminals ≠ [] ∧ s = .nonterminals (nonterminals.map fun a => a.char)) ∨
      (terminals ≠ [] ∧ s = .terminals (terminals.map fun t => t.char)) ∨
      (start.toList ≠ [] ∧ s = .start (start.toList.map fun a => a.char)) ∨
      ∃ r ∈ order, s = .ofRule r := by
  simp only [grammarStatements, List.mem_append, mem_lineFor, List.mem_map, ne_eq,
    List.map_eq_nil_iff, @eq_comm _ s]

/-! ### The lines can be read back -/

lemma writable_ofRule (r : Rule) : (Statement.ofRule r).Writable := by
  refine Statement.writable_rules (Token.isWordChar_of_isUppercase r.head.uppercase) (by simp) ?_
  intro b hb
  obtain rfl := List.mem_singleton.1 hb
  cases r.body with
  | binary b c =>
    simp [Body.text, Body.chars, Token.Proper, Token.isWordChar_of_isUppercase, b.uppercase,
      c.uppercase]
  | unit t =>
    simp [Body.text, Body.chars, Token.Proper, Token.isWordChar_of_isLowercase, t.lowercase]

lemma writable_grammarStatements :
    ∀ s ∈ grammarStatements nonterminals terminals start order, s.Writable := by
  have huppercase : ∀ as : List Nonterminal, ∀ c ∈ as.map (fun a => a.char),
      isWordChar c = true := by
    intro as c hc
    obtain ⟨a, -, rfl⟩ := List.mem_map.1 hc
    exact Token.isWordChar_of_isUppercase a.uppercase
  have hlowercase : ∀ c ∈ terminals.map (fun t => t.char), isWordChar c = true := by
    intro c hc
    obtain ⟨t, -, rfl⟩ := List.mem_map.1 hc
    exact Token.isWordChar_of_isLowercase t.lowercase
  intro s hs
  rcases mem_grammarStatements.1 hs with ⟨-, rfl⟩ | ⟨-, rfl⟩ | ⟨-, rfl⟩ | ⟨r, -, rfl⟩
  · exact Statement.writable_of_symbols (.inl rfl) (huppercase nonterminals)
  · exact Statement.writable_of_symbols (.inr (.inl rfl)) hlowercase
  · exact Statement.writable_of_symbols (.inr (.inr rfl)) (huppercase start.toList)
  · exact writable_ofRule r

/-! ### What the lines ask for -/

lemma choices_grammarStatements :
    choices (grammarStatements nonterminals terminals start order) =
      start.toList.map fun a => [a.char] := by
  have hnone : ∀ ss, (∀ symbols, .start symbols ∉ ss) → choices ss = [] := fun ss h =>
    List.eq_nil_iff_forall_not_mem.2 fun symbols hs => h symbols (mem_choices.1 hs)
  have hstart : choices (lineFor .start (start.toList.map fun a => a.char)) =
      start.toList.map fun a => [a.char] := by
    cases start <;> rfl
  rw [grammarStatements, choices, List.filterMap_append, List.filterMap_append,
    List.filterMap_append]
  show choices _ ++ (choices _ ++ (choices _ ++ choices _)) = _
  rw [hstart, hnone _ (by simp [mem_lineFor]), hnone _ (by simp [mem_lineFor]),
    hnone (order.map .ofRule) (by simp [Statement.ofRule])]
  simp

lemma compatible_grammarStatements :
    Compatible (grammarStatements nonterminals terminals start order) where
  nonterminals_ne := by simp [mem_grammarStatements, Statement.ofRule]
  terminals_ne := by simp [mem_grammarStatements, Statement.ofRule]
  start_unique := by
    rw [choices_grammarStatements]
    cases start <;> simp
  start_single symbols h := by
    rw [choices_grammarStatements] at h
    obtain ⟨a, -, rfl⟩ := List.mem_map.1 h
    rfl

/-- The edits of a line are those of its symbols, also if it is left out. -/
lemma flatMap_edits_lineFor {make : List Char → Statement} {edit : Char → Edit}
    (h : ∀ symbols, (make symbols).edits = symbols.map edit) (symbols : List Char) :
    (lineFor make symbols).flatMap Statement.edits = symbols.map edit := by
  rw [lineFor]
  split
  · rename_i hnil
    rw [hnil]
    rfl
  · rw [List.flatMap_singleton, h]

/-- The statements of a written grammar ask for the edits that build it. -/
lemma flatMap_edits_grammarStatements :
    (grammarStatements nonterminals terminals start order).flatMap Statement.edits =
      Grammar.buildingEdits nonterminals terminals start order := by
  have hrules : (order.map Statement.ofRule).flatMap Statement.edits =
      order.map Grammar.additionOf := by
    rw [List.flatMap_map, List.map_eq_flatMap]
    rfl
  rw [grammarStatements, List.flatMap_append, List.flatMap_append, List.flatMap_append,
    flatMap_edits_lineFor fun _ => rfl, flatMap_edits_lineFor fun _ => rfl,
    flatMap_edits_lineFor fun _ => rfl, hrules, List.map_map, List.map_map, List.map_map]
  rfl

/-! ### Grammars that can be loaded -/

/-- A written grammar is loaded back if its rules come in an admissible order. -/
theorem loadText_grammarText (file : String) (hg : g.WellFormed)
    (hnonterminals : nonterminals.Perm g.nonterminals.toList)
    (hterminals : terminals.Perm g.terminals.toList) (horder : order.Perm g.rules.toList)
    (hadmissible : Admissible order) :
    (loadText (grammarText nonterminals terminals g.start order) file).result = .ok g := by
  rw [result_loadText_eq_ok_iff_of_edits, grammarText,
    statements_fileText writable_grammarStatements, flatMap_edits_grammarStatements]
  exact ⟨readable_fileText writable_grammarStatements, compatible_grammarStatements,
    hg.foldlM_buildingEdits hnonterminals hterminals horder hadmissible⟩

/-- A grammar that is loaded is reachable, by the edits that the lines ask for. -/
lemma reachable_of_loadLines {file : String} {source : List RawLine}
    (h : (loadLines file source).result = .ok g) : g.Reachable := by
  rw [result_loadLines] at h
  split at h
  · exact absurd h (by simp)
  · rename_i lines _
    rw [result_loadStatements, applyEdits_eq] at h
    split at h
    · exact absurd h (by simp)
    · split at h
      · exact absurd h (by simp)
      · rename_i happly
        obtain rfl := Except.ok.inj h
        exact ⟨_, (Prod.mk.inj happly).1⟩

/-- **The grammars that can be loaded are the reachable ones.**  The rules of a reachable grammar
have an admissible order, and a file that declares the symbols in any order and gives the rules
in any admissible one is loaded as this grammar. -/
theorem written_grammars_are_loaded (g : Grammar) (file : String) :
    (g.Reachable →
      (∃ order : List Rule, order.Perm g.rules.toList ∧ Admissible order) ∧
      ∀ (nonterminals : List Nonterminal) (terminals : List Terminal) (order : List Rule),
        nonterminals.Perm g.nonterminals.toList → terminals.Perm g.terminals.toList →
        order.Perm g.rules.toList → Admissible order →
        (loadText (grammarText nonterminals terminals g.start order) file).result = .ok g) ∧
    ((∃ text, (loadText text file).result = .ok g) ↔ g.Reachable) := by
  refine ⟨fun hg => ⟨hg.wellFormed.exists_perm_admissible, ?_⟩, ?_, ?_⟩
  · intro nonterminals terminals order
    exact loadText_grammarText file hg.wellFormed
  · rintro ⟨text, h⟩
    exact reachable_of_loadLines h
  · intro hg
    obtain ⟨order, horder, hadmissible⟩ := hg.wellFormed.exists_perm_admissible
    exact ⟨_, loadText_grammarText file hg.wellFormed (.refl _) (.refl _) horder hadmissible⟩

/-- The rules of the grammar of brackets, those for single letters first. -/
def bracketsOrder : List Rule :=
  let s : Nonterminal := ⟨'S', Eq.refl true⟩
  let l : Nonterminal := ⟨'L', Eq.refl true⟩
  let r : Nonterminal := ⟨'R', Eq.refl true⟩
  let t : Nonterminal := ⟨'T', Eq.refl true⟩
  [⟨r, .unit ⟨'r', Eq.refl true⟩⟩, ⟨l, .unit ⟨'l', Eq.refl true⟩⟩, ⟨s, .binary l r⟩,
    ⟨s, .binary s s⟩, ⟨t, .binary s r⟩, ⟨s, .binary l t⟩]

/-- The grammar of brackets is loaded from a file that gives a rule for `S` before one that the
rule for `T` needs. -/
theorem written_brackets_are_loaded :
    Grammar.brackets.Reachable ∧ bracketsOrder.Perm Grammar.brackets.rules.toList ∧
      Admissible bracketsOrder ∧
      (loadText ("nonterminals = L R S T\nterminals = l r\n" ++
        "start = S\nR = r\nL = l\nS = LR\nS = SS\nT = SR\nS = LT\n") "brackets.cnf").result =
          .ok Grammar.brackets := by
  have htext : grammarText Grammar.brackets.nonterminals.toList Grammar.brackets.terminals.toList
      Grammar.brackets.start bracketsOrder = "nonterminals = L R S T\nterminals = l r\n" ++
        "start = S\nR = r\nL = l\nS = LR\nS = SS\nT = SR\nS = LT\n" := by decide
  have hperm : bracketsOrder.Perm Grammar.brackets.rules.toList := by decide
  have hadmissible : Admissible bracketsOrder := by decide
  obtain ⟨-, hload⟩ :=
    (written_grammars_are_loaded Grammar.brackets "brackets.cnf").1 Grammar.reachable_brackets
  refine ⟨Grammar.reachable_brackets, hperm, hadmissible, ?_⟩
  rw [← htext]
  exact hload _ _ bracketsOrder (.refl _) (.refl _) hperm hadmissible

end GrammarFile

end ChomskyGrammar
