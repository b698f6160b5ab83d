/-
# The text of a grammar determines its rules

The text of a grammar has one line for each nonterminal with rules, as `A::=BC|a`.  It can be
read back without knowing the grammar (`readDump?`): it is cut into lines, a line at `::=`, and
what follows at the bars.  This works because no letter is a separator, and because a body of one
character cannot be taken for a body of two.  What is read is canonical, that is, in an order that
depends on the rules only; so the text is a normal form of the rules.  Main statements:

* `readDump?_dump`: the rows that are read from the text are those that it was written from;
* `canonical_rows`: these rows are in ascending order and hold every rule once;
* `dump_is_faithful_and_canonical`: both together, and what they say of two grammars.
-/
import Mathlib.Data.List.Lex
import Mathlib.Data.List.Nodup
import Mathlib.Data.String.Basic
import ChomskyGrammar.Grammar.Dump
import ChomskyGrammar.Proofs.Grammar.RuleOrder
import ChomskyGrammar.Proofs.Text.Lines

namespace ChomskyGrammar

/-! ### Reading -/

/-- Cuts a list at the first occurrence of a separator, which can have several elements. -/
def splitOnce? {α : Type} [BEq α] (sep : List α) : List α → Option (List α × List α)
  | [] => if sep.isPrefixOf [] then some ([], []) else none
  | x :: xs =>
    if sep.isPrefixOf (x :: xs) then some ([], (x :: xs).drop sep.length)
    else (splitOnce? sep xs).map fun p => (x :: p.1, p.2)

/-- The body that some characters stand for: one lowercase letter, or two uppercase ones. -/
def Body.ofChars? : List Char → Option Body
  | [c] => (Terminal.ofChar? c).map unit
  | [l, r] => do
    let b ← Nonterminal.ofChar? l
    let c ← Nonterminal.ofChar? r
    return binary b c
  | _ => none

/-- A nonterminal and the bodies that are listed for it. -/
structure RuleRow where
  head : Nonterminal
  bodies : List Body
deriving DecidableEq

/-- The row that a line stands for: a nonterminal, `::=`, and bodies with bars between them. -/
def RuleRow.read? (line : List Char) : Option RuleRow :=
  match splitOnce? [':', ':', '='] line with
  | some ([c], rest) => do
    let a ← Nonterminal.ofChar? c
    let bodies ← (pieces '|' rest).mapM Body.ofChars?
    return ⟨a, bodies⟩
  | _ => none

/-- The rows that the lines of a text stand for.  The empty text has no lines. -/
def readDump? (text : String) : Option (List RuleRow) :=
  if text = "" then some [] else (pieces '\n' text.toList).mapM RuleRow.read?

/-! ### Order -/

/-- The order of the bodies on a line: pairs come before letters, pairs are ordered by their left
and then their right symbol, and all symbols by their characters. -/
def Body.Precedes : Body → Body → Prop
  | binary l r, binary l' r' => l.char < l'.char ∨ l.char = l'.char ∧ r.char < r'.char
  | binary _ _, unit _ => True
  | unit _, binary _ _ => False
  | unit t, unit t' => t.char < t'.char

/-- Rows that hold the rules of a grammar in an order which only depends on these rules. -/
structure Grammar.Canonical (g : Grammar) (rows : List RuleRow) : Prop where
  /-- The heads are strictly ascending, so there is at most one row for each. -/
  heads_ascending : rows.Pairwise fun row row' => row.head.char < row'.head.char
  /-- There is no row for a nonterminal without rules. -/
  bodies_ne : ∀ row ∈ rows, row.bodies ≠ []
  /-- The bodies of a row are strictly ascending. -/
  bodies_ascending : ∀ row ∈ rows, row.bodies.Pairwise Body.Precedes
  /-- No body is listed twice in a row. -/
  bodies_nodup : ∀ row ∈ rows, row.bodies.Nodup
  /-- The rows hold the rules of the grammar, and nothing else. -/
  mem_rules_iff : ∀ a b, (⟨a, b⟩ : Rule) ∈ g.rules ↔ ∃ row ∈ rows, row.head = a ∧ b ∈ row.bodies
  /-- As many bodies are listed as there are rules. -/
  count : (rows.flatMap fun row => row.bodies).length = g.ruleCount

namespace Body

lemma ofChars?_chars (b : Body) : ofChars? b.chars = some b := by
  cases b <;> simp [chars, ofChars?]

/-- No body is written with a character that is no letter. -/
lemma not_mem_chars {c : Char} (hupper : isUppercase c = false) (hlower : isLowercase c = false)
    (b : Body) : c ∉ b.chars := by
  cases b with
  | binary l r => simp [chars, Nonterminal.ne_char hupper]
  | unit t => simp [chars, Terminal.ne_char hlower]

/-- Ranks put bodies in their order. -/
lemma precedes_of_rank_lt {b c : Body} (h : b.rank < c.rank) : b.Precedes c := by
  cases b with
  | binary l r =>
    cases c with
    | binary l' r' =>
      have hr' := toNat_lt_codePointCount r'.char
      rcases Nat.lt_trichotomy l.char.toNat l'.char.toNat with hl | hl | hl
      · exact .inl hl
      · refine .inr ⟨Char.toNat_inj.1 hl, ?_⟩
        rw [rank, rank, hl] at h
        exact Nat.lt_of_add_lt_add_left h
      · -- a greater left symbol outweighs all right ones
        have hmul := Nat.mul_le_mul_right codePointCount hl
        rw [Nat.succ_mul] at hmul
        simp only [rank] at h
        omega
    | unit t => exact trivial
  | unit t =>
    cases c with
    | binary l r =>
      have hpair := Nat.lt_trans h (rank_binary_lt l r)
      exact absurd hpair (Nat.not_lt.2 (Nat.le_add_right _ _))
    | unit t' => exact Nat.lt_of_add_lt_add_left h

/-- Bodies in their order are in the order of their texts, if the letters that follow pairs are
above the left symbols of these pairs. -/
lemma text_lt_of_precedes {b c : Body} (h : b.Precedes c)
    (hcross : ∀ l r t, b = .binary l r → c = .unit t → l.char < t.char) : b.text < c.text := by
  rw [String.lt_iff_toList_lt, text, text, String.toList_ofList, String.toList_ofList]
  cases b with
  | binary l r =>
    cases c with
    | binary l' r' =>
      rcases h with hl | ⟨hl, hr⟩
      · exact .rel hl
      · rw [chars, chars, hl]
        exact .cons (.rel hr)
    | unit t => exact .rel (hcross l r t rfl rfl)
  | unit t =>
    cases c with
    | binary l r => exact h.elim
    | unit t' => exact .rel h

end Body

/-! ### Lines are read back -/

namespace RuleRow

/-- The line that a row is written on. -/
def line (row : RuleRow) : List Char := Grammar.ruleLineChars row.head row.bodies

variable {row : RuleRow}

lemma line_eq (h : row.bodies ≠ []) :
    row.line = row.head.char :: ':' :: ':' :: '=' ::
      ['|'].intercalate (row.bodies.map Body.chars) := by
  obtain ⟨a, bs⟩ := row
  cases bs with
  | nil => exact absurd rfl h
  | cons b bs => rfl

/-- No body of a row is written with a character that is no letter. -/
lemma not_mem_bodies {c : Char} (hupper : isUppercase c = false) (hlower : isLowercase c = false)
    (row : RuleRow) : ∀ cs ∈ row.bodies.map Body.chars, c ∉ cs := by
  intro cs hcs
  obtain ⟨b, -, rfl⟩ := List.mem_map.1 hcs
  exact b.not_mem_chars hupper hlower

/-- The part before the first `::=` of a line is its head. -/
lemma splitOnce?_line (h : row.bodies ≠ []) :
    splitOnce? [':', ':', '='] row.line =
      some ([row.head.char], ['|'].intercalate (row.bodies.map Body.chars)) := by
  have hcolon : ':' ≠ row.head.char := Nonterminal.ne_char (by decide) row.head
  simp [line_eq h, splitOnce?, hcolon]

/-- A line is read as the row it was written from. -/
theorem read?_line (h : row.bodies ≠ []) : read? row.line = some row := by
  have hbar : ∀ cs ∈ row.bodies.map Body.chars, '|' ∉ cs :=
    row.not_mem_bodies (by decide) (by decide)
  rw [read?, splitOnce?_line h]
  simp only [Nonterminal.ofChar?_char]
  rw [pieces_intercalate (by simpa using h) hbar,
    mapM_map_of_forall fun b _ => b.ofChars?_chars]
  rfl

/-- A row is written on one line. -/
lemma newline_not_mem_line (h : row.bodies ≠ []) : '\n' ∉ row.line := by
  have hhead : '\n' ≠ row.head.char := Nonterminal.ne_char (by decide) row.head
  have hbodies : '\n' ∉ ['|'].intercalate (row.bodies.map Body.chars) :=
    not_mem_intercalate (by decide) (row.not_mem_bodies (by decide) (by decide))
  simp [line_eq h, hhead, hbodies]

end RuleRow

/-! ### The rows of a grammar -/

namespace Grammar

variable {g g' : Grammar}

/-- The rules of a grammar, head by head. -/
def rows (g : Grammar) : List RuleRow :=
  g.heads.toList.map fun a => ⟨a, (g.bodies a).toList⟩

lemma mem_rows {row : RuleRow} :
    row ∈ g.rows ↔ row.head ∈ g.heads ∧ row.bodies = (g.bodies row.head).toList := by
  obtain ⟨a, bs⟩ := row
  simp only [rows, List.mem_map, RuleRow.mk.injEq]
  constructor
  · rintro ⟨a, ha, rfl, rfl⟩
    exact ⟨ha, rfl⟩
  · rintro ⟨ha, rfl⟩
    exact ⟨a, ha, rfl, rfl⟩

lemma mem_bodies_of_mem_rows {row : RuleRow} (h : row ∈ g.rows) {b : Body} :
    b ∈ row.bodies ↔ (⟨row.head, b⟩ : Rule) ∈ g.rules := by
  rw [(mem_rows.1 h).2]
  exact mem_bodies

/-- No row is without bodies. -/
lemma bodies_ne_nil_of_mem_rows {row : RuleRow} (h : row ∈ g.rows) : row.bodies ≠ [] := by
  obtain ⟨b, hb⟩ := mem_heads.1 (mem_rows.1 h).1
  exact List.ne_nil_of_mem ((mem_bodies_of_mem_rows h).2 hb)

lemma dumpChars_eq (g : Grammar) : g.dumpChars = ['\n'].intercalate (g.rows.map RuleRow.line) := by
  rw [dumpChars, rows, List.map_map]
  rfl

/-- Only a grammar without rules has no rows. -/
lemma rows_eq_nil_iff : g.rows = [] ↔ g.rules.isEmpty = true := by
  have hheads : g.rows = [] ↔ ∀ a, a ∉ g.heads := by
    rw [rows, List.map_eq_nil_iff, List.eq_nil_iff_forall_not_mem]
    exact Iff.rfl
  rw [hheads, SortedSet.isEmpty, List.isEmpty_iff, List.eq_nil_iff_forall_not_mem]
  constructor
  · intro h r hr
    exact h r.head (mem_heads.2 ⟨r.body, hr⟩)
  · intro h a ha
    obtain ⟨b, hb⟩ := mem_heads.1 ha
    exact h ⟨a, b⟩ hb

/-- Only a grammar without rows has an empty text, as a line is never empty. -/
lemma dump_eq_empty_iff : g.dump = "" ↔ g.rows = [] := by
  rw [dump, ← String.toList_inj, String.toList_ofList, dumpChars_eq]
  constructor
  · intro h
    by_contra hne
    refine intercalate_ne_nil (by simpa using hne) (fun cs hcs => ?_) h
    obtain ⟨row, hrow, rfl⟩ := List.mem_map.1 hcs
    simp [RuleRow.line_eq (bodies_ne_nil_of_mem_rows hrow)]
  · intro h
    simp [h]

/-- The rows that are read from the text of a grammar are those it was written from. -/
theorem readDump?_dump (g : Grammar) : readDump? g.dump = some g.rows := by
  by_cases hempty : g.rows = []
  · rw [readDump?, if_pos (dump_eq_empty_iff.2 hempty), hempty]
  · have hline : ∀ cs ∈ g.rows.map RuleRow.line, '\n' ∉ cs := by
      intro cs hcs
      obtain ⟨row, hrow, rfl⟩ := List.mem_map.1 hcs
      exact row.newline_not_mem_line (bodies_ne_nil_of_mem_rows hrow)
    rw [readDump?, if_neg (dump_eq_empty_iff.not.2 hempty), dump, String.toList_ofList,
      dumpChars_eq, pieces_intercalate (by simpa using hempty) hline]
    exact mapM_map_of_forall fun row hrow => row.read?_line (bodies_ne_nil_of_mem_rows hrow)

lemma mem_rules_iff_mem_rows {a : Nonterminal} {b : Body} :
    (⟨a, b⟩ : Rule) ∈ g.rules ↔ ∃ row ∈ g.rows, row.head = a ∧ b ∈ row.bodies := by
  constructor
  · intro h
    exact ⟨⟨a, (g.bodies a).toList⟩, mem_rows.2 ⟨mem_heads.2 ⟨b, h⟩, rfl⟩, rfl, mem_bodies.2 h⟩
  · rintro ⟨row, hrow, rfl, hb⟩
    exact (mem_bodies_of_mem_rows hrow).1 hb

lemma heads_rows_ascending (g : Grammar) :
    g.rows.Pairwise fun row row' => row.head.char < row'.head.char :=
  List.pairwise_map.2 g.heads.ascending

/-- The rows hold every rule once. -/
lemma perm_rules_of_rows (g : Grammar) :
    (g.rows.flatMap fun row => row.bodies.map (Rule.mk row.head)).Perm g.rules.toList := by
  refine (List.perm_ext_iff_of_nodup (List.nodup_flatMap.2 ⟨?_, ?_⟩) g.rules.nodup).2 ?_
  · intro row h
    rw [(mem_rows.1 h).2]
    exact (g.bodies row.head).nodup.map fun _ _ hbody => (Rule.mk.inj hbody).2
  · -- rows with different heads have no rule in common
    refine g.heads_rows_ascending.imp fun {row row'} hlt r hr hr' => ?_
    obtain ⟨b, -, rfl⟩ := List.mem_map.1 hr
    obtain ⟨b', -, heq⟩ := List.mem_map.1 hr'
    exact absurd ((Rule.mk.inj heq).1 ▸ hlt) (Nat.lt_irrefl _)
  · rintro ⟨a, b⟩
    rw [← SortedSet.mem_iff, mem_rules_iff_mem_rows]
    simp only [List.mem_flatMap, List.mem_map, Rule.mk.injEq]
    constructor
    · rintro ⟨row, hrow, b, hb, rfl, rfl⟩
      exact ⟨row, hrow, rfl, hb⟩
    · rintro ⟨row, hrow, rfl, hb⟩
      exact ⟨row, hrow, b, hb, rfl, rfl⟩

/-- The rows of a grammar are in order, and hold its rules. -/
theorem canonical_rows (g : Grammar) : g.Canonical g.rows where
  heads_ascending := g.heads_rows_ascending
  bodies_ne _ := bodies_ne_nil_of_mem_rows
  bodies_ascending row h := by
    rw [(mem_rows.1 h).2]
    exact (g.bodies row.head).ascending.imp Body.precedes_of_rank_lt
  bodies_nodup row h := by
    rw [(mem_rows.1 h).2]
    exact (g.bodies row.head).nodup
  mem_rules_iff _ _ := mem_rules_iff_mem_rows
  count := by
    rw [ruleCount, SortedSet.size, ← g.perm_rules_of_rows.length_eq, List.length_flatMap,
      List.length_flatMap]
    simp only [List.length_map]

/-! ### The text of a grammar -/

/-- Two grammars have the same text only if they have the same rules. -/
lemma rules_eq_of_dump_eq (h : g.dump = g'.dump) : g.rules = g'.rules := by
  have hrows : g.rows = g'.rows := by
    have hread := readDump?_dump g
    rw [h, readDump?_dump, Option.some.injEq] at hread
    exact hread.symm
  refine SortedSet.ext_mem fun ⟨a, b⟩ => ?_
  rw [mem_rules_iff_mem_rows, mem_rules_iff_mem_rows, hrows]

lemma dump_eq_iff : g.dump = g'.dump ↔ g.rules = g'.rules := by
  refine ⟨rules_eq_of_dump_eq, fun h => ?_⟩
  simp only [dump, dumpChars, heads, bodies, h]

/-- In a well-formed grammar, only the absence of rules leaves nothing to derive from. -/
lemma WellFormed.isEmpty_iff (hg : g.WellFormed) :
    g.isEmpty = true ↔ g.rules.isEmpty = true := by
  rw [isEmpty, Bool.or_eq_true, or_iff_right_iff_imp]
  intro hnonterminals
  rw [SortedSet.isEmpty, List.isEmpty_iff, List.eq_nil_iff_forall_not_mem] at hnonterminals ⊢
  intro r hr
  exact hnonterminals r.head (hg.head_mem r.head (mem_heads.2 ⟨r.body, hr⟩))

/-- If all nonterminals are below all terminals, bodies are listed in the order of their texts. -/
lemma WellFormed.texts_ascending (hg : g.WellFormed)
    (hbelow : ∀ a ∈ g.nonterminals, ∀ t ∈ g.terminals, a.char < t.char) {row : RuleRow}
    (hrow : row ∈ g.rows) : row.bodies.Pairwise fun b c => b.text < c.text := by
  refine (g.canonical_rows.bodies_ascending row hrow).imp_of_mem fun {b c} hb hc h => ?_
  refine Body.text_lt_of_precedes h fun l r t hpair hletter => hbelow l ?_ t ?_
  · rw [hpair, mem_bodies_of_mem_rows hrow] at hb
    exact hg.head_mem l (hg.halves_mem row.head l r hb).1
  · rw [hletter, mem_bodies_of_mem_rows hrow] at hc
    exact hg.letter_mem row.head t hc

/-- **The text of a grammar is faithful and canonical.**  Of every reachable grammar, rows are read
back that hold its rules in order, a row for each nonterminal with rules; the text is empty exactly
if there is nothing to derive from; two reachable grammars have the same text exactly if they have
the same rules.  If all nonterminals are below all terminals, the bodies of a line are also in the
order of their texts. -/
theorem dump_is_faithful_and_canonical (hg : g.Reachable) :
    ∃ rows, readDump? g.dump = some rows ∧ g.Canonical rows ∧
      (g.dump = "" ↔ g.isEmpty = true) ∧
      (∀ g' : Grammar, g'.Reachable → (g.dump = g'.dump ↔ g.rules = g'.rules)) ∧
      ((∀ a ∈ g.nonterminals, ∀ t ∈ g.terminals, a.char < t.char) →
        ∀ row ∈ rows, row.bodies.Pairwise fun b c => b.text < c.text) := by
  refine ⟨g.rows, readDump?_dump g, g.canonical_rows, ?_, fun _ _ => dump_eq_iff, ?_⟩
  · rw [dump_eq_empty_iff, rows_eq_nil_iff, hg.wellFormed.isEmpty_iff]
  · exact fun hbelow _ => hg.wellFormed.texts_ascending hbelow

/-- The grammar of brackets in which an opening one can also stand alone. -/
def loneBrackets : Grammar := run (bracketEdits ++ [.addRule 'S' "l"])

/-- The letter comes after the pairs on the line of `S`, and tells the text from the one of the
grammar without it. -/
theorem dump_of_lone_brackets_is_read_back :
    loneBrackets.Reachable ∧ loneBrackets.dump = "L::=l\nR::=r\nS::=LR|LT|SS|l\nT::=SR" ∧
    loneBrackets.dump ≠ brackets.dump ∧ loneBrackets.isEmpty = false ∧
    ∃ rows, readDump? loneBrackets.dump = some rows ∧ loneBrackets.Canonical rows ∧
      (∀ a ∈ loneBrackets.nonterminals, ∀ t ∈ loneBrackets.terminals, a.char < t.char) ∧
      ∀ row ∈ rows, row.bodies.Pairwise fun b c => b.text < c.text := by
  have hreach : loneBrackets.Reachable := reachable_run _
  obtain ⟨rows, hread, hcanonical, hempty, hsame, hascending⟩ :=
    dump_is_faithful_and_canonical hreach
  have hdump : loneBrackets.dump = "L::=l\nR::=r\nS::=LR|LT|SS|l\nT::=SR" := by cbv
  have hrules : loneBrackets.rules ≠ brackets.rules := by decide +kernel
  have hisEmpty : loneBrackets.isEmpty = false := by
    rw [← Bool.not_eq_true, ← hempty, hdump]
    decide
  have hbelow : ∀ a ∈ loneBrackets.nonterminals, ∀ t ∈ loneBrackets.terminals,
      a.char < t.char := by
    show ∀ a ∈ loneBrackets.nonterminals.toList, ∀ t ∈ loneBrackets.terminals.toList,
      a.char < t.char
    decide +kernel
  exact ⟨hreach, hdump, (hsame brackets reachable_brackets).not.2 hrules, hisEmpty, rows, hread,
    hcanonical, hbelow, hascending hbelow⟩

end Grammar

end ChomskyGrammar
