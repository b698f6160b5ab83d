/-
# Accepted edits

What each kind of edit demands of a grammar and what it changes.  An accepted edit declares
one new symbol, chooses a declared start symbol, adds one rule whose head is declared and
whose body the grammar admits, or forgets everything (`edit_cases`); and every such edit is
accepted.
-/
import Mathlib.Tactic.Lemma
import ChomskyGrammar.Grammar.Edit

namespace ChomskyGrammar

@[simp] lemma Nonterminal.ofChar?_char (a : Nonterminal) : ofChar? a.char = some a :=
  ofChar?_eq_some_iff.2 rfl

@[simp] lemma Terminal.ofChar?_char (t : Terminal) : ofChar? t.char = some t :=
  ofChar?_eq_some_iff.2 rfl

@[simp] lemma Nonterminal.read_char (a : Nonterminal) : read a.char = .ok a := by
  simp [read]

@[simp] lemma Terminal.read_char (t : Terminal) : read t.char = .ok t := by
  simp [read]

lemma Nonterminal.char_inj {a b : Nonterminal} : a.char = b.char ↔ a = b := by
  rw [← ofChar?_eq_some_iff, ofChar?_char, Option.some.injEq, eq_comm]

/-- A character that is no uppercase letter is no nonterminal. -/
lemma Nonterminal.ne_char {c : Char} (h : isUppercase c = false) (a : Nonterminal) :
    c ≠ a.char := by
  rintro rfl
  exact absurd a.uppercase (by simp [h])

/-- A character that is no lowercase letter is no terminal. -/
lemma Terminal.ne_char {c : Char} (h : isLowercase c = false) (t : Terminal) : c ≠ t.char := by
  rintro rfl
  exact absurd t.lowercase (by simp [h])

lemma Nonterminal.char_of_read {c : Char} {a : Nonterminal} (h : read c = .ok a) :
    a.char = c := by
  rw [read] at h
  cases hc : ofChar? c with
  | none => simp [hc] at h
  | some b =>
    simp only [hc, Option.elim_some, Except.ok.injEq] at h
    exact h ▸ ofChar?_eq_some_iff.1 hc

lemma Terminal.char_of_read {c : Char} {t : Terminal} (h : read c = .ok t) : t.char = c := by
  rw [read] at h
  cases hc : ofChar? c with
  | none => simp [hc] at h
  | some b =>
    simp only [hc, Option.elim_some, Except.ok.injEq] at h
    exact h ▸ ofChar?_eq_some_iff.1 hc

namespace Grammar

/-- Whether a body can be given to a rule: its letter is declared, or both of its halves
have rules. -/
def Admits (g : Grammar) : Body → Prop
  | .binary b c => b ∈ g.heads ∧ c ∈ g.heads
  | .unit t => t ∈ g.terminals

variable {g g' : Grammar}

lemma declared?_eq_some_iff {c : Char} {a : Nonterminal} :
    g.declared? c = some a ↔ a.char = c ∧ a ∈ g.nonterminals := by
  simp [declared?, Option.filter_eq_some_iff, Nonterminal.ofChar?_eq_some_iff]

lemma productive?_eq_some_iff {c : Char} {a : Nonterminal} :
    g.productive? c = some a ↔ a.char = c ∧ a ∈ g.heads := by
  simp [productive?, Option.filter_eq_some_iff, Nonterminal.ofChar?_eq_some_iff]

/-! ### Declarations and the start symbol -/

lemma declareNonterminal_eq_ok_iff {c : Char} :
    g.declareNonterminal c = .ok g' ↔
      ∃ a : Nonterminal, a.char = c ∧ a ∉ g.nonterminals ∧
        g' = { g with nonterminals := g.nonterminals.insert a } := by
  constructor
  · intro h
    rw [declareNonterminal] at h
    split at h
    · exact absurd h (by simp)
    · rename_i a ha
      split at h
      · exact absurd h (by simp)
      · rename_i hnew
        exact ⟨a, Nonterminal.char_of_read ha, hnew, (Except.ok.inj h).symm⟩
  · rintro ⟨a, rfl, hnew, rfl⟩
    simp [declareNonterminal, hnew]

lemma declareTerminal_eq_ok_iff {c : Char} :
    g.declareTerminal c = .ok g' ↔
      ∃ t : Terminal, t.char = c ∧ t ∉ g.terminals ∧
        g' = { g with terminals := g.terminals.insert t } := by
  constructor
  · intro h
    rw [declareTerminal] at h
    split at h
    · exact absurd h (by simp)
    · rename_i t ht
      split at h
      · exact absurd h (by simp)
      · rename_i hnew
        exact ⟨t, Terminal.char_of_read ht, hnew, (Except.ok.inj h).symm⟩
  · rintro ⟨t, rfl, hnew, rfl⟩
    simp [declareTerminal, hnew]

lemma setStart_eq_ok_iff {c : Char} :
    g.setStart c = .ok g' ↔
      ∃ a : Nonterminal, a.char = c ∧ a ∈ g.nonterminals ∧ g' = { g with start := some a } := by
  constructor
  · intro h
    rw [setStart] at h
    split at h
    · exact absurd h (by simp)
    · rename_i a ha
      obtain ⟨hchar, hmem⟩ := declared?_eq_some_iff.1 ha
      exact ⟨a, hchar, hmem, (Except.ok.inj h).symm⟩
  · rintro ⟨a, hchar, hmem, rfl⟩
    simp [setStart, declared?_eq_some_iff.2 ⟨hchar, hmem⟩]

/-! ### Rules -/

lemma readBody_chars {b : Body} (h : g.Admits b) : g.readBody b.chars = .ok b := by
  cases b with
  | binary b c =>
    have hb : g.productive? b.char = some b := productive?_eq_some_iff.2 ⟨rfl, h.1⟩
    have hc : g.productive? c.char = some c := productive?_eq_some_iff.2 ⟨rfl, h.2⟩
    simp [Body.chars, readBody, b.uppercase, c.uppercase, hb, hc]
  | unit t =>
    have ht : t ∈ g.terminals := h
    simp [Body.chars, readBody, ht]

/-- Reading accepts the admitted bodies, each in one spelling. -/
lemma readBody_eq_ok_iff {cs : List Char} {b : Body} :
    g.readBody cs = .ok b ↔ cs = b.chars ∧ g.Admits b := by
  constructor
  · intro h
    unfold readBody at h
    split at h
    · -- one character
      split at h
      · exact absurd h (by simp)
      · rename_i c t ht
        split at h
        · rename_i hmem
          obtain rfl := Except.ok.inj h
          obtain rfl := Terminal.ofChar?_eq_some_iff.1 ht
          exact ⟨rfl, hmem⟩
        · exact absurd h (by simp)
    · -- two characters
      split at h
      · split at h
        · exact absurd h (by simp)
        · exact absurd h (by simp)
        · rename_i a b ha hb
          obtain rfl := Except.ok.inj h
          obtain ⟨rfl, hamem⟩ := productive?_eq_some_iff.1 ha
          obtain ⟨rfl, hbmem⟩ := productive?_eq_some_iff.1 hb
          exact ⟨rfl, hamem, hbmem⟩
      · exact absurd h (by simp)
    · exact absurd h (by simp)
  · rintro ⟨rfl, h⟩
    exact readBody_chars h

lemma addRule_eq_ok_iff {c : Char} {body : String} :
    g.addRule c body = .ok g' ↔
      ∃ r : Rule, r.head.char = c ∧ body.toList = r.body.chars ∧ r.head ∈ g.nonterminals ∧
        g.Admits r.body ∧ g' = { g with rules := g.rules.insert r } := by
  constructor
  · intro h
    rw [addRule] at h
    split at h
    · exact absurd h (by simp)
    · rename_i a ha
      split at h
      · exact absurd h (by simp)
      · rename_i b hb
        obtain ⟨hchar, hmem⟩ := declared?_eq_some_iff.1 ha
        obtain ⟨hbody, hadmits⟩ := readBody_eq_ok_iff.1 hb
        exact ⟨⟨a, b⟩, hchar, hbody, hmem, hadmits, (Except.ok.inj h).symm⟩
  · rintro ⟨⟨a, b⟩, hchar, hbody, hmem, hadmits, rfl⟩
    simp [addRule, declared?_eq_some_iff.2 ⟨hchar, hmem⟩, readBody_eq_ok_iff.2 ⟨hbody, hadmits⟩]

/-! ### All edits -/

/-- Everything that an accepted edit can do. -/
theorem edit_cases {e : Edit} (h : g.edit e = .ok g') :
    (∃ a : Nonterminal, e = .declareNonterminal a.char ∧ a ∉ g.nonterminals ∧
      g' = { g with nonterminals := g.nonterminals.insert a }) ∨
    (∃ t : Terminal, e = .declareTerminal t.char ∧ t ∉ g.terminals ∧
      g' = { g with terminals := g.terminals.insert t }) ∨
    (∃ a : Nonterminal, e = .setStart a.char ∧ a ∈ g.nonterminals ∧
      g' = { g with start := some a }) ∨
    (∃ r : Rule, e = .addRule r.head.char r.body.text ∧ r.head ∈ g.nonterminals ∧
      g.Admits r.body ∧ g' = { g with rules := g.rules.insert r }) ∨
    (e = .reset ∧ g' = empty) := by
  cases e with
  | declareNonterminal c =>
    obtain ⟨a, rfl, hnew, hg'⟩ := declareNonterminal_eq_ok_iff.1 h
    exact .inl ⟨a, rfl, hnew, hg'⟩
  | declareTerminal c =>
    obtain ⟨t, rfl, hnew, hg'⟩ := declareTerminal_eq_ok_iff.1 h
    exact .inr (.inl ⟨t, rfl, hnew, hg'⟩)
  | setStart c =>
    obtain ⟨a, rfl, hmem, hg'⟩ := setStart_eq_ok_iff.1 h
    exact .inr (.inr (.inl ⟨a, rfl, hmem, hg'⟩))
  | addRule c body =>
    obtain ⟨r, rfl, hbody, hmem, hadmits, hg'⟩ := addRule_eq_ok_iff.1 h
    have htext : body = r.body.text := by
      rw [Body.text, ← hbody, String.ofList_toList]
    exact .inr (.inr (.inr (.inl ⟨r, by rw [htext], hmem, hadmits, hg'⟩)))
  | reset => exact .inr (.inr (.inr (.inr ⟨rfl, (Except.ok.inj h).symm⟩)))

end Grammar

end ChomskyGrammar
