/-
# Reachable grammars are well formed

A grammar is reachable if some list of edits, accepted or refused, leads to it from the
grammar that declares nothing.  Every reachable grammar is well formed: its start symbol and
its heads are declared, its rules use declared letters and nonterminals with rules only, and
each of its heads derives a word.  No edit checks the last point.  It holds because the two
halves of a binary rule have rules before the rule is added, so a word of each of them is
known by then.
-/
import ChomskyGrammar.Proofs.Derivation.Language
import ChomskyGrammar.Proofs.Grammar.AcceptedEdits

namespace ChomskyGrammar

namespace Grammar

/-- The grammar after some edits, made in order from the grammar that declares nothing.  A
refused edit is passed over. -/
def run (es : List Edit) : Grammar := es.foldl attempt empty

/-- Whether some list of edits leads to a grammar. -/
def Reachable (g : Grammar) : Prop := ∃ es, run es = g

/-- What the edits of a grammar keep. -/
structure WellFormed (g : Grammar) : Prop where
  /-- The start symbol is declared. -/
  start_mem : ∀ a, g.start = some a → a ∈ g.nonterminals
  /-- A nonterminal with rules is declared. -/
  head_mem : ∀ a ∈ g.heads, a ∈ g.nonterminals
  /-- The letter of a unit rule is declared. -/
  letter_mem : ∀ a t, (⟨a, .unit t⟩ : Rule) ∈ g.rules → t ∈ g.terminals
  /-- Both halves of a binary rule have rules. -/
  halves_mem : ∀ a b c, (⟨a, .binary b c⟩ : Rule) ∈ g.rules → b ∈ g.heads ∧ c ∈ g.heads
  /-- A nonterminal with rules derives a word. -/
  productive : ∀ a ∈ g.heads, ∃ w, Derives g.rules.toList a w

/-! ### Runs of edits -/

variable {g : Grammar}

lemma attempt_of_ok {e : Edit} {g' : Grammar} (h : g.edit e = .ok g') : g.attempt e = g' := by
  simp [attempt, h]

/-- An attempt is an accepted edit, or changes nothing. -/
lemma attempt_cases (g : Grammar) (e : Edit) : g.edit e = .ok (g.attempt e) ∨ g.attempt e = g := by
  rw [attempt]
  cases h : g.edit e with
  | ok g' => exact .inl rfl
  | error err => exact .inr rfl

lemma run_append (es es' : List Edit) : run (es ++ es') = es'.foldl attempt (run es) :=
  List.foldl_append

/-- Edits that succeed one after the other lead where their attempts lead. -/
lemma foldl_attempt_of_foldlM {es : List Edit} {g' : Grammar} (h : es.foldlM edit g = .ok g') :
    es.foldl attempt g = g' := by
  induction es generalizing g with
  | nil => exact Except.ok.inj h
  | cons e es ih =>
    rw [List.foldlM_cons] at h
    cases he : g.edit e with
    | error err =>
      rw [he] at h
      exact absurd h (by simp [bind, Except.bind])
    | ok g₁ =>
      rw [he] at h
      rw [List.foldl_cons, attempt_of_ok he]
      exact ih h

lemma reachable_run (es : List Edit) : (run es).Reachable := ⟨es, rfl⟩

/-- What holds of a grammar and is kept by each accepted one of some edits, holds after them. -/
theorem foldl_attempt_induct {es : List Edit} {P : Grammar → Prop} (init : P g)
    (step : ∀ g₁ e g₂, P g₁ → e ∈ es → g₁.edit e = .ok g₂ → P g₂) : P (es.foldl attempt g) := by
  refine List.foldlRecOn es attempt init fun g₁ h₁ e he => ?_
  rcases attempt_cases g₁ e with hok | hsame
  · exact step g₁ e _ h₁ he hok
  · rw [hsame]
    exact h₁

/-- What holds of the grammar that declares nothing and is kept by accepted edits, holds of
every reachable grammar. -/
theorem Reachable.induct {P : Grammar → Prop} (init : P empty)
    (step : ∀ g e g', P g → g.edit e = .ok g' → P g') (h : g.Reachable) : P g := by
  obtain ⟨es, rfl⟩ := h
  exact foldl_attempt_induct init fun g₁ e g₂ h₁ _ hok => step g₁ e g₂ h₁ hok

/-! ### Every edit keeps a grammar well formed -/

lemma mem_heads_insert {r : Rule} {a : Nonterminal} :
    a ∈ ({ g with rules := g.rules.insert r } : Grammar).heads ↔ a = r.head ∨ a ∈ g.heads := by
  obtain ⟨h, b⟩ := r
  simp only [mem_heads, SortedSet.mem_insert, Rule.mk.injEq]
  constructor
  · rintro ⟨b', ⟨rfl, -⟩ | hb'⟩
    · exact .inl rfl
    · exact .inr ⟨b', hb'⟩
  · rintro (rfl | ⟨b', hb'⟩)
    · exact ⟨b, .inl ⟨rfl, rfl⟩⟩
    · exact ⟨b', .inr hb'⟩

lemma derives_insert {r : Rule} {a : Nonterminal} {w : List Terminal}
    (h : Derives g.rules.toList a w) : Derives (g.rules.insert r).toList a w :=
  h.mono fun _ hq => SortedSet.mem_insert.2 (.inr hq)

lemma wellFormed_empty : WellFormed empty where
  start_mem _ h := absurd h (by simp [empty])
  head_mem _ h := absurd h (by simp [mem_heads, empty, SortedSet.not_mem_empty])
  letter_mem _ _ h := absurd h (SortedSet.not_mem_empty _)
  halves_mem _ _ _ h := absurd h (SortedSet.not_mem_empty _)
  productive _ h := absurd h (by simp [mem_heads, empty, SortedSet.not_mem_empty])

/-- A body that is admitted gives its head a word. -/
lemma exists_word_of_admits (hg : g.WellFormed) {r : Rule} (hr : g.Admits r.body) :
    ∃ w, Derives (g.rules.insert r).toList r.head w := by
  have hmem : r ∈ (g.rules.insert r).toList := SortedSet.mem_insert.2 (.inl rfl)
  obtain ⟨a, b⟩ := r
  cases b with
  | unit t => exact ⟨[t], derives_unit hmem⟩
  | binary b c =>
    obtain ⟨u, hu⟩ := hg.productive b hr.1
    obtain ⟨v, hv⟩ := hg.productive c hr.2
    exact ⟨u ++ v, derives_append hmem (derives_insert hu) (derives_insert hv)⟩

lemma WellFormed.insert_rule (hg : g.WellFormed) {r : Rule} (hhead : r.head ∈ g.nonterminals)
    (hbody : g.Admits r.body) : WellFormed { g with rules := g.rules.insert r } where
  start_mem := hg.start_mem
  head_mem a ha := by
    rcases mem_heads_insert.1 ha with rfl | ha
    · exact hhead
    · exact hg.head_mem a ha
  letter_mem a t h := by
    rcases SortedSet.mem_insert.1 h with rfl | h
    · exact hbody
    · exact hg.letter_mem a t h
  halves_mem a b c h := by
    have hold : b ∈ g.heads ∧ c ∈ g.heads := by
      rcases SortedSet.mem_insert.1 h with rfl | h
      · exact hbody
      · exact hg.halves_mem a b c h
    exact ⟨mem_heads_insert.2 (.inr hold.1), mem_heads_insert.2 (.inr hold.2)⟩
  productive a ha := by
    rcases mem_heads_insert.1 ha with rfl | ha
    · exact exists_word_of_admits hg hbody
    · obtain ⟨w, hw⟩ := hg.productive a ha
      exact ⟨w, derives_insert hw⟩

/-- An accepted edit keeps a grammar well formed. -/
theorem WellFormed.edit {g' : Grammar} (hg : g.WellFormed) {e : Edit}
    (h : g.edit e = .ok g') : g'.WellFormed := by
  rcases edit_cases h with ⟨a, -, -, rfl⟩ | ⟨t, -, -, rfl⟩ | ⟨a, -, ha, rfl⟩ |
    ⟨r, -, hhead, hbody, rfl⟩ | ⟨-, rfl⟩
  · -- a nonterminal is declared: everything that had to be declared still is
    exact { hg with
      start_mem := fun b hb => SortedSet.mem_insert.2 (.inr (hg.start_mem b hb))
      head_mem := fun b hb => SortedSet.mem_insert.2 (.inr (hg.head_mem b hb)) }
  · -- a terminal is declared
    exact { hg with
      letter_mem := fun b t ht => SortedSet.mem_insert.2 (.inr (hg.letter_mem b t ht)) }
  · -- the start symbol is chosen among the declared ones
    exact { hg with
      start_mem := fun b hb => Option.some.inj hb ▸ ha }
  · exact hg.insert_rule hhead hbody
  · exact wellFormed_empty

/-- **Every reachable grammar is well formed.** -/
theorem Reachable.wellFormed (hg : g.Reachable) : g.WellFormed :=
  hg.induct wellFormed_empty fun _ _ _ h he => h.edit he

/-! ### The grammar of brackets -/

/-- The edits that build a grammar whose words are balanced brackets, with `l` as the opening
and `r` as the closing one. -/
def bracketEdits : List Edit :=
  ['S', 'L', 'R', 'T'].map .declareNonterminal ++ ['l', 'r'].map .declareTerminal ++
    [.setStart 'S', .addRule 'L' "l", .addRule 'R' "r", .addRule 'S' "LR", .addRule 'T' "SR",
      .addRule 'S' "LT", .addRule 'S' "SS"]

/-- The grammar of balanced brackets. -/
def brackets : Grammar := run bracketEdits

lemma reachable_brackets : brackets.Reachable := reachable_run bracketEdits

/-- The start symbol of the grammar of brackets. -/
def brackets.balanced : Nonterminal := ⟨'S', by decide⟩

lemma start_brackets : brackets.start = some brackets.balanced := by decide

end Grammar

end ChomskyGrammar
