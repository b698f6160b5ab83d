/-
# The words that a nonterminal derives

A list of rules is a context-free grammar, and a nonterminal derives a word if it can be
rewritten to the word in finitely many steps, each of which replaces one nonterminal by the
body of one of its rules.  As steps may be taken anywhere in a sentential form, this says
little about the shape of a word by itself.  The main results recover the shape:

* `derives_iff_exists_tree`: a word is derived exactly if it is the word of a derivation
  tree that follows the rules;
* `derives_iff`: a derived word is a letter of a unit rule, or the words of the two halves
  of a binary rule, one after the other;
* `Derives.induct`: what holds of all such words, built up in this way, holds of all derived
  words.
-/
import Mathlib.Computability.ContextFreeGrammar
import ChomskyGrammar.Derivation

namespace ContextFreeGrammar

/-- A list of terminals and nonterminals, as derivations pass through. -/
abbrev SententialForm (T N : Type) : Type := List (Symbol T N)

end ContextFreeGrammar

namespace ChomskyGrammar

open ContextFreeGrammar (SententialForm)

/-- The symbols of a body, from left to right. -/
def Body.form : Body → SententialForm Terminal Nonterminal
  | .binary b c => [.nonterminal b, .nonterminal c]
  | .unit t => [.terminal t]

/-- A rule, read as a rule of a context-free grammar. -/
def Rule.contextFree (r : Rule) : ContextFreeRule Terminal Nonterminal := ⟨r.head, r.body.form⟩

/-- The context-free grammar with the given rules that starts from a given nonterminal. -/
def contextFree (rules : List Rule) (a : Nonterminal) : ContextFreeGrammar Terminal where
  NT := Nonterminal
  initial := a
  rules := (rules.map Rule.contextFree).toFinset

/-- Whether a nonterminal can be rewritten to a word in finitely many steps. -/
def Derives (rules : List Rule) (a : Nonterminal) (w : List Terminal) : Prop :=
  (contextFree rules a).Derives [.nonterminal a] (w.map .terminal)

variable {rules : List Rule}

lemma mem_contextFree_rules {a : Nonterminal} {r : ContextFreeRule Terminal Nonterminal} :
    r ∈ (contextFree rules a).rules ↔ ∃ q ∈ rules, q.contextFree = r :=
  List.mem_toFinset.trans List.mem_map

/-! ### From trees to derivations -/

/-- A tree that follows the rules derives its word from its root. -/
lemma derives_of_follows {d : DerivationTree} (h : d.Follows rules) :
    Derives rules d.root d.word := by
  induction d with
  | unit a t =>
    refine ContextFreeGrammar.Produces.single ⟨(⟨a, .unit t⟩ : Rule).contextFree, ?_, ?_⟩
    · exact mem_contextFree_rules.2 ⟨_, h, rfl⟩
    · exact ContextFreeRule.Rewrites.input_output
  | binary a left right ihl ihr =>
    obtain ⟨hrule, hleft, hright⟩ := h
    have hstep : (contextFree rules a).Produces [.nonterminal a]
        [.nonterminal left.root, .nonterminal right.root] := by
      refine ⟨(⟨a, .binary left.root right.root⟩ : Rule).contextFree, ?_, ?_⟩
      · exact mem_contextFree_rules.2 ⟨_, hrule, rfl⟩
      · exact ContextFreeRule.Rewrites.input_output
    -- The left half is rewritten first, while the right half waits behind it.
    have hl : (contextFree rules a).Derives [.nonterminal left.root, .nonterminal right.root]
        (left.word.map .terminal ++ [.nonterminal right.root]) :=
      (ihl hleft).append_right [.nonterminal right.root]
    have hr : (contextFree rules a).Derives (left.word.map .terminal ++ [.nonterminal right.root])
        (left.word.map .terminal ++ right.word.map .terminal) :=
      (ihr hright).append_left (left.word.map .terminal)
    show (contextFree rules a).Derives _ ((left.word ++ right.word).map .terminal)
    rw [List.map_append]
    exact hstep.trans_derives (hl.trans hr)

/-! ### From derivations to trees -/

/-- The words that a sentential form can become, its symbols taken apart: a terminal becomes
itself, and a nonterminal the word of a tree that follows the rules. -/
def Expands (rules : List Rule) :
    SententialForm Terminal Nonterminal → List Terminal → Prop
  | [], w => w = []
  | .terminal t :: u, w => ∃ v, w = t :: v ∧ Expands rules u v
  | .nonterminal a :: u, w =>
    ∃ (d : DerivationTree) (v : List Terminal),
      d.root = a ∧ d.Follows rules ∧ w = d.word ++ v ∧ Expands rules u v

lemma expands_terminals (w : List Terminal) : Expands rules (w.map .terminal) w := by
  induction w with
  | nil => rfl
  | cons t w ih => exact ⟨w, rfl, ih⟩

/-- A form in two parts becomes a word in two parts. -/
lemma expands_append {u v : SententialForm Terminal Nonterminal} {w : List Terminal} :
    Expands rules (u ++ v) w ↔ ∃ x y, w = x ++ y ∧ Expands rules u x ∧ Expands rules v y := by
  induction u generalizing w with
  | nil =>
    constructor
    · intro h
      exact ⟨[], w, rfl, rfl, h⟩
    · rintro ⟨x, y, rfl, rfl, h⟩
      exact h
  | cons s u ih =>
    cases s with
    | terminal t =>
      constructor
      · rintro ⟨z, rfl, hz⟩
        obtain ⟨x, y, rfl, hx, hy⟩ := ih.1 hz
        exact ⟨t :: x, y, rfl, ⟨x, rfl, hx⟩, hy⟩
      · rintro ⟨-, y, rfl, ⟨x, rfl, hx⟩, hy⟩
        exact ⟨x ++ y, rfl, ih.2 ⟨x, y, rfl, hx, hy⟩⟩
    | nonterminal a =>
      constructor
      · rintro ⟨d, z, ha, hd, rfl, hz⟩
        obtain ⟨x, y, rfl, hx, hy⟩ := ih.1 hz
        exact ⟨d.word ++ x, y, by rw [List.append_assoc], ⟨d, x, ha, hd, rfl, hx⟩, hy⟩
      · rintro ⟨-, y, rfl, ⟨d, x, ha, hd, rfl, hx⟩, hy⟩
        exact ⟨d, x ++ y, ha, hd, List.append_assoc _ _ _, ih.2 ⟨x, y, rfl, hx, hy⟩⟩

/-- The body of a rule becomes the words that its head becomes by that rule. -/
lemma exists_tree_of_expands_body {r : Rule} (hr : r ∈ rules) {w : List Terminal}
    (h : Expands rules r.body.form w) :
    ∃ d : DerivationTree, d.root = r.head ∧ d.Follows rules ∧ d.word = w := by
  obtain ⟨a, b⟩ := r
  cases b with
  | unit t =>
    obtain ⟨v, rfl, rfl⟩ := h
    exact ⟨.unit a t, rfl, hr, rfl⟩
  | binary b c =>
    obtain ⟨left, v, rfl, hleft, rfl, right, v', rfl, hright, rfl, rfl⟩ := h
    refine ⟨.binary a left right, rfl, ⟨hr, hleft, hright⟩, ?_⟩
    simp [DerivationTree.word]

/-- A step of a derivation can be undone: what the form becomes after the step, it becomes
before it. -/
lemma expands_of_produces {a : Nonterminal} {u v : SententialForm Terminal Nonterminal}
    {w : List Terminal} (h : (contextFree rules a).Produces u v) (hv : Expands rules v w) :
    Expands rules u w := by
  obtain ⟨r, hr, hstep⟩ := h
  obtain ⟨q, hq, rfl⟩ := mem_contextFree_rules.1 hr
  obtain ⟨p, s, rfl, rfl⟩ := hstep.exists_parts
  obtain ⟨x, y, rfl, hx, hy⟩ := expands_append.1 hv
  obtain ⟨x₁, x₂, rfl, hx₁, hx₂⟩ := expands_append.1 hx
  obtain ⟨d, hroot, hd, rfl⟩ := exists_tree_of_expands_body hq hx₂
  refine expands_append.2 ⟨x₁ ++ d.word, y, rfl, expands_append.2 ⟨x₁, d.word, rfl, hx₁, ?_⟩, hy⟩
  exact ⟨d, [], hroot, hd, (List.append_nil _).symm, rfl⟩

lemma expands_of_derives {a : Nonterminal} {u : SententialForm Terminal Nonterminal}
    {w : List Terminal} (h : (contextFree rules a).Derives u (w.map .terminal)) :
    Expands rules u w := by
  -- The induction runs from the end of the derivation, where the form is the word itself.
  induction h using Relation.ReflTransGen.head_induction_on with
  | refl => exact expands_terminals w
  | head hstep _ ih => exact expands_of_produces hstep ih

/-- **A nonterminal derives exactly the words of its derivation trees.** -/
theorem derives_iff_exists_tree {a : Nonterminal} {w : List Terminal} :
    Derives rules a w ↔ ∃ d : DerivationTree, d.root = a ∧ d.Follows rules ∧ d.word = w := by
  constructor
  · intro h
    obtain ⟨d, v, hroot, hd, rfl, rfl⟩ := expands_of_derives h
    exact ⟨d, hroot, hd, (List.append_nil _).symm⟩
  · rintro ⟨d, rfl, hd, rfl⟩
    exact derives_of_follows hd

/-! ### The shape of derived words -/

lemma derives_unit {a : Nonterminal} {t : Terminal} (h : (⟨a, .unit t⟩ : Rule) ∈ rules) :
    Derives rules a [t] :=
  derives_of_follows (d := .unit a t) h

lemma derives_append {a b c : Nonterminal} {u v : List Terminal}
    (h : (⟨a, .binary b c⟩ : Rule) ∈ rules) (hu : Derives rules b u) (hv : Derives rules c v) :
    Derives rules a (u ++ v) := by
  obtain ⟨left, rfl, hleft, rfl⟩ := derives_iff_exists_tree.1 hu
  obtain ⟨right, rfl, hright, rfl⟩ := derives_iff_exists_tree.1 hv
  exact derives_of_follows (d := .binary a left right) ⟨h, hleft, hright⟩

/-- What holds of the letters of unit rules, and of the words of a binary rule if it holds of
the words of both halves, holds of all derived words. -/
@[elab_as_elim]
theorem Derives.induct {motive : ∀ a w, Derives rules a w → Prop}
    (unit : ∀ a t (h : (⟨a, .unit t⟩ : Rule) ∈ rules), motive a [t] (derives_unit h))
    (binary : ∀ a b c u v (h : (⟨a, .binary b c⟩ : Rule) ∈ rules) (hu : Derives rules b u)
      (hv : Derives rules c v), motive b u hu → motive c v hv →
        motive a (u ++ v) (derives_append h hu hv))
    {a : Nonterminal} {w : List Terminal} (h : Derives rules a w) : motive a w h := by
  obtain ⟨d, rfl, hd, rfl⟩ := derives_iff_exists_tree.1 h
  -- The tree is kept and the derivation forgotten, so that the subtrees need none.
  show motive d.root d.word (derives_of_follows hd)
  clear h
  induction d with
  | unit a t => exact unit a t hd
  | binary a left right ihl ihr =>
    obtain ⟨hrule, hleft, hright⟩ := hd
    exact binary a left.root right.root left.word right.word hrule (derives_of_follows hleft)
      (derives_of_follows hright) (ihl hleft) (ihr hright)

/-- **A derived word is a letter of a unit rule or the words of both halves of a binary
rule.** -/
theorem derives_iff {a : Nonterminal} {w : List Terminal} :
    Derives rules a w ↔ (∃ t, (⟨a, .unit t⟩ : Rule) ∈ rules ∧ w = [t]) ∨
      ∃ b c u v, (⟨a, .binary b c⟩ : Rule) ∈ rules ∧ Derives rules b u ∧ Derives rules c v ∧
        w = u ++ v := by
  constructor
  · intro h
    induction h using Derives.induct with
    | unit a t ht => exact Or.inl ⟨t, ht, rfl⟩
    | binary a b c u v hrule hu hv _ _ => exact Or.inr ⟨b, c, u, v, hrule, hu, hv, rfl⟩
  · rintro (⟨t, ht, rfl⟩ | ⟨b, c, u, v, hrule, hu, hv, rfl⟩)
    · exact derives_unit ht
    · exact derives_append hrule hu hv

lemma Derives.ne_nil {a : Nonterminal} {w : List Terminal} (h : Derives rules a w) : w ≠ [] := by
  obtain ⟨d, -, -, rfl⟩ := derives_iff_exists_tree.1 h
  exact d.word_ne_nil

/-- More rules derive more words. -/
lemma Derives.mono {rules' : List Rule} (hsub : ∀ r ∈ rules, r ∈ rules') {a : Nonterminal}
    {w : List Terminal} (h : Derives rules a w) : Derives rules' a w := by
  induction h using Derives.induct with
  | unit a t ht => exact derives_unit (hsub _ ht)
  | binary a b c u v hrule _ _ ihu ihv => exact derives_append (hsub _ hrule) ihu ihv

/-- A nonterminal that derives a word has a rule. -/
lemma Derives.exists_rule {a : Nonterminal} {w : List Terminal} (h : Derives rules a w) :
    ∃ b, (⟨a, b⟩ : Rule) ∈ rules := by
  rcases derives_iff.1 h with ⟨t, ht, -⟩ | ⟨b, c, -, -, hrule, -⟩
  · exact ⟨.unit t, ht⟩
  · exact ⟨.binary b c, hrule⟩

end ChomskyGrammar
