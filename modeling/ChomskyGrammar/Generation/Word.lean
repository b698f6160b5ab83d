/-
# Random words

A random word is the word of a random derivation.  Nonterminals are expanded from left to
right, each to a body picked from its eligible ones.  Every pick makes at least one draw,
also where there is a single body.
-/
import ChomskyGrammar.Derivation
import ChomskyGrammar.Generation.Candidate
import ChomskyGrammar.Grammar.Basic
import ChomskyGrammar.Random.Source

namespace ChomskyGrammar

/-- Why no word was made. -/
inductive GenerationError where
  | noStart
  | noRules (c : Char)
  /-- A shortest yield is too large. -/
  | overflow
  /-- The random source ran out of patience. -/
  | stalled
deriving DecidableEq, Repr

namespace GenerationError

/-- The text that tells a user what is wrong. -/
def message : GenerationError → String
  | noStart => "Grammar has no start symbol to generate from"
  | noRules c => s!"No productions for nonterminal `{c}`"
  | overflow => "attempt to add with overflow"
  | stalled => "random source accepts no draw"

end GenerationError

namespace Generation

variable {σ : Type} [RandomSource σ]

/-- Picks a body for a nonterminal at some depth. -/
def pickBody {rules : List Rule} (ys : ShortestYields rules) (maxDepth depth : Nat)
    (a : Nonterminal) (s : σ) : EStateM.Result GenerationError σ Candidate :=
  match eligible maxDepth depth (candidates rules ys.yields a).toList with
  | [] => .error (.noRules a.char) s
  | c :: cs =>
    match RandomSource.choose? s c cs with
    | none => .error .stalled s
    | some (d, s') => .ok d s'

theorem mem_of_pickBody {rules : List Rule} {ys : ShortestYields rules} {maxDepth depth : Nat}
    {a : Nonterminal} {s s' : σ} {c : Candidate}
    (h : pickBody ys maxDepth depth a s = .ok c s') :
    c ∈ eligible maxDepth depth (candidates rules ys.yields a).toList := by
  rw [pickBody] at h
  split at h
  · exact absurd h (by simp)
  · rename_i heq
    split at h
    · exact absurd h (by simp)
    · rename_i d s₁ hd
      obtain ⟨rfl, rfl⟩ := EStateM.Result.ok.inj h
      rw [heq]
      exact RandomSource.mem_of_choose? hd

theorem decreases_of_pickBody {rules : List Rule} {ys : ShortestYields rules}
    {maxDepth depth : Nat} {a b c : Nonterminal} {s s' : σ} {n : Nat}
    (h : pickBody ys maxDepth depth a s = .ok ⟨n, .binary b c⟩ s') (d : Nonterminal)
    (hd : d = b ∨ d = c) :
    Prod.Lex (· < ·) (· < ·) (maxDepth - (depth + 1), (ys.yields.get? d).getD 0)
      (maxDepth - depth, (ys.yields.get? a).getD 0) := by
  rcases Nat.lt_or_ge depth maxDepth with hlt | hge
  · exact Prod.Lex.left _ _ (by omega)
  · have h₀ : maxDepth - (depth + 1) = maxDepth - depth := by omega
    have hy := yield_lt_of_mem_eligible ys hge (mem_of_pickBody h)
    rw [h₀]
    refine Prod.Lex.right _ ?_
    rcases hd with rfl | rfl
    · exact hy.1
    · exact hy.2

/-- Expands a nonterminal at some depth, at random.  The left half of a pair is expanded
before the right half.  A failure leaves the source as it was when it failed. -/
def expand {rules : List Rule} (ys : ShortestYields rules) (maxDepth depth : Nat)
    (a : Nonterminal) (s : σ) : EStateM.Result GenerationError σ DerivationTree :=
  match _h : pickBody ys maxDepth depth a s with
  | .error e s₁ => .error e s₁
  | .ok ⟨_, .unit t⟩ s₁ => .ok (.unit a t) s₁
  | .ok ⟨_, .binary b c⟩ s₁ =>
    match expand ys maxDepth (depth + 1) b s₁ with
    | .error e s₂ => .error e s₂
    | .ok left s₂ =>
      match expand ys maxDepth (depth + 1) c s₂ with
      | .error e s₃ => .error e s₃
      | .ok right s₃ => .ok (.binary a left right) s₃
termination_by (maxDepth - depth, (ys.yields.get? a).getD 0)
decreasing_by
  · exact decreases_of_pickBody _h b (Or.inl rfl)
  · exact decreases_of_pickBody _h c (Or.inr rfl)

/-- A random derivation that starts from a nonterminal. -/
def tree (rules : List Rule) (maxDepth : Nat) (a : Nonterminal) (s : σ) :
    EStateM.Result GenerationError σ DerivationTree :=
  match ShortestYields.compute? rules with
  | none => .error .overflow s
  | some ys => expand ys maxDepth 0 a s

/-- A random word derived from a nonterminal by some rules. -/
def word (rules : List Rule) (maxDepth : Nat) (a : Nonterminal) (s : σ) :
    EStateM.Result GenerationError σ (List Terminal) :=
  match tree rules maxDepth a s with
  | .error e s' => .error e s'
  | .ok d s' => .ok d.word s'

/-- A random word derived by some rules from the start symbol, if there is one. -/
def wordFromStart (rules : List Rule) (start : Option Nonterminal) (maxDepth : Nat) (s : σ) :
    EStateM.Result GenerationError σ (List Terminal) :=
  match start with
  | none => .error .noStart s
  | some a => word rules maxDepth a s

/-- What is made and the source after it, or why nothing is made. -/
def outcome {α : Type} : EStateM.Result GenerationError σ α → Except GenerationError (α × σ)
  | .error e _ => .error e
  | .ok x s => .ok (x, s)

/-- The text of a word. -/
def wordText (w : List Terminal) : String := String.ofList (w.map fun t => t.char)

/-- The depth from which on words are kept short, if nothing else is said. -/
def defaultMaxDepth : Nat := 12

/-- Several words made one after the other. -/
structure Batch where
  words : List String
  /-- Why there are not more of them, if one could not be made. -/
  failure : Option GenerationError
  source : Source

/-- Makes words until there are enough of them or one cannot be made. -/
def batch (make : Source → Except GenerationError (List Terminal × Source)) :
    Nat → Source → Batch
  | 0, s => ⟨[], none, s⟩
  | n + 1, s =>
    match make s with
    | .error e => ⟨[], some e, s⟩
    | .ok (w, s') =>
      let rest := batch make n s'
      ⟨wordText w :: rest.words, rest.failure, rest.source⟩

end Generation

namespace Grammar

variable {σ : Type} [RandomSource σ]

/-- A random word derived from a nonterminal. -/
def generateFrom (g : Grammar) (maxDepth : Nat) (a : Nonterminal) (s : σ) :
    Except GenerationError (List Terminal × σ) :=
  Generation.outcome (Generation.word g.rules.toList maxDepth a s)

/-- A random word derived from the start symbol. -/
def generate (g : Grammar) (maxDepth : Nat) (s : σ) :
    Except GenerationError (List Terminal × σ) :=
  Generation.outcome (Generation.wordFromStart g.rules.toList g.start maxDepth s)

end Grammar

end ChomskyGrammar
