/-
# Batches of random words are complete or empty

The words of a batch are made one after the other, and the first one that cannot be made ends the
batch; so a batch might stop anywhere.  But whether a word can be made from a nonterminal does not
depend on the draws.  A nonterminal that derives a word has a known yield, and so have both halves
of every pair that is picked for it, so that nothing but a pick without end stops its expansion
(`eq_stalled_of_expand`); and a nonterminal without rules has no word whatever the draws are.  So
a batch that is not broken off has all of its words or none of them (`batch_complete_or_empty`).
-/
import ChomskyGrammar.Proofs.Generation.RandomWords

namespace ChomskyGrammar

namespace Generation

/-! ### How an expansion fails -/

section Expansion

variable {σ : Type} [RandomSource σ] {rules : List Rule} {ys : ShortestYields rules}
  {maxDepth depth n : Nat} {a : Nonterminal} {s s' : σ} {e : GenerationError}

/-- A pick fails if there is nothing to pick from, or by going on without end. -/
lemma pickBody_eq_error_cases (hpick : pickBody ys maxDepth depth a s = .error e s') :
    e = .noRules a.char ∧ eligible maxDepth depth (candidates rules ys.yields a).toList = [] ∨
      e = .stalled := by
  rw [pickBody] at hpick
  split at hpick
  · rename_i hnil
    exact .inl ⟨(EStateM.Result.error.inj hpick).1.symm, hnil⟩
  · split at hpick
    · exact .inr (EStateM.Result.error.inj hpick).1.symm
    · exact absurd hpick (by simp)

/-- As there is something to pick from, only a pick without end fails. -/
lemma eq_stalled_of_pickBody (h : ys.yields.get? a = some n)
    (hpick : pickBody ys maxDepth depth a s = .error e s') : e = .stalled := by
  obtain ⟨c, hc⟩ := exists_mem_candidates h
  refine (pickBody_eq_error_cases hpick).resolve_left fun hnone => ?_
  exact eligible_ne_nil (List.ne_nil_of_mem hc) hnone.2

/-- **Expanding a nonterminal with a known yield fails only by a pick without end.** -/
theorem eq_stalled_of_expand (h : ys.yields.get? a = some n)
    (hexpand : expand ys maxDepth depth a s = .error e s') : e = .stalled := by
  -- The expansions of the halves start from known yields, too.
  fun_induction expand ys maxDepth depth a s generalizing n with
  | case1 depth a s e₁ s₁ hpick =>
    obtain ⟨rfl, -⟩ := EStateM.Result.error.inj hexpand
    exact eq_stalled_of_pickBody h hpick
  | case2 => exact absurd hexpand (by simp)
  | case3 depth a s k b c s₁ hpick e₁ s₂ hleft ihleft =>
    obtain ⟨rfl, rfl⟩ := EStateM.Result.error.inj hexpand
    obtain ⟨⟨m, hm⟩, -⟩ := exists_yields_of_pickBody hpick
    exact ihleft hm hleft
  | case4 depth a s k b c s₁ hpick left s₂ hleft e₁ s₃ hright ihleft ihright =>
    obtain ⟨rfl, rfl⟩ := EStateM.Result.error.inj hexpand
    obtain ⟨-, m, hm⟩ := exists_yields_of_pickBody hpick
    exact ihright hm hright
  | case5 => exact absurd hexpand (by simp)

lemma word_eq_error_cases {w : List Terminal} (hw : Derives rules a w)
    (h : word rules maxDepth a s = .error e s') : e = .overflow ∨ e = .stalled := by
  rw [word] at h
  split at h
  · rename_i e₁ s₁ htree
    obtain ⟨rfl, -⟩ := EStateM.Result.error.inj h
    rw [tree] at htree
    split at htree
    · exact .inl (EStateM.Result.error.inj htree).1.symm
    · rename_i ys _
      obtain ⟨n, hn, -⟩ := ys.exists_yield_le_of_derives hw
      exact .inr (eq_stalled_of_expand hn htree)
  · exact absurd h (by simp)

end Expansion

/-! ### Outcomes -/

lemma outcome_eq_ok_iff {σ α : Type} {r : EStateM.Result GenerationError σ α} {v : α} {s : σ} :
    outcome r = .ok (v, s) ↔ r = .ok v s := by
  cases r <;> simp [outcome]

lemma outcome_eq_error_iff {σ α : Type} {r : EStateM.Result GenerationError σ α}
    {e : GenerationError} : outcome r = .error e ↔ ∃ s, r = .error e s := by
  cases r <;> simp [outcome]

/-! ### Batches -/

/-- Whether a batch is not broken off: neither is a length too large, nor does a pick go on
without end. -/
def Batch.Ends (b : Batch) : Prop := b.failure ≠ some .overflow ∧ b.failure ≠ some .stalled

lemma batch_of_error {make : Source → Except GenerationError (List Terminal × Source)}
    {s : Source} {e : GenerationError} (h : make s = .error e) (n : Nat) :
    batch make (n + 1) s = ⟨[], some e, s⟩ := by
  rw [batch, h]

/-- The words of a batch are all made, and if there are not enough of them, the next one has
failed. -/
lemma batch_cases (make : Source → Except GenerationError (List Terminal × Source)) (n : Nat)
    (s : Source) :
    ∃ ws : List (List Terminal), (batch make n s).words = ws.map wordText ∧
      (∀ w ∈ ws, ∃ s₁ s₂, make s₁ = .ok (w, s₂)) ∧
      ((batch make n s).failure = none ∧ ws.length = n ∨
        ∃ e s₁, (batch make n s).failure = some e ∧ make s₁ = .error e) := by
  induction n generalizing s with
  | zero => exact ⟨[], rfl, by simp, .inl ⟨rfl, rfl⟩⟩
  | succ n ih =>
    rw [batch]
    cases hmake : make s with
    | error e => exact ⟨[], rfl, by simp, .inr ⟨e, s, rfl, hmake⟩⟩
    | ok p =>
      obtain ⟨w, s'⟩ := p
      obtain ⟨ws, hws, hmade, hfailure⟩ := ih s'
      refine ⟨w :: ws, by simp [hws], ?_, ?_⟩
      · exact List.forall_mem_cons.2 ⟨⟨s, s', hmake⟩, hmade⟩
      · rcases hfailure with ⟨hnone, hlength⟩ | ⟨e, s₁, he, hmake₁⟩
        · exact .inl ⟨hnone, by simp [hlength]⟩
        · exact .inr ⟨e, s₁, he, hmake₁⟩

end Generation

namespace Grammar

open Generation (batch batch_cases batch_of_error derives_of_word outcome_eq_error_iff
  outcome_eq_ok_iff wordFromStart wordText word_eq_error_cases)

variable {g : Grammar} {maxDepth : Nat}

/-- Whether a grammar has something to make words from: a start symbol with rules. -/
def Generates (g : Grammar) : Prop := ∃ a, g.start = some a ∧ a ∈ g.heads

/-- What is wrong with a grammar that has nothing to make words from. -/
def generationRefusal (g : Grammar) : GenerationError :=
  match g.start with
  | none => .noStart
  | some a => .noRules a.char

/-! ### Words of a grammar -/

lemma derives_of_generate {σ : Type} [RandomSource σ] {x x' : σ} {w : List Terminal}
    (h : g.generate maxDepth x = .ok (w, x')) :
    ∃ a, g.start = some a ∧ Derives g.rules.toList a w := by
  have hword := outcome_eq_ok_iff.1 h
  cases hs : g.start with
  | none =>
    rw [hs] at hword
    exact absurd hword (by simp [wordFromStart])
  | some a =>
    rw [hs] at hword
    exact ⟨a, rfl, derives_of_word hword⟩

/-- A grammar with something to make words from fails for no reason of its own. -/
lemma WellFormed.generate_eq_error_cases {σ : Type} [RandomSource σ] {x : σ}
    {e : GenerationError} (hg : g.WellFormed) (hgen : g.Generates)
    (h : g.generate maxDepth x = .error e) : e = .overflow ∨ e = .stalled := by
  obtain ⟨a, hs, ha⟩ := hgen
  obtain ⟨w, hw⟩ := hg.productive a ha
  obtain ⟨x', hword⟩ := outcome_eq_error_iff.1 h
  rw [hs] at hword
  exact word_eq_error_cases hw hword

/-- A grammar without anything to make words from makes none. -/
lemma generate_of_not_generates {σ : Type} [RandomSource σ] (hgen : ¬g.Generates)
    (maxDepth : Nat) (x : σ) :
    g.generate maxDepth x = .error g.generationRefusal ∨
      g.generate maxDepth x = .error .overflow := by
  rw [generate, generationRefusal, outcome_eq_error_iff, outcome_eq_error_iff]
  cases hs : g.start with
  | none => exact .inl ⟨x, rfl⟩
  | some a =>
    have ha : a ∉ g.heads := fun ha => hgen ⟨a, hs, ha⟩
    by_cases hys : ShortestYields.compute? g.rules.toList = none
    · exact .inr ⟨x, by simp [wordFromStart, Generation.word, Generation.tree, hys]⟩
    · exact .inl ⟨x, word_of_not_mem_heads (fun _ => Iff.rfl) hys ha⟩

/-- **A batch is complete or empty.**  A batch of words of a well-formed grammar that is not broken
off has all of its words if there is something to make them from, and otherwise none; the start
symbol derives each of them. -/
theorem WellFormed.batch_complete_or_empty (hg : g.WellFormed) (maxDepth n : Nat) (x : Source)
    (hends : (batch (g.generate maxDepth) n x).Ends) :
    ∃ ws : List (List Terminal), (batch (g.generate maxDepth) n x).words = ws.map wordText ∧
      (∀ w ∈ ws, ∃ a, g.start = some a ∧ Derives g.rules.toList a w) ∧
      ((n = 0 ∨ g.Generates) ∧ (batch (g.generate maxDepth) n x).failure = none ∧ ws.length = n ∨
        (¬(n = 0 ∨ g.Generates)) ∧
          (batch (g.generate maxDepth) n x).failure = some g.generationRefusal ∧ ws = []) := by
  by_cases hgen : n = 0 ∨ g.Generates
  · obtain ⟨ws, hws, hmade, hfailure⟩ := batch_cases (g.generate maxDepth) n x
    have hderived : ∀ w ∈ ws, ∃ a, g.start = some a ∧ Derives g.rules.toList a w := by
      intro w hw
      obtain ⟨x₁, x₂, hmake⟩ := hmade w hw
      exact derives_of_generate hmake
    refine ⟨ws, hws, hderived, .inl ⟨hgen, ?_⟩⟩
    rcases hfailure with h | ⟨e, x₁, he, hmake⟩
    · exact h
    · rcases hgen with rfl | hgen
      · exact absurd he (by simp [batch])
      · -- The failure would be one that breaks the batch off.
        rcases hg.generate_eq_error_cases hgen hmake with rfl | rfl
        · exact absurd he hends.1
        · exact absurd he hends.2
  · obtain ⟨hn, hnone⟩ := not_or.1 hgen
    obtain ⟨m, rfl⟩ := Nat.exists_eq_succ_of_ne_zero hn
    rcases generate_of_not_generates hnone maxDepth x with hmake | hmake
    · exact ⟨[], by rw [batch_of_error hmake]; rfl, by simp,
        .inr ⟨hgen, by rw [batch_of_error hmake], rfl⟩⟩
    · exact absurd (by rw [batch_of_error hmake]) hends.1

end Grammar

end ChomskyGrammar
