/-
# Sources that do not stall

A pick from a random source may never come to an end.  A source is tireless if this does not
happen, neither to its first pick nor to any later one.  A source of numbers is tireless if all
of its draws are accepted (`tireless_of_accepts`), for instance if they are all zero.
-/
import Mathlib.Logic.Relation
import ChomskyGrammar.Random.Source

namespace ChomskyGrammar

namespace RandomSource

variable {σ : Type} [RandomSource σ]

/-- Whether a pick leads from one state to another. -/
def Picked (s s' : σ) : Prop :=
  ∃ (α : Type) (x : α) (xs : List α) (y : α), choose? s x xs = some (y, s')

/-- A source whose picks all come to an end, also after any number of other picks. -/
def Tireless (s : σ) : Prop :=
  ∀ s', Relation.ReflTransGen Picked s s' →
    ∀ {α : Type} (x : α) (xs : List α), choose? s' x xs ≠ none

lemma Tireless.exists_pick {s : σ} (hs : Tireless s) {α : Type} (x : α) (xs : List α) :
    ∃ y s', choose? s x xs = some (y, s') ∧ Tireless s' := by
  obtain ⟨⟨y, s'⟩, h⟩ := Option.ne_none_iff_exists'.1 (hs s .refl x xs)
  refine ⟨y, s', h, fun s'' hs'' => hs s'' ?_⟩
  exact .head ⟨α, x, xs, y, h⟩ hs''

end RandomSource

/-! ### Sources of numbers -/

namespace Source

open RandomSource (Picked Tireless)

lemma firstAccepted?_of_accepts {stream : Nat → UInt32} {k n i : Nat} (hn : 0 < n)
    (h : accepts k (stream i) = true) : firstAccepted? stream k n i = some i := by
  cases n with
  | zero => exact absurd hn (Nat.lt_irrefl 0)
  | succ n => rw [firstAccepted?, if_pos h]

/-- Picks move a source on, but do not change its draws. -/
lemma eq_of_picked {s s' : Source} (h : Picked s s') :
    s'.stream = s.stream ∧ s'.patience = s.patience := by
  obtain ⟨α, x, xs, y, h⟩ := h
  obtain ⟨⟨i, s₁⟩, hpick, heq⟩ := Option.map_eq_some_iff.1 h
  obtain ⟨j, -, hj⟩ := Option.map_eq_some_iff.1 hpick
  obtain rfl : s₁ = s' := (Prod.mk.inj heq).2
  rw [← (Prod.mk.inj hj).2]
  exact ⟨rfl, rfl⟩

/-- A source with some patience whose draws are all accepted is tireless. -/
lemma tireless_of_accepts {s : Source} (hp : 0 < s.patience)
    (h : ∀ k i, accepts k (s.stream i) = true) : Tireless s := by
  intro s' hs' α x xs
  have hsame : s'.stream = s.stream ∧ s'.patience = s.patience := by
    induction hs' with
    | refl => exact ⟨rfl, rfl⟩
    | tail _ hpick ih =>
      have hlast := eq_of_picked hpick
      exact ⟨hlast.1.trans ih.1, hlast.2.trans ih.2⟩
  have hfirst : firstAccepted? s'.stream (x :: xs).length s'.patience s'.position =
      some s'.position := by
    refine firstAccepted?_of_accepts (hsame.2 ▸ hp) ?_
    rw [hsame.1]
    exact h _ _
  show s'.choose? x xs ≠ none
  rw [choose?, pick?, hfirst]
  simp

/-- A draw of zero is accepted by every pick. -/
lemma accepts_scripted_nil (k i : Nat) : accepts k ((scripted []).stream i) = true := by
  show accepts k 0 = true
  simp [accepts]

/-- The source that draws nothing but zeros is tireless. -/
lemma tireless_scripted_nil : Tireless (scripted []) :=
  tireless_of_accepts (by decide) accepts_scripted_nil

end Source

end ChomskyGrammar
