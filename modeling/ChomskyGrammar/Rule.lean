/-
# Rules in Chomsky normal form

A rule expands its head to its body, which is either a pair of nonterminals or one
terminal.  Bodies are ordered with all pairs before all terminals, the pairs by their left
and then their right symbol; rules by their head and then their body.  The rank of a pair
reads its two code points as the digits of a number.
-/
import ChomskyGrammar.Symbol

namespace ChomskyGrammar

/-- What a rule expands its head to. -/
inductive Body where
  /-- Two nonterminals, one after the other. -/
  | binary (left right : Nonterminal)
  /-- One terminal. -/
  | unit (t : Terminal)
deriving DecidableEq

/-- A rule `head ::= body`. -/
structure Rule where
  head : Nonterminal
  body : Body
deriving DecidableEq

/-- The number of code points, a bound on the rank of every symbol. -/
def codePointCount : Nat := 0x110000

theorem toNat_lt_codePointCount (c : Char) : c.toNat < codePointCount := by
  have h : c.val.toNat < 0x110000 := by
    rcases c.valid with h | h
    · exact Nat.lt_trans h (by decide)
    · exact h.2
  exact h

theorem eq_and_eq_of_mul_add_eq {k a b c d : Nat} (hb : b < k) (hd : d < k)
    (h : a * k + b = c * k + d) : a = c ∧ b = d := by
  have hk : 0 < k := Nat.lt_of_le_of_lt (Nat.zero_le b) hb
  have ha : (a * k + b) / k = a := by
    rw [Nat.mul_comm, Nat.mul_add_div hk, Nat.div_eq_of_lt hb, Nat.add_zero]
  have hc : (c * k + d) / k = c := by
    rw [Nat.mul_comm, Nat.mul_add_div hk, Nat.div_eq_of_lt hd, Nat.add_zero]
  have hac : a = c := by rw [← ha, ← hc, h]
  subst hac
  exact ⟨rfl, Nat.add_left_cancel h⟩

namespace Body

/-- One more than the highest possible rank of a body. -/
def rankBound : Nat := codePointCount * codePointCount + codePointCount

/-- The place of a body in the order of bodies. -/
def rank : Body → Nat
  | binary l r => l.char.toNat * codePointCount + r.char.toNat
  | unit t => codePointCount * codePointCount + t.char.toNat

theorem rank_binary_lt (l r : Nonterminal) :
    (binary l r).rank < codePointCount * codePointCount := by
  have hl := toNat_lt_codePointCount l.char
  have hr := toNat_lt_codePointCount r.char
  calc l.char.toNat * codePointCount + r.char.toNat
      < l.char.toNat * codePointCount + codePointCount := Nat.add_lt_add_left hr _
    _ = (l.char.toNat + 1) * codePointCount := (Nat.succ_mul _ _).symm
    _ ≤ codePointCount * codePointCount := Nat.mul_le_mul_right _ hl

theorem rank_lt_rankBound (b : Body) : b.rank < rankBound := by
  cases b with
  | binary l r => exact Nat.lt_of_lt_of_le (rank_binary_lt l r) (Nat.le_add_right _ _)
  | unit t => exact Nat.add_lt_add_left (toNat_lt_codePointCount t.char) _

theorem rank_inj {b c : Body} (h : b.rank = c.rank) : b = c := by
  cases b with
  | binary l r =>
    cases c with
    | binary l' r' =>
      obtain ⟨h₁, h₂⟩ := eq_and_eq_of_mul_add_eq (toNat_lt_codePointCount r.char)
        (toNat_lt_codePointCount r'.char) h
      rw [Ranked.rank_injective l l' h₁, Ranked.rank_injective r r' h₂]
    | unit t =>
      have h₁ := rank_binary_lt l r
      rw [h] at h₁
      exact absurd h₁ (Nat.not_lt.2 (Nat.le_add_right _ _))
  | unit t =>
    cases c with
    | binary l r =>
      have h₁ := rank_binary_lt l r
      rw [← h] at h₁
      exact absurd h₁ (Nat.not_lt.2 (Nat.le_add_right _ _))
    | unit t' => rw [Ranked.rank_injective t t' (Nat.add_left_cancel h)]

instance : Ranked Body := ⟨rank, fun _ _ => rank_inj⟩

/-- The symbols of the body, as they are written. -/
def chars : Body → List Char
  | binary l r => [l.char, r.char]
  | unit t => [t.char]

/-- The text of the body: its symbols, one after the other. -/
def text (b : Body) : String := String.ofList b.chars

/-- A list of bodies in their order, repetitions kept. -/
def sort (bs : List Body) : List Body := bs.mergeSort fun b c => decide (b.rank ≤ c.rank)

end Body

namespace Rule

/-- Rules are ordered by head and then by body. -/
instance : Ranked Rule where
  rank r := r.head.char.toNat * Body.rankBound + r.body.rank
  rank_injective := by
    rintro ⟨a, b⟩ ⟨c, d⟩ h
    obtain ⟨h₁, h₂⟩ := eq_and_eq_of_mul_add_eq (Body.rank_lt_rankBound b)
      (Body.rank_lt_rankBound d) h
    rw [Ranked.rank_injective a c h₁, Body.rank_inj h₂]

end Rule

end ChomskyGrammar
