/-
# Picks and their draws

A program that picks from a random source can be watched: `Recorded` is a source that hands every
pick on to another one, and writes it down.  As a program can do nothing with a source but pick from
it, it does the same with a recorded one, and leaves behind the picks that it has made.

A pick from a source of numbers makes one draw after the other until one is accepted, and then it
makes no more (`draws_of_choose?`).  So picks in a row make as many draws as there are picks, and
as many more as were rejected (`Pick.Chain.account`).
-/
import ChomskyGrammar.Proofs.Random.Tireless

namespace ChomskyGrammar

/-- A pick: of how many members one was picked, and the source before and after that. -/
structure Pick (σ : Type) where
  count : Nat
  before : σ
  after : σ

/-- A source and the picks that have been made from it, the first one first. -/
structure Recorded (σ : Type) where
  source : σ
  picks : List (Pick σ)

instance {σ : Type} [RandomSource σ] : RandomSource (Recorded σ) where
  choose? s x xs := (RandomSource.choose? s.source x xs).map fun p =>
    (p.1, ⟨p.2, s.picks ++ [⟨(x :: xs).length, s.source, p.2⟩]⟩)
  mem_of_choose? h := by
    obtain ⟨⟨y, s'⟩, hchoose, heq⟩ := Option.map_eq_some_iff.1 h
    exact (Prod.mk.inj heq).1 ▸ RandomSource.mem_of_choose? hchoose

namespace Pick

variable {σ : Type}

/-- Whether a member of a list was picked. -/
def Made [RandomSource σ] (p : Pick σ) : Prop :=
  ∃ (α : Type) (x : α) (xs : List α) (y : α),
    RandomSource.choose? p.before x xs = some (y, p.after) ∧ p.count = (x :: xs).length

/-- Whether picks were made one after the other, between two states of a source. -/
inductive Chain : σ → List (Pick σ) → σ → Prop
  | nil (s : σ) : Chain s [] s
  | cons {p : Pick σ} {ps : List (Pick σ)} {s' : σ} (h : Chain p.after ps s') :
    Chain p.before (p :: ps) s'

lemma Chain.append {s s' s'' : σ} {ps qs : List (Pick σ)} (h : Chain s ps s')
    (h' : Chain s' qs s'') : Chain s (ps ++ qs) s'' := by
  induction h with
  | nil s => exact h'
  | cons _ ih => exact .cons (ih h')

end Pick

namespace Source

variable {s s' s'' : Source} {stream : Nat → UInt32} {k n i j : Nat}

/-! ### Draws -/

/-- Whether a source can become another one by making draws. -/
structure Precedes (s s' : Source) : Prop where
  stream_eq : s'.stream = s.stream
  position_le : s.position ≤ s'.position

lemma Precedes.refl (s : Source) : s.Precedes s := ⟨rfl, Nat.le_refl _⟩

lemma Precedes.trans (h : s.Precedes s') (h' : s'.Precedes s'') : s.Precedes s'' where
  stream_eq := h'.stream_eq.trans h.stream_eq
  position_le := Nat.le_trans h.position_le h'.position_le

/-- The draws that a source makes until it has become another one. -/
def drawsUntil (s s' : Source) : List UInt32 :=
  (List.range' s.position (s'.position - s.position)).map s.stream

/-- The number of draws is the difference of the positions. -/
lemma Precedes.position_eq (h : s.Precedes s') :
    s'.position = s.position + (s.drawsUntil s').length := by
  have hle := h.position_le
  rw [drawsUntil, List.length_map, List.length_range']
  omega

lemma drawsUntil_self (s : Source) : s.drawsUntil s = [] := by
  rw [drawsUntil, Nat.sub_self]
  rfl

lemma drawsUntil_trans (h : s.Precedes s') (h' : s'.Precedes s'') :
    s.drawsUntil s'' = s.drawsUntil s' ++ s'.drawsUntil s'' := by
  have hle := h.position_le
  have hle' := h'.position_le
  have hcount : s''.position - s.position =
      (s'.position - s.position) + (s''.position - s'.position) := by omega
  have hstart : s.position + (s'.position - s.position) = s'.position := by omega
  rw [drawsUntil, drawsUntil, drawsUntil, h.stream_eq, ← List.map_append, hcount,
    ← List.range'_append_1, hstart]

/-! ### One pick -/

/-- The first accepted draw comes after rejected ones only. -/
lemma accepts_of_firstAccepted? (h : firstAccepted? stream k n i = some j) :
    i ≤ j ∧ accepts k (stream j) = true ∧
      ∀ m, i ≤ m → m < j → accepts k (stream m) = false := by
  induction n generalizing i with
  | zero => exact absurd h (by simp [firstAccepted?])
  | succ n ih =>
    rw [firstAccepted?] at h
    split at h
    · rename_i haccepts
      obtain rfl := Option.some.inj h
      exact ⟨Nat.le_refl _, haccepts, fun m hm hm' => by omega⟩
    · rename_i hrejects
      obtain ⟨hle, haccepts, hbetween⟩ := ih h
      refine ⟨by omega, haccepts, fun m hm hm' => ?_⟩
      rcases Nat.eq_or_lt_of_le hm with rfl | hlt
      · exact Bool.eq_false_iff.2 hrejects
      · exact hbetween m hlt hm'

/-- Whether some draws are those of one pick of one out of `k`: rejected ones, and then an
accepted one. -/
def PickDraws (k : Nat) (draws : List UInt32) : Prop :=
  ∃ rejected accepted, draws = rejected ++ [accepted] ∧
    (∀ v ∈ rejected, accepts k v = false) ∧ accepts k accepted = true

/-- **A pick draws until a draw is accepted, and no further.** -/
theorem draws_of_choose? {α : Type} {x y : α} {xs : List α} (h : s.choose? x xs = some (y, s')) :
    s.Precedes s' ∧ PickDraws (x :: xs).length (s.drawsUntil s') := by
  obtain ⟨⟨i, s₁⟩, hpick, heq⟩ := Option.map_eq_some_iff.1 h
  obtain ⟨j, hj, hj'⟩ := Option.map_eq_some_iff.1 hpick
  obtain rfl : s₁ = s' := (Prod.mk.inj heq).2
  obtain ⟨-, rfl⟩ := Prod.mk.inj hj'
  obtain ⟨hle, haccepts, hbetween⟩ := accepts_of_firstAccepted? hj
  refine ⟨⟨rfl, Nat.le_succ_of_le hle⟩, (List.range' s.position (j - s.position)).map s.stream,
    s.stream j, ?_, ?_, haccepts⟩
  · have hcount : j + 1 - s.position = (j - s.position) + 1 := by omega
    have hlast : s.position + (j - s.position) = j := by omega
    rw [drawsUntil, hcount, ← List.range'_append_1, List.map_append, hlast]
    rfl
  · intro v hv
    obtain ⟨m, hm, rfl⟩ := List.mem_map.1 hv
    obtain ⟨hlow, hhigh⟩ := List.mem_range'_1.1 hm
    exact hbetween m hlow (by omega)

end Source

namespace Pick

open Source (Precedes PickDraws accepts drawsUntil_self drawsUntil_trans)

/-! ### Picks in a row -/

variable {p : Pick Source} {ps : List (Pick Source)} {s s' : Source}

/-- The draws of a pick. -/
def draws (p : Pick Source) : List UInt32 := p.before.drawsUntil p.after

/-- The draws that a pick rejects. -/
def rejected (p : Pick Source) : List UInt32 := p.draws.filter fun v => !accepts p.count v

lemma Made.draws (h : p.Made) : p.before.Precedes p.after ∧ PickDraws p.count p.draws := by
  obtain ⟨α, x, xs, y, hchoose, hcount⟩ := h
  rw [hcount]
  exact Source.draws_of_choose? hchoose

lemma Made.length_draws (h : p.Made) : p.draws.length = p.rejected.length + 1 := by
  obtain ⟨-, before, last, hdraws, hbefore, hlast⟩ := h.draws
  have hall : before.filter (fun v => !accepts p.count v) = before :=
    List.filter_eq_self.2 fun v hv => by simp [hbefore v hv]
  have hnone : [last].filter (fun v => !accepts p.count v) = [] := by simp [hlast]
  rw [rejected, hdraws, List.filter_append, hall, hnone, List.append_nil, List.length_append,
    List.length_singleton]

lemma length_flatMap_draws (hmade : ∀ p ∈ ps, p.Made) :
    (ps.flatMap Pick.draws).length = ps.length + (ps.flatMap rejected).length := by
  induction ps with
  | nil => rfl
  | cons p ps ih =>
    obtain ⟨hp, hps⟩ := List.forall_mem_cons.1 hmade
    rw [List.flatMap_cons, List.flatMap_cons, List.length_append, List.length_append,
      hp.length_draws, ih hps, List.length_cons]
    omega

/-- Picks in a row make their draws one after the other, and no others. -/
lemma Chain.draws (h : Chain s ps s') (hmade : ∀ p ∈ ps, p.Made) :
    s.Precedes s' ∧ s.drawsUntil s' = ps.flatMap Pick.draws := by
  induction h with
  | nil s => exact ⟨.refl s, drawsUntil_self s⟩
  | @cons p ps s' _ ih =>
    obtain ⟨hp, hps⟩ := List.forall_mem_cons.1 hmade
    obtain ⟨hrest, hdraws⟩ := ih hps
    have hfirst := hp.draws.1
    refine ⟨hfirst.trans hrest, ?_⟩
    rw [drawsUntil_trans hfirst hrest, hdraws, List.flatMap_cons, Pick.draws]

/-- What becomes of a source by some picks: each of them is made from a list with members, and the
draws are those of the picks one after the other, one for each pick and one for each rejection. -/
structure Account (s : Source) (ps : List (Pick Source)) (s' : Source) : Prop where
  count_pos : ∀ p ∈ ps, 0 < p.count
  pickDraws : ∀ p ∈ ps, PickDraws p.count p.draws
  draws_eq : s.drawsUntil s' = ps.flatMap Pick.draws
  position_eq : s'.position = s.position + ps.length + (ps.flatMap rejected).length

/-- **Picks in a row are accounted for.** -/
theorem Chain.account (h : Chain s ps s') (hmade : ∀ p ∈ ps, p.Made) : Account s ps s' := by
  obtain ⟨hprecedes, hdraws⟩ := h.draws hmade
  refine ⟨fun p hp => ?_, fun p hp => (hmade p hp).draws.2, hdraws, ?_⟩
  · obtain ⟨α, x, xs, y, -, hcount⟩ := hmade p hp
    rw [hcount]
    exact Nat.zero_lt_succ _
  · rw [hprecedes.position_eq, hdraws, length_flatMap_draws hmade, Nat.add_assoc]

/-- A source whose draws are all accepted has no rejections. -/
lemma Chain.rejected_eq_nil (h : Chain s ps s') (hmade : ∀ p ∈ ps, p.Made)
    (haccepts : ∀ k i, accepts k (s.stream i) = true) : ps.flatMap rejected = [] := by
  induction h with
  | nil s => rfl
  | @cons p ps s' _ ih =>
    obtain ⟨hp, hps⟩ := List.forall_mem_cons.1 hmade
    have hnone : p.rejected = [] := by
      refine List.filter_eq_nil_iff.2 fun v hv => ?_
      obtain ⟨i, -, rfl⟩ := List.mem_map.1 hv
      simp [haccepts]
    have hstream : p.after.stream = p.before.stream := hp.draws.1.stream_eq
    rw [List.flatMap_cons, hnone, ih hps (by rw [hstream]; exact haccepts), List.nil_append]

end Pick

end ChomskyGrammar
