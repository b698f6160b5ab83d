/-
# Finite sets in ascending order

Everything a grammar holds is shown in a fixed order: symbols by their code point, the
bodies of a nonterminal binary ones first.  The sets of this library are therefore kept
in that order.  A type whose values are ordered by an injective number is `Ranked`, and a
`SortedSet` is a list of strictly ascending rank.  Two such sets with the same members
are equal (`SortedSet.ext_mem`), so the order in which elements were inserted is lost.
-/

namespace ChomskyGrammar

/-- A type whose values are ordered by an injective number. -/
class Ranked (α : Type) where
  /-- The place of a value in the order. -/
  rank : α → Nat
  /-- Different values have different places. -/
  rank_injective : ∀ a b, rank a = rank b → a = b

/-- A finite set, listed by strictly ascending rank. -/
structure SortedSet (α : Type) [Ranked α] where
  /-- The members, lowest rank first. -/
  toList : List α
  /-- Every member is below all later ones. -/
  ascending : toList.Pairwise fun a b => Ranked.rank a < Ranked.rank b

namespace SortedSet

variable {α : Type} [Ranked α]

instance : Membership α (SortedSet α) := ⟨fun s a => a ∈ s.toList⟩

theorem mem_iff {s : SortedSet α} {a : α} : a ∈ s ↔ a ∈ s.toList := Iff.rfl

instance [DecidableEq α] (a : α) (s : SortedSet α) : Decidable (a ∈ s) :=
  inferInstanceAs (Decidable (a ∈ s.toList))

theorem ext {s t : SortedSet α} (h : s.toList = t.toList) : s = t := by
  cases s
  cases t
  cases h
  rfl

instance [DecidableEq α] : DecidableEq (SortedSet α) := fun s t =>
  decidable_of_iff (s.toList = t.toList) ⟨ext, fun h => h ▸ rfl⟩

/-- The set without members. -/
def empty : SortedSet α := ⟨[], List.Pairwise.nil⟩

instance : Inhabited (SortedSet α) := ⟨empty⟩

@[simp] theorem toList_empty : (empty : SortedSet α).toList = [] := rfl

theorem not_mem_empty (a : α) : a ∉ (empty : SortedSet α) := by
  simp [mem_iff]

/-- The number of members. -/
def size (s : SortedSet α) : Nat := s.toList.length

/-- Whether there are no members. -/
def isEmpty (s : SortedSet α) : Bool := s.toList.isEmpty

/-! ### Insertion -/

/-- Puts an element at its place in an ascending list, once. -/
def place (a : α) : List α → List α
  | [] => [a]
  | b :: bs =>
    if Ranked.rank a < Ranked.rank b then a :: b :: bs
    else if Ranked.rank a = Ranked.rank b then b :: bs
    else b :: place a bs

theorem mem_place {a x : α} {l : List α} : x ∈ place a l ↔ x = a ∨ x ∈ l := by
  induction l with
  | nil => simp [place]
  | cons b bs ih =>
    rw [place]
    split
    · simp
    · split
      · rename_i h
        have hab : a = b := Ranked.rank_injective a b h
        simp [hab]
      · rw [List.mem_cons, ih, List.mem_cons]
        constructor
        · rintro (h | h | h)
          · exact Or.inr (Or.inl h)
          · exact Or.inl h
          · exact Or.inr (Or.inr h)
        · rintro (h | h | h)
          · exact Or.inr (Or.inl h)
          · exact Or.inl h
          · exact Or.inr (Or.inr h)

theorem ascending_place {a : α} {l : List α}
    (h : l.Pairwise fun a b => Ranked.rank a < Ranked.rank b) :
    (place a l).Pairwise fun a b => Ranked.rank a < Ranked.rank b := by
  induction l with
  | nil => simp [place]
  | cons b bs ih =>
    obtain ⟨hb, hbs⟩ := List.pairwise_cons.1 h
    rw [place]
    split
    · rename_i hab
      refine List.pairwise_cons.2 ⟨fun x hx => ?_, h⟩
      rcases List.mem_cons.1 hx with rfl | hx
      · exact hab
      · exact Nat.lt_trans hab (hb x hx)
    · split
      · exact h
      · rename_i hlt hne
        refine List.pairwise_cons.2 ⟨fun x hx => ?_, ih hbs⟩
        rcases mem_place.1 hx with rfl | hx
        · omega
        · exact hb x hx

/-- The set with one element added; a member stays as it is. -/
def insert (s : SortedSet α) (a : α) : SortedSet α :=
  ⟨place a s.toList, ascending_place s.ascending⟩

@[simp] theorem mem_insert {s : SortedSet α} {a x : α} : x ∈ s.insert a ↔ x = a ∨ x ∈ s :=
  mem_place

/-- The set with all elements of a list added. -/
def insertAll (s : SortedSet α) (l : List α) : SortedSet α := l.foldl insert s

@[simp] theorem mem_insertAll {s : SortedSet α} {l : List α} {x : α} :
    x ∈ s.insertAll l ↔ x ∈ l ∨ x ∈ s := by
  rw [insertAll]
  induction l generalizing s with
  | nil => simp
  | cons b bs ih =>
    rw [List.foldl_cons, ih, mem_insert, List.mem_cons]
    constructor
    · rintro (h | h | h)
      · exact Or.inl (Or.inr h)
      · exact Or.inl (Or.inl h)
      · exact Or.inr h
    · rintro ((h | h) | h)
      · exact Or.inr (Or.inl h)
      · exact Or.inl h
      · exact Or.inr (Or.inr h)

/-- The set of the elements of a list. -/
def ofList (l : List α) : SortedSet α := empty.insertAll l

@[simp] theorem mem_ofList {l : List α} {x : α} : x ∈ ofList l ↔ x ∈ l := by
  simp [ofList, not_mem_empty]

/-! ### Extensionality -/

theorem eq_of_mem_iff {l m : List α} (hl : l.Pairwise fun a b => Ranked.rank a < Ranked.rank b)
    (hm : m.Pairwise fun a b => Ranked.rank a < Ranked.rank b) (h : ∀ x, x ∈ l ↔ x ∈ m) :
    l = m := by
  induction l generalizing m with
  | nil =>
    cases m with
    | nil => rfl
    | cons b bs => exact absurd ((h b).2 (by simp)) (by simp)
  | cons a as ih =>
    cases m with
    | nil => exact absurd ((h a).1 (by simp)) (by simp)
    | cons b bs =>
      obtain ⟨ha, has⟩ := List.pairwise_cons.1 hl
      obtain ⟨hb, hbs⟩ := List.pairwise_cons.1 hm
      have hab : a = b := by
        rcases List.mem_cons.1 ((h a).1 (by simp)) with hab | hab
        · exact hab
        · rcases List.mem_cons.1 ((h b).2 (by simp)) with hba | hba
          · exact hba.symm
          · have h₁ := ha b hba
            have h₂ := hb a hab
            omega
      subst hab
      refine congrArg (a :: ·) (ih has hbs fun x => ?_)
      constructor
      · intro hx
        rcases List.mem_cons.1 ((h x).1 (List.mem_cons_of_mem a hx)) with rfl | hx'
        · exact absurd (ha x hx) (Nat.lt_irrefl _)
        · exact hx'
      · intro hx
        rcases List.mem_cons.1 ((h x).2 (List.mem_cons_of_mem a hx)) with rfl | hx'
        · exact absurd (hb x hx) (Nat.lt_irrefl _)
        · exact hx'

/-- A set is determined by its members. -/
theorem ext_mem {s t : SortedSet α} (h : ∀ x, x ∈ s ↔ x ∈ t) : s = t :=
  ext (eq_of_mem_iff s.ascending t.ascending h)

/-- Adding a member changes nothing. -/
theorem insert_eq_self {s : SortedSet α} {a : α} (h : a ∈ s) : s.insert a = s :=
  ext_mem fun x => by
    rw [mem_insert]
    exact ⟨fun hx => hx.elim (fun hxa => hxa ▸ h) id, Or.inr⟩

end SortedSet

end ChomskyGrammar
