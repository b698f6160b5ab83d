/-
# Sources of random numbers

A source is an endless stream of 32-bit draws and a position in it.  To pick one of `k`
things, a draw `v` is read as the fraction `v / 2^32`, and the pick is the whole part of
`k * v / 2^32`.  Not every draw is accepted: the fractional part has to lie in a zone whose
size is the largest `k * 2^e` that fits into 32 bits, and a draw outside is passed over.  A
source has a patience, the number of draws one pick may look at, so that a pick from any source
comes to an end.
-/
import ChomskyGrammar.Random.ChaCha
import ChomskyGrammar.Random.RandomSource

namespace ChomskyGrammar

/-- A source of random numbers. -/
structure Source where
  stream : Nat → UInt32
  /-- The number of draws that have been made. -/
  position : Nat
  /-- The number of draws that one pick may look at. -/
  patience : Nat

namespace Source

/-- A patience that no run of a program can exhaust. -/
def longPatience : Nat := 0x4000000000000000

/-- The number of different draws. -/
def drawCount : Nat := 0x100000000

/-- The largest fractional part of an accepted draw, for picks of one out of `k`: `k`
shifted to the left until its highest bit is that of a 32-bit word, less one. -/
def zone (k : Nat) : Nat := k <<< (31 - Nat.log2 k) - 1

/-- Whether a draw is accepted for picks of one out of `k`. -/
def accepts (k : Nat) (v : UInt32) : Bool := decide (v.toNat * k % drawCount ≤ zone k)

/-- The place, from a given one on, of the first of some draws that is accepted. -/
def firstAccepted? (stream : Nat → UInt32) (k : Nat) : Nat → Nat → Option Nat
  | 0, _ => none
  | n + 1, i => if accepts k (stream i) then some i else firstAccepted? stream k n (i + 1)

theorem pick_lt {k : Nat} (hk : 0 < k) (v : UInt32) : v.toNat * k / drawCount < k := by
  rw [Nat.div_lt_iff_lt_mul (by decide), Nat.mul_comm k]
  exact Nat.mul_lt_mul_of_pos_right v.toNat_lt hk

/-- One of the numbers below `k`, and the source after it; nothing if patience runs out. -/
def pick? (s : Source) (k : Nat) (hk : 0 < k) : Option (Fin k × Source) :=
  (firstAccepted? s.stream k s.patience s.position).map fun i =>
    (⟨(s.stream i).toNat * k / drawCount, pick_lt hk _⟩, { s with position := i + 1 })

/-- One member of a list that is not empty. -/
def choose? {α : Type} (s : Source) (x : α) (xs : List α) : Option (α × Source) :=
  (s.pick? (x :: xs).length (Nat.zero_lt_succ _)).map fun p => ((x :: xs).get p.1, p.2)

theorem mem_of_choose? {α : Type} {s s' : Source} {x y : α} {xs : List α}
    (h : s.choose? x xs = some (y, s')) : y ∈ x :: xs := by
  rw [choose?] at h
  rw [Option.map_eq_some_iff] at h
  obtain ⟨p, -, hp⟩ := h
  rw [← (Prod.mk.inj hp).1]
  exact List.get_mem _ _

instance : RandomSource Source := ⟨choose?, mem_of_choose?⟩

/-! ### Kinds of source -/

/-- The source that makes the given draws, and then draws zero for ever. -/
def scripted (draws : List UInt32) : Source :=
  let script := draws.toArray
  ⟨fun i => script.getD i 0, 0, longPatience⟩

/-- One step of the generator that stretches a seed to a key. -/
def stretch (state : UInt64) : UInt64 := state * 6364136223846793005 + 11634580027462260723

/-- The word that a state of that generator puts out: some of its bits, rotated to the
right by as much as its highest five bits say. -/
def stretchedWord (state : UInt64) : UInt32 :=
  let x := (((state >>> 18) ^^^ state) >>> 27).toUInt32
  let r := (state >>> 59).toUInt32
  -- A rotation by zero shifts by zero both ways.
  (x >>> r) ||| (x <<< ((32 - r) % 32))

/-- The word of the key that comes out after `i` others. -/
def keyWord (seed : UInt64) (i : Nat) : UInt32 := stretchedWord (Nat.repeat stretch (i + 1) seed)

/-- The key that a seed is stretched to. -/
def keyOfSeed (seed : UInt64) : ChaCha.Key :=
  ⟨⟨keyWord seed 0, keyWord seed 1, keyWord seed 2, keyWord seed 3⟩,
    ⟨keyWord seed 4, keyWord seed 5, keyWord seed 6, keyWord seed 7⟩⟩

/-- The source that a seed determines. -/
def seeded (seed : UInt64) : Source :=
  let key := keyOfSeed seed
  ⟨ChaCha.keyStream key, 0, longPatience⟩

/-- A number stands for the source that it determines as a seed. -/
instance (n : Nat) : OfNat Source n := ⟨seeded (UInt64.ofNat n)⟩

end Source

end ChomskyGrammar
