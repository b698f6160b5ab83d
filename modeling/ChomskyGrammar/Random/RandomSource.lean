/-
# Random sources

The making of random words does not depend on where randomness comes from.  All it asks of
a source is that members of lists can be picked from it, one after the other; a pick may
also never come to an end.
-/

namespace ChomskyGrammar

/-- A type of states from which members of lists can be picked at random. -/
class RandomSource (σ : Type) where
  /-- One member of the list `x :: xs` and the state after the pick; nothing if the pick
  does not come to an end. -/
  choose? {α : Type} (s : σ) (x : α) (xs : List α) : Option (α × σ)
  /-- What is picked is in the list. -/
  mem_of_choose? {α : Type} {s s' : σ} {x y : α} {xs : List α}
    (h : choose? s x xs = some (y, s')) : y ∈ x :: xs

end ChomskyGrammar
