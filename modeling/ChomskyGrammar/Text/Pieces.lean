/-
# Splitting a list at a separator, and a text into lines

`pieces` cuts a list at every occurrence of a separator.  The lines of a text are its
pieces at the ends of line, with two refinements (`closeLines`): what follows the last end
of line is a line only if there is something, and a carriage return right before an end
of line belongs to that end.  Both work for any kind of element, as a grammar file may be
given as characters or as bytes.
-/

namespace ChomskyGrammar

variable {α : Type}

theorem length_lt_of_dropWhile_eq_cons {p : α → Bool} {xs rest : List α} {x : α}
    (h : xs.dropWhile p = x :: rest) : rest.length < xs.length := by
  have hle : (xs.dropWhile p).length ≤ xs.length := (List.dropWhile_sublist p).length_le
  rw [h, List.length_cons] at hle
  exact hle

theorem dropWhile_eq_nil {p : α → Bool} {xs : List α} (h : ∀ x ∈ xs, p x = true) :
    xs.dropWhile p = [] := by
  induction xs with
  | nil => rfl
  | cons x xs ih =>
    rw [List.dropWhile_cons_of_pos (h x (by simp))]
    exact ih fun y hy => h y (by simp [hy])

variable [DecidableEq α]

/-- The pieces of a list between the occurrences of a separator: always one more than
there are separators. -/
def pieces (sep : α) (xs : List α) : List (List α) :=
  match _h : xs.dropWhile (fun x => decide (x ≠ sep)) with
  | [] => [xs]
  | _ :: rest => xs.takeWhile (fun x => decide (x ≠ sep)) :: pieces sep rest
termination_by xs.length
decreasing_by exact length_lt_of_dropWhile_eq_cons _h

/-- A line without the carriage return at its end, if it has one. -/
def dropReturn (ret : α) (line : List α) : List α :=
  if line.getLast? = some ret then line.dropLast else line

/-- The lines that the pieces of a text stand for: every piece but the last is closed by
an end of line, and the last is a line only if it is not empty. -/
def closeLines (ret : α) : List (List α) → List (List α)
  | [] => []
  | [last] => if last.isEmpty then [] else [last]
  | line :: rest => dropReturn ret line :: closeLines ret rest

/-- The lines of a list of characters. -/
def textLines (cs : List Char) : List (List Char) := closeLines '\r' (pieces '\n' cs)

/-- The lines of a list of bytes. -/
def byteLines (bs : List UInt8) : List (List UInt8) := closeLines 13 (pieces 10 bs)

/-! ### The shape of the pieces -/

theorem pieces_of_not_mem {sep : α} {xs : List α} (h : sep ∉ xs) : pieces sep xs = [xs] := by
  have hd : xs.dropWhile (fun x => decide (x ≠ sep)) = [] := by
    refine dropWhile_eq_nil fun x hx => ?_
    rw [decide_eq_true_eq]
    rintro rfl
    exact h hx
  rw [pieces]
  split
  · rfl
  · rename_i heq
    rw [hd] at heq
    exact absurd heq (by simp)

theorem pieces_append_cons {sep : α} {xs ys : List α} (h : sep ∉ xs) :
    pieces sep (xs ++ sep :: ys) = xs :: pieces sep ys := by
  have hall : ∀ x ∈ xs, decide (x ≠ sep) = true := by
    intro x hx
    rw [decide_eq_true_eq]
    rintro rfl
    exact h hx
  have hd : (xs ++ sep :: ys).dropWhile (fun x => decide (x ≠ sep)) = sep :: ys := by
    rw [List.dropWhile_append_of_pos hall, List.dropWhile_cons_of_neg (by simp)]
  have ht : (xs ++ sep :: ys).takeWhile (fun x => decide (x ≠ sep)) = xs := by
    rw [List.takeWhile_append_of_pos hall, List.takeWhile_cons_of_neg (by simp),
      List.append_nil]
  rw [pieces]
  split
  · rename_i heq
    rw [hd] at heq
    exact absurd heq (by simp)
  · rename_i heq
    rw [hd] at heq
    obtain ⟨rfl, rfl⟩ := List.cons.inj heq
    rw [ht]

end ChomskyGrammar
