/-
# Lines that are written are read back

A list either holds no separator, or it has a part without one, a separator and a shorter rest
(`firstSeparator_induct`).  Along these two cases the pieces of a list are found to be those of
the library's `List.splitOn`, so parts that are joined by separators are cut apart again.  A text
that is written line by line, each line closed by an end of line, has just these lines
(`textLines_flatMap`), as long as no line holds an end of line or ends with a carriage return.

Parts that are read one after the other are read all together (`mapM_eq_ok_iff`), or the first one
that cannot be read decides (`mapM_eq_error_iff`).
-/
import Mathlib.Data.List.Forall2
import Mathlib.Tactic.Lemma
import ChomskyGrammar.Text.Pieces

namespace ChomskyGrammar

/-- What stands in joined parts is a separator or stands in a part. -/
lemma not_mem_intercalate {α : Type} {sep x : α} {parts : List (List α)} (hsep : x ≠ sep)
    (hparts : ∀ p ∈ parts, x ∉ p) : x ∉ [sep].intercalate parts := by
  induction parts with
  | nil => simp
  | cons p ps ih =>
    have hp := hparts p List.mem_cons_self
    have hps := ih fun q hq => hparts q (List.mem_cons_of_mem p hq)
    cases ps with
    | nil => rwa [List.intercalate_singleton]
    | cons q qs =>
      rw [List.intercalate_cons_cons]
      simp [hp, hsep, hps]

lemma intercalate_ne_nil {α : Type} {sep : α} {parts : List (List α)} (hne : parts ≠ [])
    (hparts : ∀ p ∈ parts, p ≠ []) : [sep].intercalate parts ≠ [] := by
  cases parts with
  | nil => exact absurd rfl hne
  | cons p ps =>
    have hp := hparts p List.mem_cons_self
    cases ps with
    | nil => rwa [List.intercalate_singleton]
    | cons q qs => simp [List.intercalate_cons_cons]

/-! ### Readings one after the other -/

section Readings

variable {α β ε : Type} {f : α → Except ε β} {xs before after : List α} {ys : List β} {x : α}
  {e : ε}

/-- Readings succeed together if each of them succeeds. -/
lemma mapM_eq_ok_iff : xs.mapM f = .ok ys ↔ List.Forall₂ (fun x y => f x = .ok y) xs ys := by
  induction xs generalizing ys with
  | nil => cases ys <;> simp [pure, Except.pure]
  | cons x xs ih =>
    rw [List.mapM_cons]
    cases hx : f x with
    | error e => cases ys <;> simp [hx, bind, Except.bind]
    | ok y =>
      cases hxs : xs.mapM f with
      | error e => cases ys <;> simp [hx, ← ih, hxs, bind, Except.bind]
      | ok zs => cases ys <;> simp [hx, ← ih, hxs, bind, Except.bind, pure, Except.pure]

/-- The first of some readings that fails is reported. -/
lemma mapM_append_cons_error (hbefore : ∀ y ∈ before, ∃ z, f y = .ok z) (hx : f x = .error e) :
    (before ++ x :: after).mapM f = .error e := by
  induction before with
  | nil =>
    rw [List.nil_append, List.mapM_cons, hx]
    rfl
  | cons y ys ih =>
    obtain ⟨⟨z, hz⟩, hbefore⟩ := List.forall_mem_cons.1 hbefore
    rw [List.cons_append, List.mapM_cons, hz, ih hbefore]
    rfl

lemma mapM_eq_error_iff :
    xs.mapM f = .error e ↔ ∃ before x after, xs = before ++ x :: after ∧
      (∀ y ∈ before, ∃ z, f y = .ok z) ∧ f x = .error e := by
  refine ⟨fun h => ?_, fun ⟨before, x, after, hxs, hbefore, hx⟩ =>
    hxs ▸ mapM_append_cons_error hbefore hx⟩
  induction xs with
  | nil => exact absurd h (by simp [pure, Except.pure])
  | cons x xs ih =>
    rw [List.mapM_cons] at h
    cases hx : f x with
    | error e' =>
      rw [hx] at h
      exact ⟨[], x, xs, rfl, by simp, hx.trans (congrArg _ (Except.error.inj h))⟩
    | ok y =>
      have hxs : xs.mapM f = .error e := by
        cases hxs : xs.mapM f with
        | error e' => simpa [hx, hxs, bind, Except.bind] using h
        | ok zs => simp [hx, hxs, bind, Except.bind, pure, Except.pure] at h
      obtain ⟨before, z, after, rfl, hbefore, hz⟩ := ih hxs
      exact ⟨x :: before, z, after, rfl, List.forall_mem_cons.2 ⟨⟨y, hx⟩, hbefore⟩, hz⟩

end Readings

/-- Parts that are read back one by one are read back together. -/
lemma mapM_map_of_forall {α β : Type} {read : β → Option α} {write : α → β} {l : List α}
    (h : ∀ a ∈ l, read (write a) = some a) : (l.map write).mapM read = some l := by
  induction l with
  | nil => rfl
  | cons a l ih =>
    rw [List.map_cons, List.mapM_cons, h a List.mem_cons_self,
      ih fun b hb => h b (List.mem_cons_of_mem a hb)]
    rfl

variable {α : Type} [DecidableEq α] {sep : α}

/-- Induction along the separators of a list. -/
theorem firstSeparator_induct {P : List α → Prop} (sep : α) (last : ∀ xs, sep ∉ xs → P xs)
    (cut : ∀ before after, sep ∉ before → P after → P (before ++ sep :: after)) (xs : List α) :
    P xs := by
  induction hn : xs.length using Nat.strongRecOn generalizing xs with
  | ind n ih =>
    by_cases h : sep ∈ xs
    · obtain ⟨before, after, rfl, hbefore⟩ := List.eq_append_cons_of_mem h
      refine cut before after hbefore (ih after.length ?_ after rfl)
      rw [← hn, List.length_append, List.length_cons]
      omega
    · exact last xs h

lemma pieces_eq_splitOn (sep : α) (xs : List α) : pieces sep xs = xs.splitOn sep := by
  induction xs using firstSeparator_induct sep with
  | last xs h => rw [pieces_of_not_mem h, List.splitOn_eq_singleton h]
  | cut before after h ih =>
    rw [pieces_append_cons h, ih, List.splitOn_append_cons_self_of_not_mem h]

lemma pieces_ne_nil (sep : α) (xs : List α) : pieces sep xs ≠ [] := by
  rw [pieces_eq_splitOn]
  exact List.splitOn_ne_nil sep xs

lemma pieces_intercalate {parts : List (List α)} (hne : parts ≠ [])
    (hparts : ∀ p ∈ parts, sep ∉ p) : pieces sep ([sep].intercalate parts) = parts := by
  rw [pieces_eq_splitOn, List.splitOn_intercalate sep hparts hne]

/-- No piece holds a separator. -/
lemma not_mem_of_mem_pieces {xs p : List α} (hp : p ∈ pieces sep xs) : sep ∉ p := by
  induction xs using firstSeparator_induct sep with
  | last xs h =>
    rw [pieces_of_not_mem h, List.mem_singleton] at hp
    exact hp ▸ h
  | cut before after h ih =>
    rw [pieces_append_cons h] at hp
    rcases List.mem_cons.1 hp with rfl | hp
    · exact h
    · exact ih hp

/-- The pieces of a list make it up again. -/
lemma intercalate_pieces (sep : α) (xs : List α) : [sep].intercalate (pieces sep xs) = xs := by
  rw [pieces_eq_splitOn, List.intercalate_splitOn]

/-- Parts that are all closed by a separator are cut apart again; nothing follows the last one. -/
lemma pieces_flatMap {parts : List (List α)} (hparts : ∀ p ∈ parts, sep ∉ p) :
    pieces sep (parts.flatMap fun p => p ++ [sep]) = parts ++ [[]] := by
  induction parts with
  | nil => exact pieces_of_not_mem List.not_mem_nil
  | cons p ps ih =>
    rw [List.flatMap_cons, List.append_assoc, List.singleton_append,
      pieces_append_cons (hparts p List.mem_cons_self),
      ih fun q hq => hparts q (List.mem_cons_of_mem p hq), List.cons_append]

/-! ### Lines -/

lemma closeLines_cons_cons (ret : α) (line next : List α) (rest : List (List α)) :
    closeLines ret (line :: next :: rest) =
      dropReturn ret line :: closeLines ret (next :: rest) := by
  rw [closeLines]
  simp

/-- A line that is closed by an end of line comes before the lines of the rest. -/
lemma closeLines_pieces_append {ret : α} {line rest : List α} (h : sep ∉ line) :
    closeLines ret (pieces sep (line ++ sep :: rest)) =
      dropReturn ret line :: closeLines ret (pieces sep rest) := by
  rw [pieces_append_cons h]
  obtain ⟨p, ps, hps⟩ := List.exists_cons_of_ne_nil (pieces_ne_nil sep rest)
  rw [hps, closeLines_cons_cons]

lemma dropReturn_of_ne {ret : α} {line : List α} (h : line.getLast? ≠ some ret) :
    dropReturn ret line = line := by
  rw [dropReturn, if_neg h]

/-- A text whose lines are all closed has just these lines. -/
theorem textLines_flatMap {lines : List (List Char)} (hline : ∀ l ∈ lines, '\n' ∉ l)
    (hreturn : ∀ l ∈ lines, l.getLast? ≠ some '\r') :
    textLines (lines.flatMap fun l => l ++ ['\n']) = lines := by
  induction lines with
  | nil =>
    rw [List.flatMap_nil, textLines, pieces_of_not_mem (by simp)]
    rfl
  | cons l ls ih =>
    have hrest := ih (fun m hm => hline m (List.mem_cons_of_mem l hm))
      (fun m hm => hreturn m (List.mem_cons_of_mem l hm))
    rw [List.flatMap_cons, List.append_assoc, List.singleton_append, textLines,
      closeLines_pieces_append (hline l List.mem_cons_self),
      dropReturn_of_ne (hreturn l List.mem_cons_self)]
    exact congrArg (l :: ·) hrest

end ChomskyGrammar
