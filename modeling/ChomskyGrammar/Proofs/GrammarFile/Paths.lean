/-
# Spellings of a path

Two paths are the same if they have the same components.  A path has many spellings: a separator
may be repeated, a `.` may stand between separators or at the end, and a separator may end the path.
Leaving out one of these (`LeavesOut`) does not change the components, and whatever the path is, it
can be brought into a spelling that depends on its components only (`respelled_spelling`).  So two
paths are the same exactly if one of them is got from the other by leaving out and putting in such
characters (`ofPath_eq_iff`).  A `.` at the start of a relative path is not one of them.
-/
import Mathlib.Logic.Relation
import ChomskyGrammar.GrammarFile.Location
import ChomskyGrammar.Proofs.Text.Lines

namespace ChomskyGrammar

/-- The pieces before and after a separator. -/
lemma pieces_append_sep {α : Type} [DecidableEq α] (sep : α) (xs ys : List α) :
    pieces sep (xs ++ sep :: ys) = pieces sep xs ++ pieces sep ys := by
  induction xs using firstSeparator_induct sep with
  | last xs h => rw [pieces_append_cons h, pieces_of_not_mem h, List.singleton_append]
  | cut before after h ih =>
    rw [List.append_assoc, List.cons_append, pieces_append_cons h, ih, pieces_append_cons h,
      List.cons_append]

/-- A list is its first piece, and its other pieces with a separator before each of them. -/
lemma exists_pieces_eq {α : Type} [DecidableEq α] (sep : α) (xs : List α) :
    ∃ first rest, pieces sep xs = first :: rest ∧ xs = first ++ rest.flatMap fun p => sep :: p := by
  induction xs using firstSeparator_induct sep with
  | last xs h => exact ⟨xs, [], pieces_of_not_mem h, by simp⟩
  | cut before after h ih =>
    obtain ⟨first, rest, hpieces, hafter⟩ := ih
    refine ⟨before, first :: rest, by rw [pieces_append_cons h, hpieces], ?_⟩
    rw [List.flatMap_cons, List.cons_append, ← hafter]

namespace PathComponents

open Relation (EqvGen)

/-- The components of a path whose pieces are known.  The first piece counts unless it is empty, and
then the path starts at the root, if there is another piece. -/
lemma ofPath_of_pieces {path : String} {first : List Char} {rest : List (List Char)}
    (h : pieces '/' path.toList = first :: rest) :
    ofPath path = ⟨decide (first = [] ∧ rest ≠ []),
      (if first = [] then [] else [first]) ++ rest.filter isName⟩ := by
  rw [ofPath, h]
  split
  · rename_i heq
    obtain ⟨rfl, rfl⟩ := List.cons.inj heq
    rfl
  · rename_i heq
    obtain ⟨rfl, rfl⟩ := List.cons.inj heq
    simp
  · rename_i hdot hroot
    cases first with
    | nil =>
      cases rest with
      | nil => simp [isName]
      | cons p ps => exact absurd rfl (hroot p ps)
    | cons c cs =>
      have hname : isName (c :: cs) = true := by
        have hne : c :: cs ≠ ['.'] := fun heq => hdot rest (by rw [heq])
        simp [isName, hne]
      simp [hname]

/-- Whether a path without one of its redundant characters is another path. -/
inductive LeavesOut : List Char → List Char → Prop
  /-- A separator after a separator. -/
  | separator (before after : List Char) :
    LeavesOut (before ++ '/' :: '/' :: after) (before ++ '/' :: after)
  /-- A component `.`, if it is not the first piece. -/
  | dot (before after : List Char) (h : ∀ c ∈ after.head?, c = '/') :
    LeavesOut (before ++ '/' :: '.' :: after) (before ++ '/' :: after)
  /-- A separator at the end, if it is not the whole path. -/
  | last (before : List Char) (h : before ≠ []) : LeavesOut (before ++ ['/']) before

/-! ### Redundant characters do not count -/

variable {before after after' cs ds : List Char} {p q : String}

/-- What follows a separator counts by its names only. -/
lemma ofPath_append_sep
    (h : (pieces '/' after).filter isName = (pieces '/' after').filter isName) :
    ofPath (String.ofList (before ++ '/' :: after)) =
      ofPath (String.ofList (before ++ '/' :: after')) := by
  obtain ⟨first, rest, hbefore, -⟩ := exists_pieces_eq '/' before
  have hpieces : ∀ xs, pieces '/' (String.ofList (before ++ '/' :: xs)).toList =
      first :: (rest ++ pieces '/' xs) := by
    intro xs
    rw [String.toList_ofList, pieces_append_sep, hbefore, List.cons_append]
  have hne : ∀ xs, rest ++ pieces '/' xs ≠ [] := fun xs =>
    List.append_ne_nil_of_right_ne_nil rest (pieces_ne_nil '/' xs)
  rw [ofPath_of_pieces (hpieces after), ofPath_of_pieces (hpieces after')]
  simp only [List.filter_append, h, ne_eq, hne]

/-- Leaving out a redundant character keeps the components. -/
lemma LeavesOut.ofPath_eq (h : LeavesOut cs ds) :
    ofPath (String.ofList cs) = ofPath (String.ofList ds) := by
  have hcut : ∀ xs, pieces '/' ('/' :: xs) = [] :: pieces '/' xs := fun xs => by
    rw [← List.nil_append ('/' :: xs), pieces_append_cons List.not_mem_nil]
  cases h with
  | separator before after =>
    refine ofPath_append_sep ?_
    rw [hcut, List.filter_cons_of_neg (by simp [isName])]
  | dot before after h =>
    refine ofPath_append_sep ?_
    cases after with
    | nil => decide +kernel
    | cons c after =>
      obtain rfl : c = '/' := h c rfl
      have hdot : pieces '/' (['.'] ++ '/' :: after) = ['.'] :: pieces '/' after :=
        pieces_append_cons (by simp)
      rw [List.singleton_append] at hdot
      rw [hdot, hcut, List.filter_cons_of_neg (by simp [isName]),
        List.filter_cons_of_neg (by simp [isName])]
  | last before h =>
    obtain ⟨first, rest, hpieces, heq⟩ := exists_pieces_eq '/' ds
    have hlast : pieces '/' (String.ofList (ds ++ ['/'])).toList = first :: (rest ++ [[]]) := by
      rw [String.toList_ofList, pieces_append_sep, hpieces, pieces_of_not_mem List.not_mem_nil,
        List.cons_append]
    have hds : pieces '/' (String.ofList ds).toList = first :: rest := by
      rw [String.toList_ofList, hpieces]
    -- An empty first piece is followed by another one, as there is a character.
    have hroot : first = [] → rest ≠ [] := by
      rintro rfl rfl
      exact h heq
    rw [ofPath_of_pieces hlast, ofPath_of_pieces hds, List.filter_append]
    by_cases hfirst : first = []
    · simp [hfirst, hroot hfirst, isName]
    · simp [hfirst, isName]

lemma ofPath_eq_of_eqvGen (h : EqvGen LeavesOut cs ds) :
    ofPath (String.ofList cs) = ofPath (String.ofList ds) := by
  induction h with
  | rel _ _ h => exact h.ofPath_eq
  | refl _ => rfl
  | symm _ _ _ ih => exact ih.symm
  | trans _ _ _ _ _ ih ih' => exact ih.trans ih'

/-! ### A spelling for each list of components -/

/-- The shortest spelling of a path with given components. -/
def spelling (c : PathComponents) : List Char :=
  match c.names with
  | [] => if c.absolute then ['/'] else []
  | name :: names =>
    (if c.absolute then ['/'] else []) ++ name ++ names.flatMap fun n => '/' :: n

lemma eq_nil_or_dot_of_not_isName {piece : List Char} (h : isName piece = false) :
    piece = [] ∨ piece = ['.'] := by
  by_contra hne
  rw [not_or] at hne
  simp [isName, hne.1, hne.2] at h

variable {piece : List Char} {rest : List (List Char)}

/-- A `.` after a separator can be left out, so that an empty piece remains. -/
lemma eqvGen_empty (hpiece : isName piece = false) (before : List Char) (rest : List (List Char)) :
    EqvGen LeavesOut (before ++ '/' :: (piece ++ rest.flatMap fun p => '/' :: p))
      (before ++ '/' :: rest.flatMap fun p => '/' :: p) := by
  rcases eq_nil_or_dot_of_not_isName hpiece with rfl | rfl
  · exact .refl _
  · refine .rel _ _ (.dot before _ ?_)
    cases rest <;> simp

/-- A piece that does not count can be left out together with the separator before it, if it has
something before or after it. -/
lemma eqvGen_skip (hpiece : isName piece = false) (h : before ≠ [] ∨ rest ≠ []) :
    EqvGen LeavesOut (before ++ (piece :: rest).flatMap fun p => '/' :: p)
      (before ++ rest.flatMap fun p => '/' :: p) := by
  refine (eqvGen_empty hpiece before rest).trans _ _ _ ?_
  cases rest with
  | nil =>
    have hlast := LeavesOut.last before (h.resolve_right (by simp))
    exact .rel _ _ (by simpa using hlast)
  | cons p ps => exact .rel _ _ (.separator before (p ++ ps.flatMap fun p => '/' :: p))

/-- After a beginning, all pieces that do not count can be left out. -/
lemma eqvGen_filter (hbefore : before ≠ []) (rest : List (List Char)) :
    EqvGen LeavesOut (before ++ rest.flatMap fun p => '/' :: p)
      (before ++ (rest.filter isName).flatMap fun p => '/' :: p) := by
  induction rest generalizing before with
  | nil => exact .refl _
  | cons p rest ih =>
    cases hname : isName p with
    | true =>
      have hlonger : EqvGen LeavesOut ((before ++ '/' :: p) ++ rest.flatMap fun p => '/' :: p) _ :=
        ih (by simp)
      rw [List.filter_cons_of_pos hname]
      simpa using hlonger
    | false =>
      rw [List.filter_cons_of_neg (by simp [hname])]
      exact (eqvGen_skip hname (.inl hbefore)).trans _ _ _ (ih hbefore)

/-- After the root, too, but one separator remains. -/
lemma eqvGen_spelling_root (hrest : rest ≠ []) :
    EqvGen LeavesOut (rest.flatMap fun p => '/' :: p) (spelling ⟨true, rest.filter isName⟩) := by
  induction rest with
  | nil => exact absurd rfl hrest
  | cons p rest ih =>
    cases hname : isName p with
    | true =>
      have hnames : EqvGen LeavesOut (('/' :: p) ++ rest.flatMap fun p => '/' :: p) _ :=
        eqvGen_filter (by simp) rest
      rw [List.filter_cons_of_pos hname]
      simpa [spelling] using hnames
    | false =>
      rw [List.filter_cons_of_neg (by simp [hname])]
      by_cases hnil : rest = []
      · subst hnil
        exact eqvGen_empty hname [] []
      · have hskip : EqvGen LeavesOut ([] ++ (p :: rest).flatMap fun p => '/' :: p) _ :=
          eqvGen_skip hname (.inr hnil)
        exact hskip.trans _ _ _ (ih hnil)

/-- **Every path can be brought into the shortest spelling of its components.** -/
theorem respelled_spelling (path : String) :
    EqvGen LeavesOut path.toList (spelling (ofPath path)) := by
  obtain ⟨first, rest, hpieces, hpath⟩ := exists_pieces_eq '/' path.toList
  rw [ofPath_of_pieces hpieces, hpath]
  by_cases hfirst : first = []
  · subst hfirst
    by_cases hrest : rest = []
    · subst hrest
      exact .refl _
    · simpa [hrest] using eqvGen_spelling_root hrest
  · simpa [hfirst, spelling] using eqvGen_filter hfirst rest

/-- **Two paths have the same components exactly if they differ in redundant characters only.** -/
theorem ofPath_eq_iff : ofPath p = ofPath q ↔ EqvGen LeavesOut p.toList q.toList := by
  constructor
  · intro h
    have hq := respelled_spelling q
    rw [← h] at hq
    exact (respelled_spelling p).trans _ _ _ (hq.symm _ _)
  · intro h
    simpa only [String.ofList_toList] using ofPath_eq_of_eqvGen h

end PathComponents

end ChomskyGrammar
