/-
# Making the edits that a file asks for

The last stage of a load makes the edits one after the other and passes over those that are
refused.  Which ones are refused, and why, is said edit by edit: each is judged against the
grammar that the edits before it have left (`refusals`, `applyEdits_eq`).  Nothing is refused
exactly if the edits succeed when they are chained (`foldlM_edit_eq_ok_iff`), and then the start
symbol of the grammar is the one that was chosen last (`start_of_foldlM_edit`).
-/
import ChomskyGrammar.Proofs.Grammar.Reachable
import ChomskyGrammar.Proofs.GrammarFile.Checking

namespace ChomskyGrammar

namespace GrammarFile

open Grammar (run attempt_of_ok run_append edit_cases)

/-- Why an edit is refused after some others, if it is: the refused ones among those are passed
over. -/
def refusal? (before : List Edit) (e : Edit) : Option GrammarError :=
  match (run before).edit e with
  | .ok _ => none
  | .error refusal => some refusal

/-- The refusals of some numbered edits, each judged in the light of the edits before it. -/
def refusals (es : List (Nat × Edit)) : List (Nat × GrammarError) :=
  es.zipIdx.filterMap fun e =>
    (refusal? ((es.take e.2).map Prod.snd) e.1.2).map fun refusal => (e.1.1, refusal)

variable {g g' : Grammar} {es : List (Nat × Edit)}

/-! ### The stage, edit by edit -/

/-- One more edit at the end is judged against the grammar that the others have left. -/
lemma applyEdits_concat (g : Grammar) (es : List (Nat × Edit)) (n : Nat) (e : Edit) :
    applyEdits g (es ++ [(n, e)]) =
      match (applyEdits g es).1.edit e with
      | .ok g' => (g', (applyEdits g es).2)
      | .error refusal => ((applyEdits g es).1, (applyEdits g es).2 ++ [(n, refusal)]) := by
  induction es generalizing g with
  | nil =>
    rw [List.nil_append, applyEdits]
    cases h : g.edit e <;> simp [applyEdits, h]
  | cons d ds ih =>
    obtain ⟨m, d⟩ := d
    rw [List.cons_append, applyEdits, applyEdits]
    cases g.edit d with
    | ok g' => exact ih g'
    | error refusal =>
      dsimp only
      rw [ih g]
      cases (applyEdits g ds).1.edit e <;> rfl

lemma refusals_concat (es : List (Nat × Edit)) (n : Nat) (e : Edit) :
    refusals (es ++ [(n, e)]) =
      refusals es ++ ((refusal? (es.map Prod.snd) e).map fun refusal => (n, refusal)).toList := by
  have hold : ∀ d ∈ es.zipIdx, (es ++ [(n, e)]).take d.2 = es.take d.2 := by
    intro d hd
    have hlt := List.snd_lt_of_mem_zipIdx hd
    rw [List.take_append_of_le_length (Nat.le_of_lt hlt)]
  rw [refusals, refusals, List.zipIdx_append, List.filterMap_append]
  refine congrArg₂ (· ++ ·) (List.filterMap_congr fun d hd => by rw [hold d hd]) ?_
  rw [List.zipIdx_singleton, Nat.zero_add]
  cases h : refusal? (es.map Prod.snd) e <;> simp [h]

/-- The last stage makes all edits that are not refused, and lists the refusals. -/
theorem applyEdits_eq (es : List (Nat × Edit)) :
    applyEdits .empty es = (run (es.map Prod.snd), refusals es) := by
  induction es using List.reverseRecOn with
  | nil => rfl
  | append_singleton es d ih =>
    obtain ⟨n, e⟩ := d
    rw [applyEdits_concat, ih, refusals_concat, refusal?, List.map_append, run_append]
    show _ = ((run (es.map Prod.snd)).attempt e, _)
    rw [Grammar.attempt]
    cases (run (es.map Prod.snd)).edit e with
    | ok g' => simp
    | error refusal => simp

/-! ### Edits that all succeed -/

lemma foldlM_concat_eq_ok_iff {ds : List Edit} {e : Edit} :
    (ds ++ [e]).foldlM Grammar.edit g = .ok g' ↔
      ∃ g₁, ds.foldlM Grammar.edit g = .ok g₁ ∧ g₁.edit e = .ok g' := by
  rw [List.foldlM_append]
  cases ds.foldlM Grammar.edit g with
  | error refusal => simp [bind, Except.bind]
  | ok g₁ =>
    have hlast : [e].foldlM Grammar.edit g₁ = g₁.edit e := by
      rw [List.foldlM_cons]
      exact bind_pure _
    show [e].foldlM Grammar.edit g₁ = .ok g' ↔ _
    simp [hlast]

/-- Nothing is refused exactly if each edit succeeds where the one before it has led. -/
theorem foldlM_edit_eq_ok_iff :
    (es.map Prod.snd).foldlM Grammar.edit .empty = .ok g ↔
      refusals es = [] ∧ run (es.map Prod.snd) = g := by
  induction es using List.reverseRecOn generalizing g with
  | nil =>
    show Except.ok Grammar.empty = .ok g ↔ _
    simp [refusals, run]
  | append_singleton es d ih =>
    obtain ⟨n, e⟩ := d
    rw [List.map_append, List.map_singleton, foldlM_concat_eq_ok_iff, refusals_concat, run_append,
      List.append_eq_nil_iff, refusal?]
    show _ ↔ _ ∧ (run (es.map Prod.snd)).attempt e = g
    rw [Grammar.attempt]
    simp only [ih]
    constructor
    · rintro ⟨g₁, ⟨hnone, rfl⟩, he⟩
      simp [hnone, he]
    · rintro ⟨⟨hnone, he⟩, hg⟩
      refine ⟨_, ⟨hnone, rfl⟩, ?_⟩
      cases hedit : (run (es.map Prod.snd)).edit e with
      | error refusal => simp [hedit] at he
      | ok g' => simpa [hedit] using hg

/-! ### The start symbol -/

/-- The start symbol that an edit asks for, if it asks for one. -/
def startOf? : Edit → Option Char
  | .setStart c => some c
  | _ => none

/-- Only an edit that asks for a start symbol changes it. -/
lemma start_of_edit {e : Edit} (h : g.edit e = .ok g') (he : e ≠ .reset) :
    g'.start.map (fun a => a.char) = (startOf? e).or (g.start.map fun a => a.char) := by
  rcases edit_cases h with ⟨a, rfl, -, rfl⟩ | ⟨t, rfl, -, rfl⟩ | ⟨a, rfl, -, rfl⟩ |
    ⟨r, rfl, -, -, rfl⟩ | ⟨rfl, -⟩
  · rfl
  · rfl
  · rfl
  · rfl
  · exact absurd rfl he

/-- After edits that succeed, the start symbol is the last one that was asked for. -/
theorem start_of_foldlM_edit {ds : List Edit} (h : ds.foldlM Grammar.edit .empty = .ok g)
    (hreset : .reset ∉ ds) :
    g.start.map (fun a => a.char) = (ds.filterMap startOf?).getLast? := by
  induction ds using List.reverseRecOn generalizing g with
  | nil =>
    obtain rfl := Except.ok.inj h
    rfl
  | append_singleton ds e ih =>
    obtain ⟨g₁, hds, he⟩ := foldlM_concat_eq_ok_iff.1 h
    have hreset' : .reset ∉ ds := fun hmem => hreset (List.mem_append_left _ hmem)
    have hne : e ≠ .reset := by
      rintro rfl
      exact hreset (by simp)
    rw [start_of_edit he hne, ih hds hreset', List.filterMap_append]
    cases h : startOf? e with
    | none => simp [h]
    | some c => simp [h]

/-! ### Statements and their edits -/

lemma reset_not_mem_edits (s : Statement) : .reset ∉ s.edits := by
  cases s <;> simp [Statement.edits]

/-- The start symbols that a statement asks for are those that it chooses. -/
lemma filterMap_startOf?_edits (s : Statement) :
    s.edits.filterMap startOf? = (chosen? s).getD [] := by
  cases s <;> simp [Statement.edits, chosen?, List.filterMap_map, Function.comp_def, startOf?]

lemma filterMap_startOf?_flatMap (ss : List Statement) :
    (ss.flatMap Statement.edits).filterMap startOf? = (choices ss).flatten := by
  induction ss with
  | nil => rfl
  | cons s ss ih =>
    rw [List.flatMap_cons, List.filterMap_append, ih, filterMap_startOf?_edits, choices, choices,
      List.filterMap_cons]
    cases chosen? s <;> rfl

/-- The start symbol of a grammar that compatible statements build is the one that they
choose. -/
theorem Compatible.choices_eq {ss : List Statement} (hss : Compatible ss)
    (h : (ss.flatMap Statement.edits).foldlM Grammar.edit .empty = .ok g) :
    choices ss = g.start.toList.map fun a => [a.char] := by
  have hreset : .reset ∉ ss.flatMap Statement.edits := by
    simp [List.mem_flatMap, reset_not_mem_edits]
  have hstart := start_of_foldlM_edit h hreset
  rw [filterMap_startOf?_flatMap] at hstart
  cases hchoices : choices ss with
  | nil =>
    rw [hchoices] at hstart
    have hnone : g.start = none := by simpa using hstart
    rw [hnone]
    rfl
  | cons symbols others =>
    have hunique := hss.start_unique
    have hsingle := hss.start_single symbols (by simp [hchoices])
    rw [hchoices, List.length_cons] at hunique
    obtain rfl := List.eq_nil_of_length_eq_zero (by omega : others.length = 0)
    obtain ⟨c, rfl⟩ := List.length_eq_one_iff.1 hsingle
    rw [hchoices] at hstart
    obtain ⟨a, ha, rfl⟩ : ∃ a, g.start = some a ∧ a.char = c := by simpa using hstart
    rw [ha]
    rfl

end GrammarFile

end ChomskyGrammar
