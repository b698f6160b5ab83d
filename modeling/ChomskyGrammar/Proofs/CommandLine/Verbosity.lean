/-
# Asking for more log records changes nothing else

The flag for more log records may stand among the arguments any number of times.  All that it
leaves in a request is the number of times (`quiet_ofArguments`), and the exit code and the output
of a call do not depend on that number (`outcome?_quiet`).  So calls that say the same but for
this flag have the same exit code and the same output (`exists_outcome_of_sayings_eq`).
-/
import Mathlib.Tactic.Lemma
import ChomskyGrammar.CommandLine.Run

namespace ChomskyGrammar

namespace CommandLine

/-- What some arguments say, without the flags for more log records. -/
def sayings (args : List String) : List Item :=
  (Item.ofArguments args).filter fun item => decide (item ≠ .flag .verbose)

/-- The draft without its flags for more log records. -/
def Draft.quiet (d : Draft) : Draft := { d with verbosity := 0 }

/-- The request without its flags for more log records. -/
def Request.quiet : Request → Request
  | run s => run { s with verbosity := 0 }
  | r => r

variable {d : Draft} {item : Item} {items : List Item} {args args' : List String}

/-! ### Reading the arguments -/

/-- A request that an item decides does not depend on the flags before it. -/
lemma quiet_of_withItem_error {r : Request} (h : d.withItem item = .error r) : r.quiet = r := by
  cases item with
  | flag o => cases o <;> grind [Draft.withItem, Draft.withFlag, Request.quiet]
  | setting o value => cases o <;> grind [Draft.withItem, Draft.withSetting, Request.quiet]
  | positional text => grind [Draft.withItem, Draft.withPositional, Request.quiet]
  | fault e => grind [Draft.withItem, Request.quiet]

/-- Another item does to a draft what it does without the flags. -/
lemma withItem_quiet (h : item ≠ .flag .verbose) :
    d.quiet.withItem item = (d.withItem item).map Draft.quiet := by
  cases item with
  | flag o => cases o <;> grind [Draft.withItem, Draft.withFlag, Draft.quiet, Except.map]
  | setting o value =>
    -- A setting is given once, and its value has to be of the right form.
    obtain ⟨_, _, start, _, _, generate, maxDepth, seed, _⟩ := d
    cases o with
    | start =>
      cases start with
      | some _ => rfl
      | none =>
        simp only [Draft.withItem, Draft.withSetting, Draft.quiet]
        cases readChar value <;> rfl
    | generate =>
      cases generate with
      | some _ => rfl
      | none =>
        simp only [Draft.withItem, Draft.withSetting, Draft.quiet]
        cases (readAmount value).filter fun n => decide (n ≤ maxAmount) <;> rfl
    | maxDepth =>
      cases maxDepth with
      | some _ => rfl
      | none =>
        simp only [Draft.withItem, Draft.withSetting, Draft.quiet]
        cases (readUnsigned value).filter fun n => decide (n ≤ maxWide) <;> rfl
    | seed =>
      cases seed with
      | some _ => rfl
      | none =>
        simp only [Draft.withItem, Draft.withSetting, Draft.quiet]
        cases (readUnsigned value).filter fun n => decide (n ≤ maxWide) <;> rfl
    | _ => rfl
  | positional text => grind [Draft.withItem, Draft.withPositional, Draft.quiet, Except.map]
  | fault e => rfl

/-- A request keeps nothing of the flags but their number. -/
lemma quiet_complete (d : Draft) (items : List Item) :
    (d.complete items).quiet =
      d.quiet.complete (items.filter fun item => decide (item ≠ .flag .verbose)) := by
  induction items generalizing d with
  | nil =>
    rw [List.filter_nil, Draft.complete, Draft.complete, Draft.finish, Draft.finish, Draft.quiet]
    cases d.file <;> rfl
  | cons item items ih =>
    by_cases hitem : item = .flag .verbose
    · subst hitem
      rw [List.filter_cons_of_neg (by simp), Draft.complete]
      exact ih _
    · rw [List.filter_cons_of_pos (by simpa using hitem), Draft.complete, Draft.complete,
        withItem_quiet hitem]
      cases h : d.withItem item with
      | error r => exact quiet_of_withItem_error h
      | ok d' => exact ih d'

theorem quiet_ofArguments (args : List String) :
    (Request.ofArguments args).quiet = Draft.empty.complete (sayings args) :=
  quiet_complete Draft.empty (Item.ofArguments args)

/-! ### The outcome -/

/-- Without the flags a call has the same exit code and the same output, and ends if it does with
them. -/
lemma outcome?_quiet (r : Request) (reading : FileReading) (fresh : Source) :
    ((r.quiet.outcome? reading fresh).map fun o => (o.code, o.stdout)) =
      (r.outcome? reading fresh).map fun o => (o.code, o.stdout) := by
  cases r with
  | run s =>
    simp only [Request.quiet, Request.outcome?, Option.map_map]
    rfl
  | _ => rfl

/-- **Calls that say the same but for the flags for more log records have the same exit code and
the same output.** -/
theorem exists_outcome_of_sayings_eq (h : sayings args' = sayings args) {reading : FileReading}
    {fresh : Source} {o : Outcome}
    (ho : (Request.ofArguments args).outcome? reading fresh = some o) :
    ∃ o', (Request.ofArguments args').outcome? reading fresh = some o' ∧
      o'.code = o.code ∧ o'.stdout = o.stdout := by
  have hquiet : (Request.ofArguments args').quiet = (Request.ofArguments args).quiet := by
    rw [quiet_ofArguments, quiet_ofArguments, h]
  have hsame := outcome?_quiet (Request.ofArguments args') reading fresh
  rw [hquiet, outcome?_quiet, ho] at hsame
  obtain ⟨o', ho', heq⟩ := Option.map_eq_some_iff.1 hsame.symm
  obtain ⟨hcode, hstdout⟩ := Prod.mk.inj heq
  exact ⟨o', ho', hcode, hstdout⟩

/-- Flags for more log records in front of the arguments say nothing else. -/
lemma sayings_replicate_append (n : Nat) (args : List String) :
    sayings (List.replicate n "-v" ++ args) = sayings args := by
  induction n with
  | zero => rfl
  | succ n ih =>
    rw [List.replicate_succ, List.cons_append, ← ih]
    rfl

end CommandLine

end ChomskyGrammar
