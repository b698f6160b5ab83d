/-
# Checking the statements of a file against each other

The statements of a file are `Compatible` if no declaration among them is empty and the start
symbol is chosen at most once, by naming one symbol.  The second stage of a load tells of each
statement whether it `Offends` against this in the light of the statements before it, and finds
one fault for each offence (`onePerLine_statementFaults`).  It finds none exactly if the
statements are compatible (`statementFaults_eq_nil_iff`).
-/
import ChomskyGrammar.Proofs.GrammarFile.Reading

namespace ChomskyGrammar

namespace GrammarFile

/-- The symbols that a statement chooses as start symbols, if it is there to choose them. -/
def chosen? : Statement → Option (List Char)
  | .start symbols => some symbols
  | _ => none

/-- What the statements that choose a start symbol name, one after the other. -/
def choices (ss : List Statement) : List (List Char) := ss.filterMap chosen?

/-- The rules for the statements of a file. -/
structure Compatible (ss : List Statement) : Prop where
  /-- No declaration of nonterminals is empty. -/
  nonterminals_ne : .nonterminals [] ∉ ss
  /-- No declaration of terminals is empty. -/
  terminals_ne : .terminals [] ∉ ss
  /-- At most one statement chooses a start symbol. -/
  start_unique : (choices ss).length ≤ 1
  /-- A statement that chooses a start symbol names exactly one. -/
  start_single : ∀ symbols ∈ choices ss, symbols.length = 1

/-- What is wrong with a statement that comes after some others. -/
inductive Offends (before : List Statement) : Statement → Fault → Prop where
  | noNonterminals : Offends before (.nonterminals []) .emptyDeclaration
  | noTerminals : Offends before (.terminals []) .emptyDeclaration
  /-- The first choice of a start symbol names none, or several. -/
  | startArity {symbols : List Char} (hfirst : ∀ earlier, .start earlier ∉ before)
      (hcount : symbols.length ≠ 1) : Offends before (.start symbols) (.startArity symbols.length)
  /-- Any later choice is one too many. -/
  | duplicateStart {symbols earlier : List Char} (hlater : .start earlier ∈ before) :
      Offends before (.start symbols) .duplicateStart

/-- Whether the statement with some line number offends against those before it, and how. -/
def OffendsAt (lines : List Line) (number : Nat) (fault : Fault) : Prop :=
  ∃ earlier l later, lines = earlier ++ l :: later ∧ l.number = number ∧
    Offends (earlier.map fun m => m.statement) l.statement fault

variable {ss before : List Statement} {s : Statement} {symbols : List Char} {fault : Fault}
  {file : String} {lines ls : List Line}

lemma chosen?_eq_some_iff : chosen? s = some symbols ↔ s = .start symbols := by
  cases s <;> simp [chosen?]

lemma mem_choices : symbols ∈ choices ss ↔ .start symbols ∈ ss := by
  simp [choices, chosen?_eq_some_iff]

/-! ### Offences and compatible statements -/

/-- Compatible statements do not offend. -/
lemma Compatible.not_offends {later : List Statement} (h : Compatible (before ++ s :: later)) :
    ¬Offends before s fault := by
  intro hoffends
  cases hoffends with
  | noNonterminals => exact h.nonterminals_ne (by simp)
  | noTerminals => exact h.terminals_ne (by simp)
  | startArity _ hcount => exact hcount (h.start_single _ (mem_choices.2 (by simp)))
  | @duplicateStart symbols earlier hlater =>
    have hpos : 0 < (choices before).length := List.length_pos_of_mem (mem_choices.2 hlater)
    have hunique := h.start_unique
    simp only [choices, chosen?, List.filterMap_append, List.filterMap_cons,
      List.length_append, List.length_cons] at hpos hunique
    omega

/-- Statements without an offence are compatible. -/
lemma compatible_of_not_offends
    (h : ∀ before s later fault, ss = before ++ s :: later → ¬Offends before s fault) :
    Compatible ss := by
  have hne : ∀ s fault, (∀ before, Offends before s fault) → s ∉ ss := by
    intro s fault hoffends hs
    obtain ⟨before, later, rfl⟩ := List.append_of_mem hs
    exact h before s later fault rfl (hoffends before)
  -- The first choice names one symbol, and no second one comes after it.
  have hchoices : choices ss = [] ∨ ∃ c, choices ss = [[c]] := by
    cases hss : choices ss with
    | nil => exact .inl rfl
    | cons symbols others =>
      obtain ⟨before, s, later, rfl, hbefore, hs, hothers⟩ := List.filterMap_eq_cons_iff.1 hss
      obtain rfl := chosen?_eq_some_iff.1 hs
      have hfirst : ∀ earlier, .start earlier ∉ before :=
        fun earlier hmem => absurd (hbefore _ hmem) (by simp [chosen?])
      have hsingle : symbols.length = 1 := Decidable.byContradiction fun hcount =>
        h before _ later _ rfl (.startArity hfirst hcount)
      have hnone : others = [] := by
        refine List.eq_nil_iff_forall_not_mem.2 fun symbols' hsymbols' => ?_
        rw [← hothers] at hsymbols'
        obtain ⟨between, after, rfl⟩ := List.append_of_mem (mem_choices.1 hsymbols')
        have hmem : .start symbols ∈ before ++ .start symbols :: between := by simp
        exact h (before ++ .start symbols :: between) (.start symbols') after _ (by simp)
          (.duplicateStart hmem)
      obtain ⟨c, rfl⟩ := List.length_eq_one_iff.1 hsingle
      exact .inr ⟨c, by rw [hnone]⟩
  refine ⟨hne _ _ fun _ => .noNonterminals, hne _ _ fun _ => .noTerminals, ?_, ?_⟩
  · rcases hchoices with h | ⟨c, h⟩ <;> simp [h]
  · rcases hchoices with h | ⟨c, h⟩ <;> simp [h]

/-! ### The second stage of a load -/

/-- One step of the check: what is wrong with a statement after some others. -/
lemma statementFault?_eq_some_iff :
    statementFault? (before.any choosesStart) s = some fault ↔ Offends before s fault := by
  have hchosen : before.any choosesStart = true ↔ ∃ earlier, .start earlier ∈ before := by
    rw [List.any_eq_true]
    constructor
    · rintro ⟨s, hs, hstart⟩
      cases s with
      | start earlier => exact ⟨earlier, hs⟩
      | _ => exact absurd hstart (by simp [choosesStart])
    · rintro ⟨earlier, hs⟩
      exact ⟨_, hs, rfl⟩
  constructor
  · intro h
    unfold statementFault? at h
    split at h
    · obtain rfl := Option.some.inj h
      exact .noNonterminals
    · obtain rfl := Option.some.inj h
      exact .noTerminals
    · split at h
      · rename_i hbefore
        obtain ⟨earlier, hearlier⟩ := hchosen.1 hbefore
        obtain rfl := Option.some.inj h
        exact .duplicateStart hearlier
      · rename_i hbefore
        split at h
        · exact absurd h (by simp)
        · rename_i hcount
          obtain rfl := Option.some.inj h
          exact .startArity (fun earlier hearlier => hbefore (hchosen.2 ⟨earlier, hearlier⟩)) hcount
    · exact absurd h (by simp)
  · intro h
    cases h with
    | noNonterminals => rfl
    | noTerminals => rfl
    | startArity hfirst hcount =>
      have hbefore : ¬before.any choosesStart = true := fun hany => by
        obtain ⟨earlier, hearlier⟩ := hchosen.1 hany
        exact hfirst earlier hearlier
      rw [statementFault?, if_neg hbefore, if_neg hcount]
    | duplicateStart hlater => rw [statementFault?, if_pos (hchosen.2 ⟨_, hlater⟩)]

lemma statementFaults_cons (file : String) (chosen : Bool) (l : Line) (ls : List Line) :
    statementFaults file chosen (l :: ls) =
      ((statementFault? chosen l.statement).map fun fault => ⟨⟨file, l.number⟩, fault⟩).toList ++
        statementFaults file (chosen || choosesStart l.statement) ls := by
  rw [statementFaults]
  cases statementFault? chosen l.statement <;> rfl

/-- The check goes over the statements once and remembers whether one chose a start symbol.  So
it finds the offences of some statements after others. -/
lemma mem_statementFaults (before : List Line) {f : LocatedFault} :
    f ∈ statementFaults file ((before.map fun m => m.statement).any choosesStart) ls ↔
      f.location.file = file ∧ ∃ earlier l later, ls = earlier ++ l :: later ∧
        l.number = f.location.line ∧
          Offends ((before ++ earlier).map fun m => m.statement) l.statement f.fault := by
  induction ls generalizing before with
  | nil => simp [statementFaults]
  | cons l ls ih =>
    have hnext : ((before.map fun m => m.statement).any choosesStart || choosesStart l.statement) =
        ((before ++ [l]).map fun m => m.statement).any choosesStart := by
      simp
    rw [statementFaults_cons, List.mem_append, hnext, ih, Option.mem_toList,
      Option.map_eq_some_iff]
    constructor
    · rintro (⟨fault, hfault, rfl⟩ | ⟨hfile, earlier, m, later, rfl, hnumber, hoffends⟩)
      · refine ⟨rfl, [], l, ls, rfl, rfl, ?_⟩
        rw [List.append_nil]
        exact statementFault?_eq_some_iff.1 hfault
      · refine ⟨hfile, l :: earlier, m, later, rfl, hnumber, ?_⟩
        simpa using hoffends
    · rintro ⟨hfile, earlier, m, later, hls, hnumber, hoffends⟩
      cases earlier with
      | nil =>
        obtain ⟨rfl, rfl⟩ := List.cons.inj hls
        rw [List.append_nil] at hoffends
        refine .inl ⟨f.fault, statementFault?_eq_some_iff.2 hoffends, ?_⟩
        rw [hnumber, ← hfile]
      | cons l' earlier =>
        obtain ⟨rfl, rfl⟩ := List.cons.inj hls
        exact .inr ⟨hfile, earlier, m, later, rfl, hnumber, by simpa using hoffends⟩

lemma sublist_statementFaults (file : String) (chosen : Bool) (ls : List Line) :
    ((statementFaults file chosen ls).map fun f => f.location.line).Sublist
      (ls.map fun l => l.number) := by
  induction ls generalizing chosen with
  | nil => exact List.Sublist.slnil
  | cons l ls ih =>
    rw [statementFaults_cons]
    cases statementFault? chosen l.statement with
    | none => exact (ih _).cons l.number
    | some fault => exact (ih _).cons_cons l.number

/-- **Every statement that offends has one fault.** -/
theorem onePerLine_statementFaults (file : String)
    (h : lines.Pairwise fun l m => l.number < m.number) :
    OnePerLine file (OffendsAt lines) (statementFaults file false lines) where
  mem_iff _ := mem_statementFaults []
  ascending := List.pairwise_map.1
    ((List.pairwise_map.2 h).sublist (sublist_statementFaults file false lines))

/-- The check finds nothing exactly if the statements are compatible. -/
theorem statementFaults_eq_nil_iff :
    statementFaults file false lines = [] ↔ Compatible (lines.map fun l => l.statement) := by
  rw [List.eq_nil_iff_forall_not_mem]
  constructor
  · intro h
    refine compatible_of_not_offends fun before s later fault hss hoffends => ?_
    obtain ⟨earlier, rest, rfl, rfl, hrest⟩ := List.map_eq_append_iff.1 hss
    obtain ⟨l, later', rfl, rfl, -⟩ := List.map_eq_cons_iff.1 hrest
    exact h ⟨⟨file, l.number⟩, fault⟩ ((mem_statementFaults []).2
      ⟨rfl, earlier, l, later', rfl, rfl, hoffends⟩)
  · intro h f hf
    obtain ⟨-, earlier, l, later, rfl, -, hoffends⟩ := (mem_statementFaults []).1 hf
    rw [List.map_append, List.map_cons] at h
    exact h.not_offends hoffends

end GrammarFile

end ChomskyGrammar
