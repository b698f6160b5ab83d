/-
# Where the greatest depth matters

The greatest depth is looked at in one place, where the eligible candidates of a nonterminal are
taken from all of them, and it is only compared with the depth of that nonterminal.  So two
expansions with different greatest depths visit the same nonterminals, and pick the same bodies for
them from the same lists, until a nonterminal is visited at the smaller one of the two depths.

An expansion is a tree of calls, and it may end anywhere by a failure.  Its visits (`visits`) are
all of its calls, those that fail too, in the order in which they are made; so "until" makes sense
for them, and the picks that an expansion leaves on record are those of its visits
(`expand_recorded`).  Two lists of visits agree above a depth if they are the same up to the first
call at this depth or deeper, and this call is the same one (`AgreeAbove`).  If neither the left
half of a pair nor the nonterminal itself is deep, then the right halves start from the same source;
and otherwise it does not matter what the right halves do (`AgreeAbove.append`).  This carries the
agreement from the visits of a single nonterminal to those of a whole run (`visits_agree`).
-/
import ChomskyGrammar.Proofs.Generation.Depth
import ChomskyGrammar.Proofs.Generation.Preorder

namespace ChomskyGrammar

namespace Generation

section Visits

variable {σ : Type}

/-! ### Visits -/

/-- A visit of a nonterminal: what a call of the expansion picks from, and what comes of it. -/
structure Visit (σ : Type) extends Call σ where
  /-- The candidates that may be picked, in their order. -/
  eligible : List Candidate
  /-- The body that is picked and the source after the pick, or why nothing is picked. -/
  outcome : EStateM.Result GenerationError σ Candidate

/-- The pick of a visit, if it comes to one. -/
def Visit.pick? (v : Visit σ) : Option (Pick σ) :=
  match v.outcome with
  | .error _ _ => none
  | .ok _ s' => some ⟨v.eligible.length, v.source, s'⟩

/-- The picks of some visits, one after the other. -/
def picks (vs : List (Visit σ)) : List (Pick σ) := vs.filterMap Visit.pick?

/-- A result together with a record of picks. -/
def withRecord {α : Type} (r : EStateM.Result GenerationError σ α) (ps : List (Pick σ)) :
    EStateM.Result GenerationError (Recorded σ) α :=
  match r with
  | .error e s => .error e ⟨s, ps⟩
  | .ok x s => .ok x ⟨s, ps⟩

/-! ### Agreement -/

/-- Whether two lists of visits agree above a depth: they are the same up to the first call at this
depth or deeper.  If there is one, it is the same call in both lists, but from then on they may
differ. -/
inductive AgreeAbove (low : Nat) : List (Visit σ) → List (Visit σ) → Prop
  | nil : AgreeAbove low [] []
  | above {v vs vs'} (habove : v.depth < low) (h : AgreeAbove low vs vs') :
    AgreeAbove low (v :: vs) (v :: vs')
  | reached {v v' vs vs'} (hreached : low ≤ v.depth) (hcall : v.toCall = v'.toCall) :
    AgreeAbove low (v :: vs) (v' :: vs')

namespace AgreeAbove

variable {low : Nat} {us us' vs vs' : List (Visit σ)}

/-- What comes later has to agree only if the depth is not reached before. -/
lemma append (h : AgreeAbove low us us')
    (hrest : (∀ u ∈ us, u.depth < low) → AgreeAbove low vs vs') :
    AgreeAbove low (us ++ vs) (us' ++ vs') := by
  induction h with
  | nil => exact hrest (by simp)
  | above habove _ ih =>
    exact .above habove (ih fun hus => hrest (List.forall_mem_cons.2 ⟨habove, hus⟩))
  | reached hreached hcall => exact .reached hreached hcall

lemma takeWhile_eq (h : AgreeAbove low vs vs') :
    (vs.takeWhile fun v => v.depth < low) = vs'.takeWhile fun v => v.depth < low := by
  induction h with
  | nil => rfl
  | above habove _ ih => simp [habove, ih]
  | @reached v v' _ _ hreached hcall =>
    have hreached' : low ≤ v'.depth := hcall ▸ hreached
    simp [hreached, hreached']

lemma find?_eq (h : AgreeAbove low vs vs') :
    (vs.find? fun v => low ≤ v.depth).map Visit.toCall =
      (vs'.find? fun v => low ≤ v.depth).map Visit.toCall := by
  induction h with
  | nil => rfl
  | above habove _ ih => simp [Nat.not_le.2 habove, ih]
  | @reached v v' _ _ hreached hcall =>
    have hreached' : low ≤ v'.depth := hcall ▸ hreached
    simp [hreached', hcall]

lemma eq_of_forall_lt (h : AgreeAbove low vs vs') (habove : ∀ v ∈ vs, v.depth < low) :
    vs' = vs := by
  induction h with
  | nil => rfl
  | above _ _ ih => rw [ih (List.forall_mem_cons.1 habove).2]
  | @reached v _ _ _ hreached _ =>
    exact absurd (habove v List.mem_cons_self) (Nat.not_lt.2 hreached)

end AgreeAbove

end Visits

variable {σ : Type} [RandomSource σ] {rules : List Rule} {ys : ShortestYields rules}
  {maxDepth depth low high : Nat} {a : Nonterminal} {s s' : σ}

/-! ### The visits of an expansion -/

/-- The visit of a nonterminal at some depth. -/
def visit (ys : ShortestYields rules) (maxDepth depth : Nat) (a : Nonterminal) (s : σ) :
    Visit σ where
  depth := depth
  head := a
  source := s
  eligible := eligible maxDepth depth (candidates rules ys.yields a).toList
  outcome := pickBody ys maxDepth depth a s

/-- The visits of an expansion, in the order in which they are made.  The right half of a pair is
visited after the left half, and only if the expansion of that one ends well. -/
def visits (ys : ShortestYields rules) (maxDepth depth : Nat) (a : Nonterminal) (s : σ) :
    List (Visit σ) :=
  visit ys maxDepth depth a s ::
    match _h : pickBody ys maxDepth depth a s with
    | .error _ _ => []
    | .ok ⟨_, .unit _⟩ _ => []
    | .ok ⟨_, .binary b c⟩ s₁ =>
      visits ys maxDepth (depth + 1) b s₁ ++
        match expand ys maxDepth (depth + 1) b s₁ with
        | .error _ _ => []
        | .ok _ s₂ => visits ys maxDepth (depth + 1) c s₂
termination_by (maxDepth - depth, (ys.yields.get? a).getD 0)
decreasing_by
  · exact decreases_of_pickBody _h b (.inl rfl)
  · exact decreases_of_pickBody _h c (.inr rfl)

/-- The visits of the run that makes a random word; there are none if a yield is too large. -/
def wordVisits (rules : List Rule) (maxDepth : Nat) (a : Nonterminal) (s : σ) : List (Visit σ) :=
  match ShortestYields.compute? rules with
  | none => []
  | some ys => visits ys maxDepth 0 a s

lemma visits_of_error {e : GenerationError} (hpick : pickBody ys maxDepth depth a s = .error e s') :
    visits ys maxDepth depth a s = [visit ys maxDepth depth a s] := by
  rw [visits]
  split <;> simp_all

lemma visits_of_unit {n : Nat} {t : Terminal}
    (hpick : pickBody ys maxDepth depth a s = .ok ⟨n, .unit t⟩ s') :
    visits ys maxDepth depth a s = [visit ys maxDepth depth a s] := by
  rw [visits]
  split <;> simp_all

lemma visits_of_binary {n : Nat} {b c : Nonterminal}
    (hpick : pickBody ys maxDepth depth a s = .ok ⟨n, .binary b c⟩ s') :
    visits ys maxDepth depth a s =
      visit ys maxDepth depth a s :: (visits ys maxDepth (depth + 1) b s' ++
        match expand ys maxDepth (depth + 1) b s' with
        | .error _ _ => []
        | .ok _ s₂ => visits ys maxDepth (depth + 1) c s₂) := by
  rw [visits]
  split <;> simp_all

/-! ### What is left on record -/

lemma visit_pick?_of_error {e : GenerationError}
    (hpick : pickBody ys maxDepth depth a s = .error e s') :
    (visit ys maxDepth depth a s).pick? = none := by
  simp only [Visit.pick?, visit, hpick]

lemma visit_pick?_of_ok {c : Candidate} (hpick : pickBody ys maxDepth depth a s = .ok c s') :
    (visit ys maxDepth depth a s).pick? = some (ownPick ys maxDepth depth a s s') := by
  simp only [Visit.pick?, visit, hpick, ownPick]

/-- A pick that fails leaves nothing on record. -/
lemma pickBody_error_recorded {e : GenerationError}
    (hpick : pickBody ys maxDepth depth a s = .error e s') (ps : List (Pick σ)) :
    pickBody ys maxDepth depth a (⟨s, ps⟩ : Recorded σ) = .error e ⟨s', ps⟩ := by
  rw [pickBody] at hpick ⊢
  split at hpick
  · obtain ⟨rfl, rfl⟩ := EStateM.Result.error.inj hpick
    rfl
  · rename_i x xs _
    split at hpick
    · rename_i hstalled
      obtain ⟨rfl, rfl⟩ := EStateM.Result.error.inj hpick
      have hrecorded : RandomSource.choose? (⟨s, ps⟩ : Recorded σ) x xs = none := by
        show Option.map _ (RandomSource.choose? s x xs) = none
        rw [hstalled]
        rfl
      simp only [hrecorded]
    · exact absurd hpick (by simp)

/-- **An expansion leaves the picks of its visits on record**, whether it ends well or not. -/
theorem expand_recorded (ys : ShortestYields rules) (maxDepth depth : Nat) (a : Nonterminal) (s : σ)
    (ps : List (Pick σ)) :
    expand ys maxDepth depth a (⟨s, ps⟩ : Recorded σ) =
      withRecord (expand ys maxDepth depth a s) (ps ++ picks (visits ys maxDepth depth a s)) := by
  fun_induction expand ys maxDepth depth a s generalizing ps with
  | case1 depth a s e s₁ hpick =>
    rw [expand_eq, pickBody_error_recorded hpick, visits_of_error hpick, picks,
      List.filterMap_cons_none (visit_pick?_of_error hpick)]
    simp [withRecord]
  | case2 depth a s n t s₁ hpick =>
    rw [expand_eq, pickBody_recorded hpick, visits_of_unit hpick, picks,
      List.filterMap_cons_some (visit_pick?_of_ok hpick)]
    simp [withRecord]
  | case3 depth a s n b c s₁ hpick e s₂ hleft ihleft =>
    rw [expand_eq, pickBody_recorded hpick, visits_of_binary hpick, picks,
      List.filterMap_cons_some (visit_pick?_of_ok hpick)]
    simp only [ihleft, hleft]
    simp [withRecord, picks]
  | case4 depth a s n b c s₁ hpick left s₂ hleft e s₃ hright ihleft ihright =>
    rw [expand_eq, pickBody_recorded hpick, visits_of_binary hpick, picks,
      List.filterMap_cons_some (visit_pick?_of_ok hpick)]
    simp only [ihleft, hleft, withRecord, ihright, hright]
    simp [picks]
  | case5 depth a s n b c s₁ hpick left s₂ hleft right s₃ hright ihleft ihright =>
    rw [expand_eq, pickBody_recorded hpick, visits_of_binary hpick, picks,
      List.filterMap_cons_some (visit_pick?_of_ok hpick)]
    simp only [ihleft, hleft, withRecord, ihright, hright]
    simp [picks]

/-- So does the run that makes a random word. -/
theorem word_recorded (rules : List Rule) (maxDepth : Nat) (a : Nonterminal) (s : σ) :
    word rules maxDepth a (⟨s, []⟩ : Recorded σ) =
      withRecord (word rules maxDepth a s) (picks (wordVisits rules maxDepth a s)) := by
  rw [word, word, tree, tree, wordVisits]
  cases ShortestYields.compute? rules with
  | none => rfl
  | some ys =>
    simp only [expand_recorded, List.nil_append]
    cases expand ys maxDepth 0 a s <;> rfl

/-! ### Expansions with different greatest depths -/

/-- Above both of the greatest depths, the same candidates are eligible. -/
lemma eligible_eq_of_lt (hle : low ≤ high) (hlt : depth < low) (cs : List Candidate) :
    eligible high depth cs = eligible low depth cs := by
  have hlow : ¬low ≤ depth := Nat.not_le.2 hlt
  have hhigh : ¬high ≤ depth := fun h => hlow (hle.trans h)
  cases cs with
  | nil => rfl
  | cons c cs => rw [eligible, eligible, if_neg hlow, if_neg hhigh]

lemma pickBody_eq_of_lt (hle : low ≤ high) (hlt : depth < low) :
    pickBody ys high depth a s = pickBody ys low depth a s := by
  rw [pickBody, pickBody, eligible_eq_of_lt hle hlt]

/-- One visit does not depend on greatest depths that it is above of. -/
lemma visit_eq_of_lt (hle : low ≤ high) (hlt : depth < low) :
    visit ys high depth a s = visit ys low depth a s := by
  rw [visit, visit, eligible_eq_of_lt hle hlt, pickBody_eq_of_lt hle hlt]

/-- **The visits of two expansions agree above the smaller one of their greatest depths**, and if
this one is not reached, the expansions are the same. -/
theorem visits_agree (hle : low ≤ high) (ys : ShortestYields rules) (depth : Nat) (a : Nonterminal)
    (s : σ) :
    AgreeAbove low (visits ys low depth a s) (visits ys high depth a s) ∧
      ((∀ v ∈ visits ys low depth a s, v.depth < low) →
        expand ys high depth a s = expand ys low depth a s) := by
  rcases Nat.lt_or_ge depth low with hlt | hge
  · have hpick_eq : pickBody ys high depth a s = pickBody ys low depth a s :=
      pickBody_eq_of_lt hle hlt
    cases hpick : pickBody ys low depth a s with
    | error e s₁ =>
      have hpick' := hpick_eq.trans hpick
      rw [visits_of_error hpick, visits_of_error hpick', visit_eq_of_lt hle hlt, expand_eq,
        expand_eq, hpick, hpick']
      exact ⟨.above hlt .nil, fun _ => rfl⟩
    | ok p s₁ =>
      have hpick' := hpick_eq.trans hpick
      obtain ⟨n, ⟨b, c⟩ | t⟩ := p
      · obtain ⟨hleft, hexpand⟩ := visits_agree hle ys (depth + 1) b s₁
        have hright := visits_agree hle ys (depth + 1) c
        rw [visits_of_binary hpick, visits_of_binary hpick', visit_eq_of_lt hle hlt]
        refine ⟨.above hlt (hleft.append fun habove => ?_), fun habove => ?_⟩
        · rw [hexpand habove]
          cases expand ys low (depth + 1) b s₁ with
          | error e s₂ => exact .nil
          | ok left s₂ => exact (hright s₂).1
        · obtain ⟨hleft_above, hright_above⟩ :=
            List.forall_mem_append.1 (List.forall_mem_cons.1 habove).2
          rw [expand_eq, expand_eq, hpick, hpick']
          simp only [hexpand hleft_above]
          cases hl : expand ys low (depth + 1) b s₁ with
          | error e s₂ => rfl
          | ok left s₂ =>
            rw [hl] at hright_above
            simp only [(hright s₂).2 hright_above]
      · rw [visits_of_unit hpick, visits_of_unit hpick', visit_eq_of_lt hle hlt, expand_eq,
          expand_eq, hpick, hpick']
        exact ⟨.above hlt .nil, fun _ => rfl⟩
  · -- The depth is reached by this visit.
    rw [visits, visits]
    exact ⟨.reached hge rfl, fun habove => absurd (habove _ List.mem_cons_self) (Nat.not_lt.2 hge)⟩
-- The recursion is that of the expansion with the smaller depth.
termination_by (low - depth, (ys.yields.get? a).getD 0)
decreasing_by
  · exact decreases_of_pickBody hpick b (.inl rfl)
  · exact decreases_of_pickBody hpick c (.inr rfl)

/-- The same is true of the runs that make random words. -/
theorem wordVisits_agree (hle : low ≤ high) (rules : List Rule) (a : Nonterminal) (s : σ) :
    AgreeAbove low (wordVisits rules low a s) (wordVisits rules high a s) ∧
      ((∀ v ∈ wordVisits rules low a s, v.depth < low) →
        word rules high a s = word rules low a s) := by
  rw [word, word, tree, tree, wordVisits, wordVisits]
  cases ShortestYields.compute? rules with
  | none => exact ⟨.nil, fun _ => rfl⟩
  | some ys =>
    obtain ⟨hagree, hexpand⟩ := visits_agree hle ys 0 a s
    refine ⟨hagree, fun habove => ?_⟩
    simp only [hexpand habove]

/-- **The greatest depth matters only where it is reached.**  Let a nonterminal be expanded by some
rules from some source, with two greatest depths.  Then, also if a run fails:

* up to the first visit at the smaller depth or deeper, the visits of both runs are the same: the
  same nonterminals at the same depths, the same lists to pick from, the same source before and
  after each pick, and the same picks;
* this first deep visit, if there is one, is the same call in both runs;
* if the run with the smaller depth has no such visit, the run with the greater one is the same.  It
  makes the same word and leaves the same source behind, or fails in the same way;
* what is picked is what the runs leave on record: the picks of their visits, in order. -/
theorem greatest_depth_matters_only_where_reached (hle : low ≤ high) (rules : List Rule)
    (a : Nonterminal) (s : σ) :
    ((wordVisits rules low a s).takeWhile fun v => v.depth < low) =
        (wordVisits rules high a s).takeWhile (fun v => v.depth < low) ∧
      ((wordVisits rules low a s).find? fun v => low ≤ v.depth).map Visit.toCall =
        ((wordVisits rules high a s).find? fun v => low ≤ v.depth).map Visit.toCall ∧
      ((∀ v ∈ wordVisits rules low a s, v.depth < low) →
        wordVisits rules high a s = wordVisits rules low a s ∧
          word rules high a s = word rules low a s ∧
          ∀ g : Grammar, g.rules.toList = rules →
            g.generateFrom high a s = g.generateFrom low a s) ∧
      ∀ maxDepth, word rules maxDepth a (⟨s, []⟩ : Recorded σ) =
        withRecord (word rules maxDepth a s) (picks (wordVisits rules maxDepth a s)) := by
  obtain ⟨hagree, hword⟩ := wordVisits_agree hle rules a s
  refine ⟨hagree.takeWhile_eq, hagree.find?_eq, fun habove => ?_, fun maxDepth =>
    word_recorded rules maxDepth a s⟩
  refine ⟨hagree.eq_of_forall_lt habove, hword habove, ?_⟩
  rintro g rfl
  rw [Grammar.generateFrom, Grammar.generateFrom, hword habove]

/-! ### A run of zeros -/

/-- The source of zeros, after some draws. -/
def zeros (n : Nat) : Source := { Source.scripted [] with position := n }

/-- From a draw of zero, the first candidate is picked. -/
lemma pickBody_of_zero {x : Source} {c : Candidate} {cs : List Candidate}
    (hpatient : 0 < x.patience) (hzero : x.stream x.position = 0)
    (hcs : (candidates rules ys.yields a).toList = c :: cs) :
    pickBody ys maxDepth depth a x = .ok c { x with position := x.position + 1 } := by
  have hfirst : ∀ k, Source.firstAccepted? x.stream k x.patience x.position = some x.position :=
    fun k => Source.firstAccepted?_of_accepts hpatient (by rw [hzero]; simp [Source.accepts])
  have hchoose : ∀ ds, RandomSource.choose? x c ds =
      some (c, { x with position := x.position + 1 }) := by
    intro ds
    show x.choose? c ds = _
    simp [Source.choose?, Source.pick?, hfirst, hzero]
  obtain ⟨ds, hds⟩ : ∃ ds, eligible maxDepth depth (c :: cs) = c :: ds := by
    rw [eligible]
    split <;> exact ⟨_, rfl⟩
  rw [pickBody, hcs, hds]
  simp only [hchoose]

open Grammar (brackets compute?_brackets_ne_none)

/-- From zeros alone, the shortest word of brackets is made.  It takes a visit at depth zero and two
at depth one, so any greatest depth from two on gives the same word with the same draws. -/
theorem greatest_depth_is_not_reached_by_brackets :
    2 ≤ 12 ∧ (∀ v ∈ wordVisits brackets.rules.toList 2 brackets.balanced (Source.scripted []),
      v.depth < 2) ∧
    (wordVisits brackets.rules.toList 2 brackets.balanced (Source.scripted [])).length = 3 ∧
    brackets.generateFrom 12 brackets.balanced (Source.scripted []) =
      brackets.generateFrom 2 brackets.balanced (Source.scripted []) := by
  obtain ⟨ys, hys⟩ := Option.ne_none_iff_exists'.1 compute?_brackets_ne_none
  have hfound : (Yields.settle brackets.rules.toList .empty).map (fun y =>
      ((candidates brackets.rules.toList y brackets.balanced).toList.head?,
        (candidates brackets.rules.toList y ⟨'L', by decide⟩).toList.head?,
        (candidates brackets.rules.toList y ⟨'R', by decide⟩).toList.head?)) =
      some (some ⟨2, .binary ⟨'L', by decide⟩ ⟨'R', by decide⟩⟩,
        some ⟨1, .unit ⟨'l', by decide⟩⟩, some ⟨1, .unit ⟨'r', by decide⟩⟩) := by
    decide +kernel
  rw [← ShortestYields.map_yields_compute?, hys] at hfound
  simp only [Option.map_some, Option.some.injEq, Prod.mk.injEq, List.head?_eq_some_iff] at hfound
  obtain ⟨⟨cs, hS⟩, ⟨cs', hL⟩, cs'', hR⟩ := hfound
  have hpatient : 0 < Source.longPatience := by decide
  have hpickS : pickBody ys 2 0 brackets.balanced (zeros 0) = .ok _ (zeros 1) :=
    pickBody_of_zero hpatient rfl hS
  have hpickL : pickBody ys 2 1 ⟨'L', by decide⟩ (zeros 1) = .ok _ (zeros 2) :=
    pickBody_of_zero hpatient rfl hL
  have hpickR : pickBody ys 2 1 ⟨'R', by decide⟩ (zeros 2) = .ok _ (zeros 3) :=
    pickBody_of_zero hpatient rfl hR
  have hvisits : wordVisits brackets.rules.toList 2 brackets.balanced (Source.scripted []) =
      [visit ys 2 0 brackets.balanced (zeros 0), visit ys 2 1 ⟨'L', by decide⟩ (zeros 1),
        visit ys 2 1 ⟨'R', by decide⟩ (zeros 2)] := by
    have hleft : expand ys 2 1 ⟨'L', by decide⟩ (zeros 1) = .ok _ (zeros 2) :=
      expand_eq_unit_iff.2 ⟨rfl, _, hpickL⟩
    rw [wordVisits, hys]
    show visits ys 2 0 brackets.balanced (zeros 0) = _
    rw [visits_of_binary hpickS, visits_of_unit hpickL, hleft]
    show _ :: ([_] ++ visits ys 2 1 ⟨'R', _⟩ (zeros 2)) = _
    rw [visits_of_unit hpickR]
    rfl
  have habove : ∀ v ∈ wordVisits brackets.rules.toList 2 brackets.balanced (Source.scripted []),
      v.depth < 2 := by
    rw [hvisits]
    simp [visit]
  obtain ⟨-, -, hsame, -⟩ := greatest_depth_matters_only_where_reached (by decide : 2 ≤ 12)
    brackets.rules.toList brackets.balanced (Source.scripted [])
  exact ⟨by decide, habove, by rw [hvisits]; rfl, (hsame habove).2.2 brackets rfl⟩

end Generation

end ChomskyGrammar
