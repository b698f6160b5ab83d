/-
# Every well-formed grammar can be built

The rules of a grammar can be added one after the other if each binary rule comes after a
rule of both of its halves.  Such an order always exists when the halves derive words
(`exists_perm_admissible`), also if the rules are recursive: as long as rules are missing,
one of them can come next, because a derivation of a nonterminal without rules so far would
have to use a missing rule that cannot.  Adding the rules in such an order, once all symbols
are declared, builds the grammar; so the reachable grammars are exactly the well-formed ones
(`WellFormed.reachable`).
-/
import ChomskyGrammar.Proofs.Grammar.Reachable

namespace ChomskyGrammar

/-! ### Orders of rules -/

/-- Whether some rules have the halves of a body among their heads. -/
def Body.SupportedBy (rules : List Rule) : Body → Prop
  | .binary b c => (∃ r ∈ rules, r.head = b) ∧ ∃ r ∈ rules, r.head = c
  | .unit _ => True

/-- Whether every binary rule of a list comes after rules of both of its halves. -/
def Admissible (rules : List Rule) : Prop :=
  ∀ before r after, rules = before ++ r :: after → r.body.SupportedBy before

lemma admissible_nil : Admissible [] := by
  intro before r after h
  simp at h

lemma admissible_concat {rules : List Rule} {r : Rule} :
    Admissible (rules ++ [r]) ↔ Admissible rules ∧ r.body.SupportedBy rules := by
  constructor
  · intro h
    refine ⟨fun before q after hq => ?_, h rules r [] rfl⟩
    exact h before q (after ++ [r]) (by rw [hq]; simp)
  · rintro ⟨hrules, hr⟩ before q after h
    -- The rule in question is the last one, or there is a shorter list behind it.
    rcases List.eq_nil_or_concat after with rfl | ⟨after, q', rfl⟩
    · obtain ⟨rfl, hq⟩ := List.append_inj' h rfl
      obtain rfl : r = q := by simpa using hq
      exact hr
    · have h' : rules ++ [r] = (before ++ q :: after) ++ [q'] := by simpa using h
      obtain ⟨hinit, -⟩ := List.append_inj' h' rfl
      exact hrules before q after hinit

lemma admissible_iff_take {rules : List Rule} :
    Admissible rules ↔
      ∀ (i : Nat) (hi : i < rules.length), rules[i].body.SupportedBy (rules.take i) := by
  constructor
  · intro h i hi
    exact h (rules.take i) rules[i] (rules.drop (i + 1)) (by simp)
  · rintro h before r after rfl
    simpa using h before.length (by simp)

instance Body.decidableSupportedBy (rules : List Rule) :
    (b : Body) → Decidable (b.SupportedBy rules)
  | .binary b c =>
    inferInstanceAs (Decidable ((∃ r ∈ rules, r.head = b) ∧ ∃ r ∈ rules, r.head = c))
  | .unit _ => .isTrue trivial

instance : DecidablePred Admissible := fun _ => decidable_of_iff _ admissible_iff_take.symm

/-- While rules are missing, one of them can come next. -/
lemma exists_supported {rules done rest : List Rule}
    (hsplit : ∀ r, r ∈ rules ↔ r ∈ done ∨ r ∈ rest) (hne : rest ≠ [])
    (hwords : ∀ a b c, (⟨a, .binary b c⟩ : Rule) ∈ rules →
      (∃ u, Derives rules b u) ∧ ∃ v, Derives rules c v) :
    ∃ r ∈ rest, r.body.SupportedBy done := by
  by_contra hstuck
  -- If no missing rule is supported, derivations never use one.
  have hdone : ∀ r ∈ rules, r.body.SupportedBy done → r ∈ done := by
    intro r hr hsupp
    rcases (hsplit r).1 hr with h | h
    · exact h
    · exact absurd ⟨r, h, hsupp⟩ hstuck
  have hheads : ∀ a w, Derives rules a w → ∃ r ∈ done, r.head = a := by
    intro a w h
    induction h using Derives.induct with
    | unit a t hr => exact ⟨_, hdone _ hr trivial, rfl⟩
    | binary a b c u v hr _ _ ihb ihc => exact ⟨_, hdone _ hr ⟨ihb, ihc⟩, rfl⟩
  obtain ⟨⟨a, body⟩, hr⟩ := List.exists_mem_of_ne_nil rest hne
  refine hstuck ⟨⟨a, body⟩, hr, ?_⟩
  cases body with
  | unit t => exact trivial
  | binary b c =>
    obtain ⟨⟨u, hu⟩, v, hv⟩ := hwords a b c ((hsplit _).2 (.inr hr))
    exact ⟨hheads b u hu, hheads c v hv⟩

/-- An admissible list of some of the rules extends to one of all of them. -/
lemma exists_admissible_append {rules done rest : List Rule}
    (hperm : (done ++ rest).Perm rules) (hdone : Admissible done)
    (hwords : ∀ a b c, (⟨a, .binary b c⟩ : Rule) ∈ rules →
      (∃ u, Derives rules b u) ∧ ∃ v, Derives rules c v) :
    ∃ order : List Rule, order.Perm rules ∧ Admissible order := by
  induction hn : rest.length generalizing done rest with
  | zero =>
    obtain rfl := List.eq_nil_of_length_eq_zero hn
    exact ⟨done, by simpa using hperm, hdone⟩
  | succ n ih =>
    have hsplit : ∀ r, r ∈ rules ↔ r ∈ done ∨ r ∈ rest := by
      intro r
      rw [← hperm.mem_iff, List.mem_append]
    have hne : rest ≠ [] := by
      rintro rfl
      simp at hn
    obtain ⟨r, hr, hsupp⟩ := exists_supported hsplit hne hwords
    have hmove : (done ++ rest).Perm ((done ++ [r]) ++ rest.erase r) := by
      rw [List.append_assoc]
      exact (List.perm_cons_erase hr).append_left done
    refine ih (hmove.symm.trans hperm) (admissible_concat.2 ⟨hdone, hsupp⟩) ?_
    rw [List.length_erase_of_mem hr, hn, Nat.add_sub_cancel]

/-- A set is made of any list of its members. -/
lemma SortedSet.ofList_eq_of_mem_iff {α : Type} [Ranked α] {l : List α} {s : SortedSet α}
    (h : ∀ x, x ∈ l ↔ x ∈ s) : ofList l = s :=
  ext_mem fun x => mem_ofList.trans (h x)

/-- The members of a set are listed once each. -/
lemma SortedSet.nodup {α : Type} [Ranked α] (s : SortedSet α) : s.toList.Nodup :=
  s.ascending.imp fun {a b} hlt (heq : a = b) => Nat.lt_irrefl _ (heq ▸ hlt)

namespace Grammar

variable {g : Grammar}

/-- The rules of a well-formed grammar can be put in an order in which every binary rule
comes after rules of both of its halves. -/
theorem WellFormed.exists_perm_admissible (hg : g.WellFormed) :
    ∃ order : List Rule, order.Perm g.rules.toList ∧ Admissible order := by
  have hperm : ([] ++ g.rules.toList).Perm g.rules.toList := List.Perm.refl _
  refine exists_admissible_append hperm admissible_nil ?_
  intro a b c h
  obtain ⟨hb, hc⟩ := hg.halves_mem a b c h
  exact ⟨hg.productive b hb, hg.productive c hc⟩

/-! ### Building a grammar -/

/-- The edit that adds a rule. -/
def additionOf (r : Rule) : Edit := .addRule r.head.char r.body.text

/-- A first edit that succeeds is followed by the others. -/
lemma foldlM_cons_of_ok {e : Edit} {es : List Edit} {g' : Grammar} (h : g.edit e = .ok g') :
    (e :: es).foldlM edit g = es.foldlM edit g' := by
  rw [List.foldlM_cons, h]
  rfl

/-- Edits that succeed are followed by any others. -/
lemma foldlM_append_of_ok {es es' : List Edit} {g' : Grammar} (h : es.foldlM edit g = .ok g') :
    (es ++ es').foldlM edit g = es'.foldlM edit g' := by
  rw [List.foldlM_append, h]
  rfl

/-- Symbols that are new to a set of a grammar are declared one after the other. -/
lemma foldlM_declare {α : Type} [Ranked α] (declare : α → Edit) (put : SortedSet α → Grammar)
    (hdeclare : ∀ (s : SortedSet α) (x : α), x ∉ s →
      (put s).edit (declare x) = .ok (put (s.insert x)))
    {xs : List α} {s : SortedSet α} (hnodup : xs.Nodup) (hnew : ∀ x ∈ xs, x ∉ s) :
    (xs.map declare).foldlM edit (put s) = .ok (put (s.insertAll xs)) := by
  induction xs generalizing s with
  | nil => rfl
  | cons x xs ih =>
    obtain ⟨hx, hnodup⟩ := List.nodup_cons.1 hnodup
    have hedit := hdeclare s x (hnew x List.mem_cons_self)
    rw [List.map_cons, foldlM_cons_of_ok hedit, ih hnodup]
    · rfl
    · intro y hy hmem
      rcases SortedSet.mem_insert.1 hmem with rfl | hmem
      · exact hx hy
      · exact hnew y (List.mem_cons_of_mem x hy) hmem

lemma foldlM_declareNonterminal {as : List Nonterminal} (hnodup : as.Nodup)
    (hnew : ∀ a ∈ as, a ∉ g.nonterminals) :
    (as.map fun a => Edit.declareNonterminal a.char).foldlM edit g =
      .ok { g with nonterminals := g.nonterminals.insertAll as } := by
  refine foldlM_declare _ (fun s => { g with nonterminals := s }) (fun s a ha => ?_) hnodup hnew
  exact (declareNonterminal_eq_ok_iff (g := { g with nonterminals := s })).2 ⟨a, rfl, ha, rfl⟩

lemma foldlM_declareTerminal {ts : List Terminal} (hnodup : ts.Nodup)
    (hnew : ∀ t ∈ ts, t ∉ g.terminals) :
    (ts.map fun t => Edit.declareTerminal t.char).foldlM edit g =
      .ok { g with terminals := g.terminals.insertAll ts } := by
  refine foldlM_declare _ (fun s => { g with terminals := s }) (fun s t ht => ?_) hnodup hnew
  exact (declareTerminal_eq_ok_iff (g := { g with terminals := s })).2 ⟨t, rfl, ht, rfl⟩

lemma foldlM_setStart (hg : g.start = none) {start : Option Nonterminal}
    (h : ∀ a, start = some a → a ∈ g.nonterminals) :
    (start.toList.map fun a => Edit.setStart a.char).foldlM edit g =
      .ok { g with start := start } := by
  cases start with
  | none =>
    show Except.ok g = .ok { g with start := none }
    rw [← hg]
  | some a => exact foldlM_cons_of_ok (setStart_eq_ok_iff.2 ⟨a, rfl, h a rfl, rfl⟩)

/-- A body is admitted once the rules it depends on are there. -/
lemma admits_of_supportedBy {rules : List Rule} {b : Body} (hsupp : b.SupportedBy rules)
    (hletter : ∀ t, b = .unit t → t ∈ g.terminals) :
    ({ g with rules := g.rules.insertAll rules } : Grammar).Admits b := by
  have hmem : ∀ a, (∃ q ∈ rules, q.head = a) →
      a ∈ ({ g with rules := g.rules.insertAll rules } : Grammar).heads := by
    rintro a ⟨⟨a, body⟩, hq, rfl⟩
    exact mem_heads.2 ⟨body, SortedSet.mem_insertAll.2 (.inl hq)⟩
  cases b with
  | unit t => exact hletter t rfl
  | binary b c => exact ⟨hmem b hsupp.1, hmem c hsupp.2⟩

/-- Rules in an admissible order are all accepted, if their symbols are declared. -/
lemma foldlM_additionOf {rules : List Rule} (horder : Admissible rules)
    (hheads : ∀ r ∈ rules, r.head ∈ g.nonterminals)
    (hletters : ∀ a t, (⟨a, .unit t⟩ : Rule) ∈ rules → t ∈ g.terminals) :
    (rules.map additionOf).foldlM edit g =
      .ok { g with rules := g.rules.insertAll rules } := by
  induction rules using List.reverseRecOn with
  | nil => rfl
  | append_singleton rules r ih =>
    obtain ⟨horder, hsupp⟩ := admissible_concat.1 horder
    have hprev := ih horder (fun q hq => hheads q (List.mem_append_left _ hq))
      (fun a t ht => hletters a t (List.mem_append_left _ ht))
    have hbody : ({ g with rules := g.rules.insertAll rules } : Grammar).Admits r.body := by
      refine admits_of_supportedBy hsupp ?_
      intro t ht
      exact hletters r.head t (by simp [← ht])
    have hedit : Grammar.edit { g with rules := g.rules.insertAll rules } (additionOf r) =
        .ok { g with rules := (g.rules.insertAll rules).insert r } :=
      addRule_eq_ok_iff.2 ⟨r, rfl, by simp [Body.text], hheads r (by simp), hbody, rfl⟩
    rw [List.map_append, foldlM_append_of_ok hprev, List.map_singleton, foldlM_cons_of_ok hedit,
      SortedSet.insertAll, SortedSet.insertAll, List.foldl_append]
    rfl

/-- The edits that declare some symbols, choose a start symbol and then add some rules. -/
def buildingEdits (nonterminals : List Nonterminal) (terminals : List Terminal)
    (start : Option Nonterminal) (order : List Rule) : List Edit :=
  (nonterminals.map fun a => .declareNonterminal a.char) ++
    ((terminals.map fun t => .declareTerminal t.char) ++
      ((start.toList.map fun a => .setStart a.char) ++ order.map additionOf))

/-- A well-formed grammar is built by declaring its symbols, each once, choosing its start symbol
and adding its rules in any admissible order.  None of these edits is refused. -/
theorem WellFormed.foldlM_buildingEdits (hg : g.WellFormed) {nonterminals : List Nonterminal}
    {terminals : List Terminal} {order : List Rule}
    (hnonterminals : nonterminals.Perm g.nonterminals.toList)
    (hterminals : terminals.Perm g.terminals.toList) (horder : order.Perm g.rules.toList)
    (hadmissible : Admissible order) :
    (buildingEdits nonterminals terminals g.start order).foldlM Grammar.edit empty = .ok g := by
  have hnonterminals' : SortedSet.empty.insertAll nonterminals = g.nonterminals :=
    SortedSet.ofList_eq_of_mem_iff fun a => hnonterminals.mem_iff
  have hterminals' : SortedSet.empty.insertAll terminals = g.terminals :=
    SortedSet.ofList_eq_of_mem_iff fun t => hterminals.mem_iff
  have hrules : SortedSet.empty.insertAll order = g.rules :=
    SortedSet.ofList_eq_of_mem_iff fun r => horder.mem_iff
  rw [buildingEdits, foldlM_append_of_ok (foldlM_declareNonterminal ?_ ?_),
    foldlM_append_of_ok (foldlM_declareTerminal ?_ ?_),
    foldlM_append_of_ok (foldlM_setStart rfl ?_), foldlM_additionOf hadmissible]
  · simp only [empty, hnonterminals', hterminals', hrules]
  · intro r hr
    show r.head ∈ SortedSet.empty.insertAll nonterminals
    rw [hnonterminals']
    exact hg.head_mem r.head (mem_heads.2 ⟨r.body, horder.mem_iff.1 hr⟩)
  · intro a t ht
    show t ∈ SortedSet.empty.insertAll terminals
    rw [hterminals']
    exact hg.letter_mem a t (horder.mem_iff.1 ht)
  · intro a ha
    show a ∈ SortedSet.empty.insertAll nonterminals
    rw [hnonterminals']
    exact hg.start_mem a ha
  · exact hterminals.nodup_iff.2 g.terminals.nodup
  · exact fun t _ => SortedSet.not_mem_empty t
  · exact hnonterminals.nodup_iff.2 g.nonterminals.nodup
  · exact fun a _ => SortedSet.not_mem_empty a

/-- Every well-formed grammar is reachable. -/
theorem WellFormed.reachable (hg : g.WellFormed) : g.Reachable := by
  obtain ⟨order, hperm, horder⟩ := hg.exists_perm_admissible
  have hedits := hg.foldlM_buildingEdits (List.Perm.refl _) (List.Perm.refl _) hperm horder
  exact ⟨_, foldl_attempt_of_foldlM hedits⟩

end Grammar

end ChomskyGrammar
