/-
# Stores that are written step by step

A store has the parts of a grammar, and each of them can be written.  It has a set of rules for some
nonterminals; such a set may have been made and still be empty, and then its nonterminal counts as
one that has rules when a pair is read.  `Store.perform` makes an edit in place: it looks at the
parts of the store and writes them one after the other, and what is written stays written if
something is refused afterwards.

An edit is atomic all the same (`atomic_perform`), as everything that can be refused is looked at
before anything is written.  An accepted edit changes a single part of the store by at most one
element (`effect_of_perform`).  So the refused ones among many edits can be left out
(`performAll_accepted`).
-/
import Mathlib.Logic.Function.Basic
import ChomskyGrammar.Proofs.Grammar.AcceptedEdits

namespace ChomskyGrammar

/-- The parts of a grammar, each of which can be written. -/
structure Store where
  nonterminals : SortedSet Nonterminal
  terminals : SortedSet Terminal
  start : Option Nonterminal
  /-- The bodies of the rules of a nonterminal, if it has a set of them, empty or not. -/
  ruleSet? : Nonterminal → Option (SortedSet Body)

namespace Store

/-- What reads and writes a store, and may be refused. -/
abbrev Action := EStateM GrammarError Store

variable {α β : Type} {s s' : Store}

/-! ### Edits -/

/-- The store in which nothing is declared. -/
def empty : Store := ⟨.empty, .empty, none, fun _ => none⟩

/-- What an option holds, or a refusal. -/
def orRefuse (refusal : GrammarError) : Option α → Action α
  | some x => pure x
  | none => throw refusal

/-- The nonterminal that a character denotes, if it is declared. -/
def declared (refusal : GrammarError) (c : Char) : Action Nonterminal := do
  let s ← get
  orRefuse refusal ((Nonterminal.ofChar? c).filter fun a => decide (a ∈ s.nonterminals))

/-- The nonterminal that a character denotes, if it has a set of rules. -/
def productive (c : Char) : Action Nonterminal := do
  let s ← get
  orRefuse (.undefinedInBody c) ((Nonterminal.ofChar? c).filter fun a => (s.ruleSet? a).isSome)

/-- Reads the body of a rule. -/
def readBody : List Char → Action Body
  | [c] => do
    let t ← orRefuse .malformedBody (Terminal.ofChar? c)
    let s ← get
    if t ∈ s.terminals then return .unit t else throw (.undefinedInBody c)
  | [l, r] =>
    if isUppercase l && isUppercase r then do
      let a ← productive l
      let b ← productive r
      return .binary a b
    else throw .malformedBody
  | _ => throw .malformedBody

/-- Makes an empty set of rules for a nonterminal that has none. -/
def makeRuleSet (a : Nonterminal) : Action Unit :=
  modify fun s =>
    { s with ruleSet? := Function.update s.ruleSet? a (some ((s.ruleSet? a).getD .empty)) }

/-- Puts a body into the set of rules of a nonterminal. -/
def putBody (a : Nonterminal) (b : Body) : Action Unit :=
  modify fun s =>
    { s with ruleSet? := Function.update s.ruleSet? a ((s.ruleSet? a).map fun bs => bs.insert b) }

def declareNonterminal (c : Char) : Action Unit := do
  let a ← ofExcept (Nonterminal.read c)
  let s ← get
  if a ∈ s.nonterminals then throw (.nonterminalRedeclared c)
  else set { s with nonterminals := s.nonterminals.insert a }

def declareTerminal (c : Char) : Action Unit := do
  let t ← ofExcept (Terminal.read c)
  let s ← get
  if t ∈ s.terminals then throw (.terminalRedeclared c)
  else set { s with terminals := s.terminals.insert t }

def setStart (c : Char) : Action Unit := do
  let a ← declared (.undeclaredStart c) c
  modify fun s => { s with start := some a }

/-- Adds a rule.  The head and the body are looked at before a set of rules is made. -/
def addRule (head : Char) (body : String) : Action Unit := do
  let a ← declared (.undeclaredHead head) head
  let b ← readBody body.toList
  makeRuleSet a
  putBody a b

/-- Makes an edit in place. -/
def perform : Edit → Action Unit
  | .declareNonterminal c => declareNonterminal c
  | .declareTerminal c => declareTerminal c
  | .setStart c => setStart c
  | .addRule head body => addRule head body
  | .reset => set empty

/-! ### Looking before writing -/

/-- How something ends that has left the store as it was. -/
def unwritten (s : Store) : Except GrammarError α → EStateM.Result GrammarError Store α
  | .ok x => .ok x s
  | .error e => .error e s

/-- Whether an action leaves the store as it is, however it ends. -/
def Looks (m : Action α) : Prop := ∀ s, ∃ r, m s = unwritten s r

/-- Whether an action leaves the store as it is if it is refused. -/
def Atomic (m : Action α) : Prop := ∀ s e s', m s = .error e s' → s' = s

lemma bind_of_ok {m : Action α} {k : α → Action β} {x : α} (h : m s = .ok x s') :
    (m >>= k) s = k x s' := by
  show EStateM.bind m k s = _
  simp only [EStateM.bind, h]

lemma bind_of_error {m : Action α} {k : α → Action β} {e : GrammarError} (h : m s = .error e s') :
    (m >>= k) s = .error e s' := by
  show EStateM.bind m k s = _
  simp only [EStateM.bind, h]

lemma looks_pure (x : α) : Looks (pure x) := fun _ => ⟨.ok x, rfl⟩

lemma looks_throw (e : GrammarError) : Looks (throw e : Action α) := fun _ => ⟨.error e, rfl⟩

lemma looks_get : Looks get := fun s => ⟨.ok s, rfl⟩

lemma Looks.bind {m : Action α} {k : α → Action β} (hm : Looks m) (hk : ∀ x, Looks (k x)) :
    Looks (m >>= k) := by
  intro s
  obtain ⟨r, hr⟩ := hm s
  cases r with
  | ok x =>
    rw [bind_of_ok hr]
    exact hk x s
  | error e => exact ⟨.error e, bind_of_error hr⟩

lemma looks_orRefuse (refusal : GrammarError) (x : Option α) : Looks (orRefuse refusal x) := by
  cases x with
  | none => exact looks_throw refusal
  | some x => exact looks_pure x

lemma looks_ofExcept (r : Except GrammarError α) : Looks (ofExcept r) := by
  cases r with
  | error e => exact looks_throw e
  | ok x => exact looks_pure x

lemma looks_declared (refusal : GrammarError) (c : Char) : Looks (declared refusal c) :=
  looks_get.bind fun _ => looks_orRefuse refusal _

lemma looks_productive (c : Char) : Looks (productive c) :=
  looks_get.bind fun _ => looks_orRefuse _ _

lemma looks_readBody (cs : List Char) : Looks (readBody cs) := by
  unfold readBody
  split
  · refine (looks_orRefuse _ _).bind fun t => looks_get.bind fun s => ?_
    split
    · exact looks_pure _
    · exact looks_throw _
  · split
    · exact (looks_productive _).bind fun a => (looks_productive _).bind fun b => looks_pure _
    · exact looks_throw _
  · exact looks_throw _

lemma atomic_throw (e : GrammarError) : Atomic (throw e : Action α) := by
  intro s e' s' h
  exact (EStateM.Result.error.inj h).2.symm

lemma atomic_of_ok {m : Action α} (h : ∀ s, ∃ x s', m s = .ok x s') : Atomic m := by
  intro s e s' he
  obtain ⟨x, s₁, hok⟩ := h s
  exact absurd (hok.symm.trans he) (by simp)

/-- What comes after a look is atomic with it. -/
lemma Looks.bind_atomic {m : Action α} {k : α → Action β} (hm : Looks m)
    (hk : ∀ x, Atomic (k x)) : Atomic (m >>= k) := by
  intro s e s' h
  obtain ⟨r, hr⟩ := hm s
  cases r with
  | ok x =>
    rw [bind_of_ok hr] at h
    exact hk x s e s' h
  | error e' =>
    rw [bind_of_error hr] at h
    exact (EStateM.Result.error.inj h).2.symm

/-- **An edit that is refused leaves the store as it is**, whatever store it is. -/
theorem atomic_perform (e : Edit) : Atomic (perform e) := by
  cases e with
  | declareNonterminal c =>
    refine (looks_ofExcept _).bind_atomic fun a => looks_get.bind_atomic fun s => ?_
    split
    · exact atomic_throw _
    · exact atomic_of_ok fun _ => ⟨_, _, rfl⟩
  | declareTerminal c =>
    refine (looks_ofExcept _).bind_atomic fun t => looks_get.bind_atomic fun s => ?_
    split
    · exact atomic_throw _
    · exact atomic_of_ok fun _ => ⟨_, _, rfl⟩
  | setStart c =>
    exact (looks_declared _ _).bind_atomic fun a => atomic_of_ok fun _ => ⟨_, _, rfl⟩
  | addRule head body =>
    -- The set of rules is made after the last look.
    refine (looks_declared _ _).bind_atomic fun a => (looks_readBody _).bind_atomic fun b => ?_
    exact atomic_of_ok fun _ => ⟨_, _, rfl⟩
  | reset => exact atomic_of_ok fun _ => ⟨_, _, rfl⟩

/-! ### What is written -/

/-- What an accepted edit does to a store: it adds one member to one set, or chooses the start
symbol; a set of rules that is missing is made, and a rule that is there already changes nothing. -/
inductive Effect (s : Store) : Edit → Store → Prop
  | newNonterminal {a : Nonterminal} (hnew : a ∉ s.nonterminals) :
    Effect s (.declareNonterminal a.char) { s with nonterminals := s.nonterminals.insert a }
  | newTerminal {t : Terminal} (hnew : t ∉ s.terminals) :
    Effect s (.declareTerminal t.char) { s with terminals := s.terminals.insert t }
  | start (a : Nonterminal) : Effect s (.setStart a.char) { s with start := some a }
  | firstRule {a : Nonterminal} (b : Body) (hnone : s.ruleSet? a = none) :
    Effect s (.addRule a.char b.text)
      { s with ruleSet? := Function.update s.ruleSet? a (some (SortedSet.empty.insert b)) }
  | newRule {a : Nonterminal} {b : Body} {bs : SortedSet Body} (hsome : s.ruleSet? a = some bs)
      (hnew : b ∉ bs) :
    Effect s (.addRule a.char b.text)
      { s with ruleSet? := Function.update s.ruleSet? a (some (bs.insert b)) }
  | oldRule {a : Nonterminal} {b : Body} {bs : SortedSet Body} (hsome : s.ruleSet? a = some bs)
      (hold : b ∈ bs) : Effect s (.addRule a.char b.text) s
  | reset : Effect s .reset empty

/-- What comes after a look starts where it started. -/
lemma Looks.exists_of_bind_eq_ok {m : Action α} {k : α → Action β} {y : β} (hm : Looks m)
    (h : (m >>= k) s = .ok y s') : ∃ x, m s = .ok x s ∧ k x s = .ok y s' := by
  obtain ⟨r, hr⟩ := hm s
  cases r with
  | ok x =>
    rw [bind_of_ok hr] at h
    exact ⟨x, hr, h⟩
  | error e =>
    rw [bind_of_error hr] at h
    exact absurd h (by simp)

lemma throw_ne_ok {e : GrammarError} {x : α} : (throw e : Action α) s ≠ .ok x s' := by
  intro h
  have herror : EStateM.Result.error e s = .ok x s' := h
  exact absurd herror (by simp)

lemma eq_some_of_orRefuse {refusal : GrammarError} {o : Option α} {x : α}
    (h : orRefuse refusal o s = .ok x s') : o = some x := by
  cases o with
  | none => exact absurd h throw_ne_ok
  | some y => exact congrArg some (EStateM.Result.ok.inj h).1

lemma eq_ok_of_ofExcept {r : Except GrammarError α} {x : α}
    (h : (ofExcept r : Action α) s = .ok x s') : r = .ok x := by
  cases r with
  | error e => exact absurd h throw_ne_ok
  | ok y => exact congrArg Except.ok (EStateM.Result.ok.inj h).1

lemma declared_apply (refusal : GrammarError) (c : Char) (s : Store) :
    declared refusal c s = orRefuse refusal
      ((Nonterminal.ofChar? c).filter fun a => decide (a ∈ s.nonterminals)) s := rfl

lemma productive_apply (c : Char) (s : Store) :
    productive c s = orRefuse (.undefinedInBody c)
      ((Nonterminal.ofChar? c).filter fun a => (s.ruleSet? a).isSome) s := rfl

lemma char_of_declared {refusal : GrammarError} {c : Char} {a : Nonterminal}
    (h : declared refusal c s = .ok a s') : a.char = c := by
  rw [declared_apply] at h
  exact Nonterminal.ofChar?_eq_some_iff.1 (Option.filter_eq_some_iff.1 (eq_some_of_orRefuse h)).1

lemma char_of_productive {c : Char} {a : Nonterminal} (h : productive c s = .ok a s') :
    a.char = c := by
  rw [productive_apply] at h
  exact Nonterminal.ofChar?_eq_some_iff.1 (Option.filter_eq_some_iff.1 (eq_some_of_orRefuse h)).1

/-- A body is read from the characters that it is written as. -/
lemma chars_of_readBody {cs : List Char} {b : Body} (h : readBody cs s = .ok b s') :
    cs = b.chars := by
  unfold readBody at h
  split at h
  · obtain ⟨t, ht, h⟩ := (looks_orRefuse _ _).exists_of_bind_eq_ok h
    obtain ⟨s₁, hs₁, h⟩ := looks_get.exists_of_bind_eq_ok h
    split at h
    · obtain ⟨rfl, -⟩ := EStateM.Result.ok.inj h
      rw [Body.chars, Terminal.ofChar?_eq_some_iff.1 (eq_some_of_orRefuse ht)]
    · exact absurd h throw_ne_ok
  · split at h
    · obtain ⟨a, ha, h⟩ := (looks_productive _).exists_of_bind_eq_ok h
      obtain ⟨b, hb, h⟩ := (looks_productive _).exists_of_bind_eq_ok h
      obtain ⟨rfl, -⟩ := EStateM.Result.ok.inj h
      rw [Body.chars, char_of_productive ha, char_of_productive hb]
    · exact absurd h throw_ne_ok
  · exact absurd h throw_ne_ok

/-- The store with a body in the set of rules of a nonterminal, which is made if it is missing. -/
def withBody (s : Store) (a : Nonterminal) (b : Body) : Store :=
  { s with
    ruleSet? := Function.update s.ruleSet? a (some (((s.ruleSet? a).getD .empty).insert b)) }

lemma makeRuleSet_putBody (s : Store) (a : Nonterminal) (b : Body) :
    (makeRuleSet a >>= fun _ => putBody a b) s = .ok () (s.withBody a b) := by
  refine congrArg (fun sets => EStateM.Result.ok () { s with ruleSet? := sets }) ?_
  simp only [Function.update_self, Function.update_idem, Option.map_some]

lemma effect_withBody (s : Store) (a : Nonterminal) (b : Body) :
    s.Effect (.addRule a.char b.text) (s.withBody a b) := by
  rw [withBody]
  cases hset : s.ruleSet? a with
  | none => exact .firstRule b hset
  | some bs =>
    by_cases hmem : b ∈ bs
    · rw [Option.getD_some, SortedSet.insert_eq_self hmem, ← hset, Function.update_eq_self]
      exact .oldRule hset hmem
    · exact .newRule hset hmem

/-- **An edit that is accepted has its effect on the store, and no other.** -/
theorem effect_of_perform {e : Edit} (h : perform e s = .ok () s') : s.Effect e s' := by
  cases e with
  | declareNonterminal c =>
    obtain ⟨a, ha, hlook⟩ := (looks_ofExcept _).exists_of_bind_eq_ok h
    obtain ⟨s₁, hs₁, hset⟩ := looks_get.exists_of_bind_eq_ok hlook
    obtain ⟨rfl, -⟩ := EStateM.Result.ok.inj hs₁
    obtain rfl := Nonterminal.char_of_read (eq_ok_of_ofExcept ha)
    split at hset
    · exact absurd hset throw_ne_ok
    · rename_i hnew
      obtain ⟨-, rfl⟩ := EStateM.Result.ok.inj hset
      exact .newNonterminal hnew
  | declareTerminal c =>
    obtain ⟨t, ht, hlook⟩ := (looks_ofExcept _).exists_of_bind_eq_ok h
    obtain ⟨s₁, hs₁, hset⟩ := looks_get.exists_of_bind_eq_ok hlook
    obtain ⟨rfl, -⟩ := EStateM.Result.ok.inj hs₁
    obtain rfl := Terminal.char_of_read (eq_ok_of_ofExcept ht)
    split at hset
    · exact absurd hset throw_ne_ok
    · rename_i hnew
      obtain ⟨-, rfl⟩ := EStateM.Result.ok.inj hset
      exact .newTerminal hnew
  | setStart c =>
    obtain ⟨a, ha, hset⟩ := (looks_declared _ _).exists_of_bind_eq_ok h
    obtain rfl := char_of_declared ha
    obtain ⟨-, rfl⟩ := EStateM.Result.ok.inj hset
    exact .start a
  | addRule head body =>
    obtain ⟨a, ha, hbody⟩ := (looks_declared _ _).exists_of_bind_eq_ok h
    obtain ⟨b, hb, hput⟩ := (looks_readBody _).exists_of_bind_eq_ok hbody
    obtain rfl := char_of_declared ha
    obtain rfl : body = b.text := by
      rw [Body.text, ← chars_of_readBody hb, String.ofList_toList]
    obtain ⟨-, rfl⟩ := EStateM.Result.ok.inj ((s.makeRuleSet_putBody a b).symm.trans hput)
    exact s.effect_withBody a b
  | reset =>
    obtain ⟨-, rfl⟩ := EStateM.Result.ok.inj h
    exact .reset

/-! ### Many edits -/

/-- Makes edits one after the other, whether or not one is refused, and lists for each of them
what it is refused for. -/
def performAll (s : Store) : List Edit → List (Edit × Option GrammarError) × Store
  | [] => ([], s)
  | e :: es =>
    match perform e s with
    | .ok _ s' => ((e, none) :: (s'.performAll es).1, (s'.performAll es).2)
    | .error err s' => ((e, some err) :: (s'.performAll es).1, (s'.performAll es).2)

/-- The part of a log that is about accepted edits. -/
def acceptedPart (log : List (Edit × Option GrammarError)) : List (Edit × Option GrammarError) :=
  log.filter fun entry => entry.2.isNone

lemma map_fst_performAll (s : Store) (es : List Edit) : (s.performAll es).1.map Prod.fst = es := by
  induction es generalizing s with
  | nil => rfl
  | cons e es ih =>
    rw [performAll]
    cases perform e s <;> simp [ih]

/-- **Without its refused edits, a list of edits is accepted and does the same.** -/
theorem performAll_accepted (s : Store) (es : List Edit) :
    s.performAll ((acceptedPart (s.performAll es).1).map Prod.fst) =
      (acceptedPart (s.performAll es).1, (s.performAll es).2) := by
  induction es generalizing s with
  | nil => rfl
  | cons e es ih =>
    rw [performAll]
    cases h : perform e s with
    | ok x s' =>
      have hkept : acceptedPart ((e, none) :: (s'.performAll es).1) =
        (e, none) :: acceptedPart (s'.performAll es).1 := rfl
      rw [hkept, List.map_cons, performAll, h]
      simp only [ih]
    | error err s' =>
      -- The edit is left out, and the next one finds the store that it would have found.
      obtain rfl := atomic_perform e s err s' h
      exact ih s'

end Store

end ChomskyGrammar
