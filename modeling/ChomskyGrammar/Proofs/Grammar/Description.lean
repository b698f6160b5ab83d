/-
# Which descriptions are those of a reachable grammar

A description says what a grammar declares, what it starts from and which bodies which heads
have, all in terms of characters.  Nothing ties its parts together: a letter can be declared
in the wrong alphabet, a head can be undeclared or have no bodies, a body can use symbols that
nothing is known about.  The main result `exists_run_describe_iff` says which descriptions are
those of a grammar that some edits have built.

* A grammar is described by `Grammar.describe`, and the description of a well-formed grammar is
  well formed (`WellFormed.describe`).
* A description is turned into a grammar by `Description.grammar`.  The grammar of a well-formed
  description is well formed (`WellFormed.grammar`) and has that description
  (`WellFormed.describe_grammar`).
-/
import Mathlib.Data.Finset.Dedup
import ChomskyGrammar.Proofs.Grammar.RuleOrder

namespace ChomskyGrammar

/-- A body as it is written, with characters of any kind. -/
inductive Spelling where
  | letter (t : Char)
  | pair (b c : Char)
deriving DecidableEq

/-- What can be said about a grammar in terms of characters. -/
structure Description where
  nonterminals : Finset Char
  terminals : Finset Char
  start : Option Char
  /-- The bodies of each head.  As there are finitely many characters, there are finitely many
  heads. -/
  bodies : Char → Option (Finset Spelling)

namespace Description

/-- Which words a character makes by the bodies of a description. -/
inductive Makes (d : Description) : Char → List Char → Prop where
  | letter {a t : Char} {bs : Finset Spelling} (ha : d.bodies a = some bs)
      (ht : .letter t ∈ bs) : Makes d a [t]
  | pair {a b c : Char} {u v : List Char} {bs : Finset Spelling} (ha : d.bodies a = some bs)
      (hbc : .pair b c ∈ bs) (hu : Makes d b u) (hv : Makes d c v) : Makes d a (u ++ v)

/-- Whether a character is a head with some body. -/
def HasBody (d : Description) (c : Char) : Prop := ∃ bs, d.bodies c = some bs ∧ bs.Nonempty

/-- How the parts of a description have to fit together. -/
structure WellFormed (d : Description) : Prop where
  uppercase : ∀ c ∈ d.nonterminals, isUppercase c = true
  lowercase : ∀ c ∈ d.terminals, isLowercase c = true
  start_mem : ∀ c, d.start = some c → c ∈ d.nonterminals
  head_mem : ∀ a bs, d.bodies a = some bs → a ∈ d.nonterminals ∧ bs.Nonempty
  letter_mem : ∀ a bs t, d.bodies a = some bs → .letter t ∈ bs → t ∈ d.terminals
  halves_mem : ∀ a bs b c, d.bodies a = some bs → .pair b c ∈ bs → d.HasBody b ∧ d.HasBody c
  productive : ∀ a bs, d.bodies a = some bs → ∃ w, d.Makes a w

end Description

/-- How a body is written. -/
def Body.spell : Body → Spelling
  | .unit t => .letter t.char
  | .binary b c => .pair b.char c.char

/-- The body that is written in some way, if there is one. -/
def Spelling.body? : Spelling → Option Body
  | .letter t => (Terminal.ofChar? t).map .unit
  | .pair b c => (Nonterminal.ofChar? b).bind fun b => (Nonterminal.ofChar? c).map (.binary b)

lemma Spelling.body?_eq_some_iff {s : Spelling} {b : Body} : s.body? = some b ↔ b.spell = s := by
  cases s with
  | letter t =>
    simp only [body?, Option.map_eq_some_iff, Terminal.ofChar?_eq_some_iff]
    constructor
    · rintro ⟨t', rfl, rfl⟩
      rfl
    · intro h
      cases b with
      | unit t' => exact ⟨t', Spelling.letter.inj h, rfl⟩
      | binary b c => exact absurd h (by simp [Body.spell])
  | pair b' c' =>
    simp only [body?, Option.bind_eq_some_iff, Option.map_eq_some_iff,
      Nonterminal.ofChar?_eq_some_iff]
    constructor
    · rintro ⟨b, rfl, c, rfl, rfl⟩
      rfl
    · intro h
      cases b with
      | unit t => exact absurd h (by simp [Body.spell])
      | binary b c =>
        obtain ⟨hb, hc⟩ := Spelling.pair.inj h
        exact ⟨b, hb, c, hc, rfl⟩

/-! ### The description of a grammar -/

namespace Grammar

variable {g : Grammar}

/-- How the bodies of a nonterminal are written. -/
def spellings (g : Grammar) (a : Nonterminal) : Finset Spelling :=
  ((g.bodies a).toList.map Body.spell).toFinset

/-- The description of a grammar. -/
def describe (g : Grammar) : Description where
  nonterminals := (g.nonterminals.toList.map fun a => a.char).toFinset
  terminals := (g.terminals.toList.map fun t => t.char).toFinset
  start := g.start.map fun a => a.char
  bodies c := (g.productive? c).map g.spellings

lemma mem_spellings {a : Nonterminal} {s : Spelling} :
    s ∈ g.spellings a ↔ ∃ b, (⟨a, b⟩ : Rule) ∈ g.rules ∧ b.spell = s := by
  simp only [spellings, List.mem_toFinset, List.mem_map]
  exact exists_congr fun b => and_congr_left fun _ => mem_bodies

lemma mem_nonterminals_describe {c : Char} :
    c ∈ g.describe.nonterminals ↔ ∃ a ∈ g.nonterminals, a.char = c := by
  simp only [describe, List.mem_toFinset, List.mem_map]
  rfl

lemma mem_terminals_describe {c : Char} :
    c ∈ g.describe.terminals ↔ ∃ t ∈ g.terminals, t.char = c := by
  simp only [describe, List.mem_toFinset, List.mem_map]
  rfl

lemma bodies_describe_eq_some_iff {c : Char} {bs : Finset Spelling} :
    g.describe.bodies c = some bs ↔ ∃ a ∈ g.heads, a.char = c ∧ g.spellings a = bs := by
  simp only [describe, Option.map_eq_some_iff, productive?_eq_some_iff]
  constructor
  · rintro ⟨a, ⟨hc, ha⟩, rfl⟩
    exact ⟨a, ha, hc, rfl⟩
  · rintro ⟨a, ha, hc, rfl⟩
    exact ⟨a, ⟨hc, ha⟩, rfl⟩

/-- A rule is found in the description, among the bodies of its head. -/
lemma exists_bodies_of_rule {r : Rule} (hr : r ∈ g.rules) :
    ∃ bs, g.describe.bodies r.head.char = some bs ∧ r.body.spell ∈ bs := by
  have hhead : r.head ∈ g.heads := mem_heads.2 ⟨r.body, hr⟩
  refine ⟨g.spellings r.head, bodies_describe_eq_some_iff.2 ⟨r.head, hhead, rfl, rfl⟩, ?_⟩
  exact mem_spellings.2 ⟨r.body, hr, rfl⟩

lemma hasBody_describe {a : Nonterminal} (ha : a ∈ g.heads) : g.describe.HasBody a.char := by
  obtain ⟨b, hb⟩ := mem_heads.1 ha
  obtain ⟨bs, hbs, hmem⟩ := exists_bodies_of_rule hb
  exact ⟨bs, hbs, b.spell, hmem⟩

lemma makes_describe {a : Nonterminal} {w : List Terminal} (h : Derives g.rules.toList a w) :
    g.describe.Makes a.char (w.map fun t => t.char) := by
  induction h using Derives.induct with
  | unit a t hrule =>
    obtain ⟨bs, hbs, ht⟩ := exists_bodies_of_rule hrule
    exact .letter hbs ht
  | binary a b c u v hrule _ _ ihu ihv =>
    obtain ⟨bs, hbs, hbc⟩ := exists_bodies_of_rule hrule
    rw [List.map_append]
    exact .pair hbs hbc ihu ihv

/-- The description of a well-formed grammar is well formed. -/
theorem WellFormed.describe (hg : g.WellFormed) : g.describe.WellFormed where
  uppercase c hc := by
    obtain ⟨a, -, rfl⟩ := mem_nonterminals_describe.1 hc
    exact a.uppercase
  lowercase c hc := by
    obtain ⟨t, -, rfl⟩ := mem_terminals_describe.1 hc
    exact t.lowercase
  start_mem c hc := by
    obtain ⟨a, ha, rfl⟩ := Option.map_eq_some_iff.1 hc
    exact mem_nonterminals_describe.2 ⟨a, hg.start_mem a ha, rfl⟩
  head_mem c bs hc := by
    obtain ⟨a, ha, rfl, rfl⟩ := bodies_describe_eq_some_iff.1 hc
    obtain ⟨b, hb⟩ := mem_heads.1 ha
    refine ⟨mem_nonterminals_describe.2 ⟨a, hg.head_mem a ha, rfl⟩, b.spell, ?_⟩
    exact mem_spellings.2 ⟨b, hb, rfl⟩
  letter_mem c bs t hc ht := by
    obtain ⟨a, -, rfl, rfl⟩ := bodies_describe_eq_some_iff.1 hc
    obtain ⟨b, hb, hspell⟩ := mem_spellings.1 ht
    cases b with
    | unit t' =>
      obtain rfl := Spelling.letter.inj hspell
      exact mem_terminals_describe.2 ⟨t', hg.letter_mem a t' hb, rfl⟩
    | binary b c => exact absurd hspell (by simp [Body.spell])
  halves_mem x bs y z hx hyz := by
    obtain ⟨a, -, rfl, rfl⟩ := bodies_describe_eq_some_iff.1 hx
    obtain ⟨b, hb, hspell⟩ := mem_spellings.1 hyz
    cases b with
    | unit t => exact absurd hspell (by simp [Body.spell])
    | binary b c =>
      obtain ⟨rfl, rfl⟩ := Spelling.pair.inj hspell
      have hhalves := hg.halves_mem a b c hb
      exact ⟨hasBody_describe hhalves.1, hasBody_describe hhalves.2⟩
  productive c bs hc := by
    obtain ⟨a, ha, rfl, -⟩ := bodies_describe_eq_some_iff.1 hc
    obtain ⟨w, hw⟩ := hg.productive a ha
    exact ⟨_, makes_describe hw⟩

end Grammar

/-! ### The grammar of a description -/

namespace Description

variable {d : Description}

/-- The rule with a head and a body that are written in some way, if there is one. -/
def rule? (c : Char) (s : Spelling) : Option Rule :=
  (Nonterminal.ofChar? c).bind fun a => s.body?.map (Rule.mk a)

/-- The grammar of a description, without all that is in the wrong alphabet. -/
noncomputable def grammar (d : Description) : Grammar where
  nonterminals := .ofList (d.nonterminals.toList.filterMap Nonterminal.ofChar?)
  terminals := .ofList (d.terminals.toList.filterMap Terminal.ofChar?)
  start := d.start.bind Nonterminal.ofChar?
  rules := .ofList (d.nonterminals.toList.flatMap fun c =>
    ((d.bodies c).getD ∅).toList.filterMap (rule? c))

lemma rule?_eq_some_iff {c : Char} {s : Spelling} {r : Rule} :
    rule? c s = some r ↔ r.head.char = c ∧ r.body.spell = s := by
  obtain ⟨a, b⟩ := r
  simp only [rule?, Option.bind_eq_some_iff, Option.map_eq_some_iff,
    Nonterminal.ofChar?_eq_some_iff, Spelling.body?_eq_some_iff, Rule.mk.injEq]
  constructor
  · rintro ⟨a, rfl, b, rfl, rfl, rfl⟩
    exact ⟨rfl, rfl⟩
  · rintro ⟨rfl, rfl⟩
    exact ⟨a, rfl, b, rfl, rfl, rfl⟩

lemma mem_nonterminals_grammar {a : Nonterminal} :
    a ∈ d.grammar.nonterminals ↔ a.char ∈ d.nonterminals := by
  simp only [grammar, SortedSet.mem_ofList, List.mem_filterMap, Finset.mem_toList,
    Nonterminal.ofChar?_eq_some_iff, exists_eq_right']

lemma mem_terminals_grammar {t : Terminal} :
    t ∈ d.grammar.terminals ↔ t.char ∈ d.terminals := by
  simp only [grammar, SortedSet.mem_ofList, List.mem_filterMap, Finset.mem_toList,
    Terminal.ofChar?_eq_some_iff, exists_eq_right']

lemma start_grammar_eq_some_iff {a : Nonterminal} :
    d.grammar.start = some a ↔ d.start = some a.char := by
  simp only [grammar, Option.bind_eq_some_iff, Nonterminal.ofChar?_eq_some_iff, exists_eq_right']

lemma mem_rules_grammar {r : Rule} :
    r ∈ d.grammar.rules ↔ r.head.char ∈ d.nonterminals ∧
      ∃ bs, d.bodies r.head.char = some bs ∧ r.body.spell ∈ bs := by
  simp only [grammar, SortedSet.mem_ofList, List.mem_flatMap, List.mem_filterMap,
    Finset.mem_toList, rule?_eq_some_iff]
  constructor
  · rintro ⟨c, hc, s, hs, rfl, rfl⟩
    refine ⟨hc, ?_⟩
    cases hbs : d.bodies r.head.char with
    | none => simp [hbs] at hs
    | some bs => exact ⟨bs, rfl, by simpa [hbs] using hs⟩
  · rintro ⟨hc, bs, hbs, hs⟩
    exact ⟨r.head.char, hc, r.body.spell, by simpa [hbs] using hs, rfl, rfl⟩

/-- Nothing of a well-formed description is in the wrong alphabet: each of its bodies is
written for a rule of the grammar. -/
lemma WellFormed.exists_rule (hd : d.WellFormed) {c : Char} {bs : Finset Spelling}
    (hc : d.bodies c = some bs) {s : Spelling} (hs : s ∈ bs) :
    ∃ r ∈ d.grammar.rules, r.head.char = c ∧ r.body.spell = s := by
  have hhead : c ∈ d.nonterminals := (hd.head_mem c bs hc).1
  have huppercase : ∀ b, d.HasBody b → isUppercase b = true := by
    rintro b ⟨bs', hb, -⟩
    exact hd.uppercase b (hd.head_mem b bs' hb).1
  have hbody : ∃ b : Body, b.spell = s := by
    cases s with
    | letter t => exact ⟨.unit ⟨t, hd.lowercase t (hd.letter_mem c bs t hc hs)⟩, rfl⟩
    | pair x y =>
      obtain ⟨hx, hy⟩ := hd.halves_mem c bs x y hc hs
      exact ⟨.binary ⟨x, huppercase x hx⟩ ⟨y, huppercase y hy⟩, rfl⟩
  obtain ⟨b, rfl⟩ := hbody
  let r : Rule := ⟨⟨c, hd.uppercase c hhead⟩, b⟩
  have hr : r ∈ d.grammar.rules := mem_rules_grammar.2 ⟨hhead, bs, hc, hs⟩
  exact ⟨r, hr, rfl, rfl⟩

lemma WellFormed.mem_heads_grammar (hd : d.WellFormed) {a : Nonterminal} :
    a ∈ d.grammar.heads ↔ ∃ bs, d.bodies a.char = some bs := by
  rw [Grammar.mem_heads]
  constructor
  · rintro ⟨b, hb⟩
    obtain ⟨-, bs, hbs, -⟩ := mem_rules_grammar.1 hb
    exact ⟨bs, hbs⟩
  · rintro ⟨bs, hbs⟩
    obtain ⟨s, hs⟩ := (hd.head_mem a.char bs hbs).2
    obtain ⟨⟨a', b⟩, hr, hhead, -⟩ := hd.exists_rule hbs hs
    obtain rfl : a' = a := Nonterminal.char_inj.1 hhead
    exact ⟨b, hr⟩

lemma WellFormed.exists_word (hd : d.WellFormed) {c : Char} {w : List Char}
    (h : d.Makes c w) {a : Nonterminal} (ha : a.char = c) :
    ∃ v, Derives d.grammar.rules.toList a v := by
  induction h generalizing a with
  | letter hc ht =>
    obtain ⟨⟨a', b⟩, hr, hhead, hbody⟩ := hd.exists_rule hc ht
    obtain rfl : a' = a := Nonterminal.char_inj.1 (hhead.trans ha.symm)
    cases b with
    | unit t => exact ⟨[t], derives_unit hr⟩
    | binary b c => exact absurd hbody (by simp [Body.spell])
  | pair hc hxy _ _ ihu ihv =>
    obtain ⟨⟨a', b⟩, hr, hhead, hbody⟩ := hd.exists_rule hc hxy
    obtain rfl : a' = a := Nonterminal.char_inj.1 (hhead.trans ha.symm)
    cases b with
    | unit t => exact absurd hbody (by simp [Body.spell])
    | binary b c =>
      obtain ⟨hb, hc⟩ := Spelling.pair.inj hbody
      obtain ⟨u, hu⟩ := ihu hb
      obtain ⟨v, hv⟩ := ihv hc
      exact ⟨u ++ v, derives_append hr hu hv⟩

/-- The grammar of a well-formed description is well formed. -/
theorem WellFormed.grammar (hd : d.WellFormed) : d.grammar.WellFormed where
  start_mem a ha := by
    rw [start_grammar_eq_some_iff] at ha
    exact mem_nonterminals_grammar.2 (hd.start_mem a.char ha)
  head_mem a ha := by
    obtain ⟨bs, hbs⟩ := hd.mem_heads_grammar.1 ha
    exact mem_nonterminals_grammar.2 (hd.head_mem a.char bs hbs).1
  letter_mem a t h := by
    obtain ⟨-, bs, hbs, ht⟩ := mem_rules_grammar.1 h
    exact mem_terminals_grammar.2 (hd.letter_mem a.char bs t.char hbs ht)
  halves_mem a b c h := by
    obtain ⟨-, bs, hbs, hbc⟩ := mem_rules_grammar.1 h
    obtain ⟨⟨bs₁, hb, -⟩, bs₂, hc, -⟩ := hd.halves_mem a.char bs b.char c.char hbs hbc
    exact ⟨hd.mem_heads_grammar.2 ⟨bs₁, hb⟩, hd.mem_heads_grammar.2 ⟨bs₂, hc⟩⟩
  productive a ha := by
    obtain ⟨bs, hbs⟩ := hd.mem_heads_grammar.1 ha
    obtain ⟨w, hw⟩ := hd.productive a.char bs hbs
    exact hd.exists_word hw rfl

/-- The bodies of a well-formed description are found again in that of its grammar. -/
lemma WellFormed.bodies_describe_grammar (hd : d.WellFormed) (c : Char) :
    d.grammar.describe.bodies c = d.bodies c := by
  refine Option.ext fun bs => ?_
  rw [Grammar.bodies_describe_eq_some_iff]
  have hspellings : ∀ {a : Nonterminal} {bs : Finset Spelling}, d.bodies a.char = some bs →
      d.grammar.spellings a = bs := by
    intro a bs hbs
    ext s
    rw [Grammar.mem_spellings]
    constructor
    · rintro ⟨b, hb, rfl⟩
      obtain ⟨-, bs', hbs', hs⟩ := mem_rules_grammar.1 hb
      obtain rfl := Option.some.inj (hbs.symm.trans hbs')
      exact hs
    · intro hs
      obtain ⟨⟨a', b⟩, hr, hhead, hbody⟩ := hd.exists_rule hbs hs
      obtain rfl : a' = a := Nonterminal.char_inj.1 hhead
      exact ⟨b, hr, hbody⟩
  constructor
  · rintro ⟨a, ha, rfl, rfl⟩
    obtain ⟨bs, hbs⟩ := hd.mem_heads_grammar.1 ha
    rw [hbs, hspellings hbs]
  · intro hbs
    let a : Nonterminal := ⟨c, hd.uppercase c (hd.head_mem c bs hbs).1⟩
    exact ⟨a, hd.mem_heads_grammar.2 ⟨bs, hbs⟩, rfl, hspellings (a := a) hbs⟩

/-- A well-formed description is that of its grammar. -/
theorem WellFormed.describe_grammar (hd : d.WellFormed) : d.grammar.describe = d := by
  have hnonterminals : d.grammar.describe.nonterminals = d.nonterminals := by
    ext c
    rw [Grammar.mem_nonterminals_describe]
    constructor
    · rintro ⟨a, ha, rfl⟩
      exact mem_nonterminals_grammar.1 ha
    · intro hc
      exact ⟨⟨c, hd.uppercase c hc⟩, mem_nonterminals_grammar.2 hc, rfl⟩
  have hterminals : d.grammar.describe.terminals = d.terminals := by
    ext c
    rw [Grammar.mem_terminals_describe]
    constructor
    · rintro ⟨t, ht, rfl⟩
      exact mem_terminals_grammar.1 ht
    · intro hc
      exact ⟨⟨c, hd.lowercase c hc⟩, mem_terminals_grammar.2 hc, rfl⟩
  have hstart : d.grammar.describe.start = d.start := by
    refine Option.ext fun c => ?_
    show d.grammar.start.map (fun a => a.char) = some c ↔ d.start = some c
    rw [Option.map_eq_some_iff]
    constructor
    · rintro ⟨a, ha, rfl⟩
      exact start_grammar_eq_some_iff.1 ha
    · intro hc
      let a : Nonterminal := ⟨c, hd.uppercase c (hd.start_mem c hc)⟩
      exact ⟨a, start_grammar_eq_some_iff.2 hc, rfl⟩
  have hbodies : d.grammar.describe.bodies = d.bodies := funext hd.bodies_describe_grammar
  calc d.grammar.describe
      = ⟨d.grammar.describe.nonterminals, d.grammar.describe.terminals,
          d.grammar.describe.start, d.grammar.describe.bodies⟩ := rfl
    _ = d := by rw [hnonterminals, hterminals, hstart, hbodies]

/-- No character of a well-formed description is declared in both alphabets. -/
lemma WellFormed.disjoint (hd : d.WellFormed) : Disjoint d.nonterminals d.terminals := by
  rw [Finset.disjoint_left]
  intro c hupper hlower
  have h : isLowercase c = false := isLowercase_eq_false_of_isUppercase (hd.uppercase c hupper)
  rw [hd.lowercase c hlower] at h
  exact absurd h (by simp)

end Description

/-- **The reachable grammars are those with a well-formed description.**  A description is that
of a grammar made by some list of edits, accepted or refused, exactly if it is well formed; and
then its alphabets are disjoint. -/
theorem exists_run_describe_iff (d : Description) :
    ((∃ es : List Edit, (Grammar.run es).describe = d) ↔ d.WellFormed) ∧
      (d.WellFormed → Disjoint d.nonterminals d.terminals) := by
  refine ⟨⟨?_, fun hd => ?_⟩, fun hd => hd.disjoint⟩
  · rintro ⟨es, rfl⟩
    exact (Grammar.reachable_run es).wellFormed.describe
  · obtain ⟨es, hes⟩ := hd.grammar.reachable
    exact ⟨es, by rw [hes, hd.describe_grammar]⟩

end ChomskyGrammar
