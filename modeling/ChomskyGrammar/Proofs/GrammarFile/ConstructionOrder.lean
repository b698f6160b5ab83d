/-
# The order of construction cannot be seen

A grammar holds what the edits that built it have asked for, and nothing tells in which order or
how often they have asked.  This is so although the edits depend on each other: a rule is refused
before its head is declared or before the halves of its body have rules, so not every order of the
same edits succeeds.  But whichever does, leads to the same grammar (`Builds.eq_of_sameRequests`).
The same goes for the lines of a text or of a file, as the edits of a line stay together.  And as
all listings of a grammar tell the same, grammars that are built in different orders are
`Indistinguishable` (`construction_order_is_unobservable`).
-/
import ChomskyGrammar.Proofs.Grammar.Listing
import ChomskyGrammar.Proofs.GrammarFile.Bytes

namespace ChomskyGrammar

lemma Terminal.char_inj {t u : Terminal} : t.char = u.char ↔ t = u := by
  rw [← ofChar?_eq_some_iff, ofChar?_char, Option.some.injEq, eq_comm]

/-- A body is determined by its text: a letter is not a pair. -/
lemma Body.text_inj {b c : Body} : b.text = c.text ↔ b = c := by
  rw [text, text, String.ofList_inj]
  cases b <;> cases c <;> simp [chars, Nonterminal.char_inj, Terminal.char_inj]

namespace Grammar

open GrammarFile (startOf? start_of_foldlM_edit foldlM_concat_eq_ok_iff)

/-- Whether some edits build a grammar: none of them forgets what is there, and all succeed, one
after the other, starting from the grammar that declares nothing. -/
structure Builds (es : List Edit) (g : Grammar) : Prop where
  no_reset : .reset ∉ es
  succeed : es.foldlM edit .empty = .ok g

/-- Whether two lists of edits ask for the same symbols, for the same rules and, in the end, for
the same start symbol.  Order and repetitions do not count. -/
structure SameRequests (es es' : List Edit) : Prop where
  nonterminals : ∀ c, .declareNonterminal c ∈ es ↔ .declareNonterminal c ∈ es'
  terminals : ∀ c, .declareTerminal c ∈ es ↔ .declareTerminal c ∈ es'
  rules : ∀ head body, .addRule head body ∈ es ↔ .addRule head body ∈ es'
  start : (es.filterMap startOf?).getLast? = (es'.filterMap startOf?).getLast?

/-- Whether a grammar declares the symbols and has the rules that some edits ask for, and no
others. -/
structure Records (es : List Edit) (g : Grammar) : Prop where
  nonterminals : ∀ a, a ∈ g.nonterminals ↔ .declareNonterminal a.char ∈ es
  terminals : ∀ t, t ∈ g.terminals ↔ .declareTerminal t.char ∈ es
  rules : ∀ r, r ∈ g.rules ↔ .addRule r.head.char r.body.text ∈ es

variable {es es' : List Edit} {g g' : Grammar}

/-! ### What edits leave behind -/

/-- An accepted edit adds what it asks for. -/
lemma Records.edit (h : Records es g) {e : Edit} (he : g.edit e = .ok g') (hreset : e ≠ .reset) :
    Records (es ++ [e]) g' := by
  rcases edit_cases he with ⟨a, rfl, -, rfl⟩ | ⟨t, rfl, -, rfl⟩ | ⟨a, rfl, -, rfl⟩ |
    ⟨r, rfl, -, -, rfl⟩ | ⟨rfl, -⟩
  · refine ⟨fun b => ?_, fun t => ?_, fun r => ?_⟩
    · simp [h.nonterminals, Nonterminal.char_inj, or_comm]
    · simp [h.terminals]
    · simp [h.rules]
  · refine ⟨fun b => ?_, fun u => ?_, fun r => ?_⟩
    · simp [h.nonterminals]
    · simp [h.terminals, Terminal.char_inj, or_comm]
    · simp [h.rules]
  · refine ⟨fun b => ?_, fun t => ?_, fun r => ?_⟩
    · simp [h.nonterminals]
    · simp [h.terminals]
    · simp [h.rules]
  · refine ⟨fun b => ?_, fun t => ?_, fun q => ?_⟩
    · simp [h.nonterminals]
    · simp [h.terminals]
    · obtain ⟨a, b⟩ := r
      obtain ⟨a', b'⟩ := q
      simp [h.rules, Nonterminal.char_inj, Body.text_inj, or_comm]
  · exact absurd rfl hreset

/-- A grammar holds what the edits that built it have asked for. -/
theorem Builds.records (h : Builds es g) : Records es g := by
  obtain ⟨hreset, hes⟩ := h
  induction es using List.reverseRecOn generalizing g with
  | nil =>
    obtain rfl := Except.ok.inj hes
    exact ⟨fun _ => by simp [empty, SortedSet.not_mem_empty],
      fun _ => by simp [empty, SortedSet.not_mem_empty],
      fun _ => by simp [empty, SortedSet.not_mem_empty]⟩
  | append_singleton es e ih =>
    obtain ⟨g₁, hes, he⟩ := foldlM_concat_eq_ok_iff.1 hes
    simp only [List.mem_append, List.mem_singleton, not_or] at hreset
    exact (ih hreset.1 hes).edit he (Ne.symm hreset.2)

/-- **Edits with the same requests build the same grammar.** -/
theorem Builds.eq_of_sameRequests (h : Builds es g) (h' : Builds es' g')
    (hsame : SameRequests es es') : g = g' := by
  have hnonterminals : g.nonterminals = g'.nonterminals := SortedSet.ext_mem fun a => by
    rw [h.records.nonterminals, h'.records.nonterminals, hsame.nonterminals]
  have hterminals : g.terminals = g'.terminals := SortedSet.ext_mem fun t => by
    rw [h.records.terminals, h'.records.terminals, hsame.terminals]
  have hrules : g.rules = g'.rules := SortedSet.ext_mem fun r => by
    rw [h.records.rules, h'.records.rules, hsame.rules]
  have hchar : g.start.map (fun a => a.char) = g'.start.map fun a => a.char := by
    rw [start_of_foldlM_edit h.succeed h.no_reset, start_of_foldlM_edit h'.succeed h'.no_reset,
      hsame.start]
  have hstart : g.start = g'.start :=
    Option.map_injective (fun _ _ => Nonterminal.char_inj.1) hchar
  cases g
  cases g'
  simp_all

/-- Whether two grammars cannot be told apart: they are equal, and whatever listings of their rules
are looked at tell the same. -/
structure Indistinguishable (g g' : Grammar) : Prop where
  eq : g = g'
  listings : ∀ (l : g.Listing) (l' : g'.Listing), l.SameAs l'

lemma indistinguishable_self (g : Grammar) : g.Indistinguishable g := ⟨rfl, Listing.sameAs⟩

end Grammar

/-! ### Lines in another order -/

namespace GrammarFile

open Grammar (Builds SameRequests Indistinguishable indistinguishable_self)

variable {ss ss' : List Statement} {text text' file file' : String} {bytes bytes' : ByteArray}
  {g g' : Grammar}

/-- Compatible statements choose the same start symbol in another order, as there is at most one
choice. -/
lemma Compatible.choices_eq_of_perm (h : Compatible ss) (hperm : ss.Perm ss') :
    choices ss = choices ss' := by
  have hchoices : (choices ss).Perm (choices ss') := hperm.filterMap chosen?
  have hunique := h.start_unique
  cases hss : choices ss with
  | nil =>
    rw [hss] at hchoices
    exact hchoices.nil_eq
  | cons symbols others =>
    rw [hss, List.length_cons] at hunique
    obtain rfl := List.eq_nil_of_length_eq_zero (by omega : others.length = 0)
    rw [hss] at hchoices
    exact hchoices.singleton_eq

/-- The same statements in another order ask for the same. -/
lemma Compatible.sameRequests (h : Compatible ss) (hperm : ss.Perm ss') :
    SameRequests (ss.flatMap Statement.edits) (ss'.flatMap Statement.edits) := by
  have hmem : ∀ e, e ∈ ss.flatMap Statement.edits ↔ e ∈ ss'.flatMap Statement.edits :=
    fun e => (hperm.flatMap_right Statement.edits).mem_iff
  refine ⟨fun _ => hmem _, fun _ => hmem _, fun _ _ => hmem _, ?_⟩
  rw [filterMap_startOf?_flatMap, filterMap_startOf?_flatMap, h.choices_eq_of_perm hperm]

lemma builds_of_loadText (h : (loadText text file).result = .ok g) :
    Compatible (statements text) ∧ Builds ((statements text).flatMap Statement.edits) g := by
  obtain ⟨-, hcompatible, hedits⟩ := result_loadText_eq_ok_iff_of_edits.1 h
  exact ⟨hcompatible, by simp [List.mem_flatMap, reset_not_mem_edits], hedits⟩

/-- Texts with the same lines in different orders are loaded as the same grammar, if both are
loaded. -/
lemma eq_of_loadText_of_perm (hlines : (textLines text.toList).Perm (textLines text'.toList))
    (h : (loadText text file).result = .ok g) (h' : (loadText text' file').result = .ok g') :
    g = g' := by
  obtain ⟨hcompatible, hbuilds⟩ := builds_of_loadText h
  obtain ⟨-, hbuilds'⟩ := builds_of_loadText h'
  exact hbuilds.eq_of_sameRequests hbuilds'
    (hcompatible.sameRequests (hlines.filterMap statement?))

lemma encode_injective : Function.Injective encode := by
  intro cs cs' h
  have hcs : String.fromUTF8? ⟨(encode cs).toArray⟩ = some (String.ofList cs) :=
    fromUTF8?_of_encode rfl
  have hcs' : String.fromUTF8? ⟨(encode cs).toArray⟩ = some (String.ofList cs') :=
    fromUTF8?_of_encode h
  exact String.ofList_inj.1 (Option.some.inj (hcs.symm.trans hcs'))

/-- Files with the same lines in different orders hold texts with the same lines. -/
lemma perm_textLines (htext : String.fromUTF8? bytes = some text)
    (htext' : String.fromUTF8? bytes' = some text')
    (hlines : (byteLines bytes.data.toList).Perm (byteLines bytes'.data.toList)) :
    (textLines text.toList).Perm (textLines text'.toList) := by
  rw [fromUTF8?_eq_some_iff.1 htext, fromUTF8?_eq_some_iff.1 htext', byteLines_encode,
    byteLines_encode] at hlines
  exact (List.map_perm_map_iff encode_injective).1 hlines

/-- **The order of construction cannot be seen.**  Grammars are indistinguishable if edits with the
same requests build them, in whatever orders and with whatever repetitions, as long as all edits
succeed.  So are grammars that are loaded from texts, or from files, that have the same lines in
different orders. -/
theorem construction_order_is_unobservable :
    (∀ es es' g g', Builds es g → Builds es' g' → SameRequests es es' → Indistinguishable g g') ∧
    (∀ text text' file file' g g', (textLines text.toList).Perm (textLines text'.toList) →
      (loadText text file).result = .ok g → (loadText text' file').result = .ok g' →
        Indistinguishable g g') ∧
    ∀ bytes bytes' file file' g g',
      (byteLines bytes.data.toList).Perm (byteLines bytes'.data.toList) →
      (loadFile file (.ok bytes)).result = .ok g → (loadFile file' (.ok bytes')).result = .ok g' →
        Indistinguishable g g' := by
  refine ⟨?_, ?_, ?_⟩
  · intro es es' g g' h h' hsame
    obtain rfl := h.eq_of_sameRequests h' hsame
    exact indistinguishable_self g
  · intro text text' file file' g g' hlines h h'
    obtain rfl := eq_of_loadText_of_perm hlines h h'
    exact indistinguishable_self g
  · intro bytes bytes' file file' g g' hlines h h'
    obtain ⟨text, htext, hload⟩ := exists_text_of_loadFile h
    obtain ⟨text', htext', hload'⟩ := exists_text_of_loadFile h'
    obtain rfl := eq_of_loadText_of_perm (perm_textLines htext htext' hlines) hload hload'
    exact indistinguishable_self g

/-- Edits for a grammar with the rules `A ::= a` and `S ::= AA`. -/
def pairEdits : List Edit :=
  [.declareNonterminal 'S', .declareNonterminal 'A', .declareTerminal 'a', .setStart 'S',
    .addRule 'A' "a", .addRule 'S' "AA"]

/-- Other edits for that grammar: a rule is added twice, and the start symbol is chosen late. -/
def shuffledPairEdits : List Edit :=
  [.declareTerminal 'a', .declareNonterminal 'A', .declareNonterminal 'S', .addRule 'A' "a",
    .addRule 'S' "AA", .addRule 'A' "a", .setStart 'S']

/-- A file for that grammar. -/
def pairText : String := "nonterminals = S A\nterminals = a\nstart = S\nA = a\nS = AA\n"

/-- Its lines in another order. -/
def shuffledPairText : String := "terminals = a\nnonterminals = S A\nA = a\nS = AA\nstart = S"

/-- The edits build, and the texts and the files are loaded as, grammars that are
indistinguishable. -/
theorem shuffled_pairs_are_indistinguishable :
    (∃ g g', Builds pairEdits g ∧ Builds shuffledPairEdits g' ∧
      SameRequests pairEdits shuffledPairEdits ∧ Indistinguishable g g') ∧
    (∃ g g', (textLines pairText.toList).Perm (textLines shuffledPairText.toList) ∧
      (loadText pairText "a.cnf").result = .ok g ∧
      (loadText shuffledPairText "b.cnf").result = .ok g' ∧ Indistinguishable g g') ∧
    ∃ g g', (byteLines pairText.toUTF8.data.toList).Perm
        (byteLines shuffledPairText.toUTF8.data.toList) ∧
      (loadFile "a.cnf" (.ok pairText.toUTF8)).result = .ok g ∧
      (loadFile "b.cnf" (.ok shuffledPairText.toUTF8)).result = .ok g' ∧
      Indistinguishable g g' := by
  obtain ⟨hedits, htexts, hfiles⟩ := construction_order_is_unobservable
  have hbuilds : Builds pairEdits (Grammar.run pairEdits) := ⟨by decide, by decide +kernel⟩
  have hbuilds' : Builds shuffledPairEdits (Grammar.run pairEdits) := ⟨by decide, by decide +kernel⟩
  have hsame : SameRequests pairEdits shuffledPairEdits := by
    refine ⟨fun c => ?_, fun c => ?_, fun head body => ?_, by decide⟩
    · simp [pairEdits, shuffledPairEdits, or_comm]
    · simp [pairEdits, shuffledPairEdits]
    · grind [pairEdits, shuffledPairEdits]
  have hlines : (textLines pairText.toList).Perm (textLines shuffledPairText.toList) :=
    List.isPerm_iff.1 (by cbv)
  have hload : (loadText pairText "a.cnf").result = .ok (Grammar.run pairEdits) := by cbv
  have hload' : (loadText shuffledPairText "b.cnf").result = .ok (Grammar.run pairEdits) := by
    set_option maxRecDepth 2000 in cbv
  have hbytes : (byteLines pairText.toUTF8.data.toList).Perm
      (byteLines shuffledPairText.toUTF8.data.toList) := by
    rw [byteLines_toUTF8, byteLines_toUTF8]
    exact hlines.map encode
  have hfile := (result_loadFile_toUTF8 pairText "a.cnf").trans hload
  have hfile' := (result_loadFile_toUTF8 shuffledPairText "b.cnf").trans hload'
  exact ⟨⟨_, _, hbuilds, hbuilds', hsame, hedits _ _ _ _ hbuilds hbuilds' hsame⟩,
    ⟨_, _, hlines, hload, hload', htexts _ _ _ _ _ _ hlines hload hload'⟩,
    ⟨_, _, hbytes, hfile, hfile', hfiles _ _ _ _ _ _ hbytes hfile hfile'⟩⟩

end GrammarFile

end ChomskyGrammar
