/-
# Statements that are written are read back

A statement is written as its tokens (`Statement.tokens`) with spaces between them, and a file
as the lines of its statements (`fileText`).  Reading goes through three layers, each of which
undoes one of writing: a text has the lines that it was written with, a line has the tokens of
its statement, and these tokens stand for the statement (`ofTokens_tokens`).  So the statements
of a written file are the ones it was written for (`statements_fileText`).
-/
import Mathlib.Data.List.Basic
import ChomskyGrammar.Proofs.GrammarFile.Reading
import ChomskyGrammar.Proofs.Text.Lines

namespace ChomskyGrammar

/-- The word that is a single character. -/
def Token.letter (c : Char) : Token := .word (String.ofList [c])

namespace Statement

/-- The tokens that a statement is written with. -/
def tokens : Statement → List Token
  | nonterminals symbols => .word "nonterminals" :: .equals :: symbols.map Token.letter
  | terminals symbols => .word "terminals" :: .equals :: symbols.map Token.letter
  | start symbols => .word "start" :: .equals :: symbols.map Token.letter
  | rules head bodies =>
    Token.letter head :: .equals :: [Token.bar].intercalate (bodies.map fun b => [.word b])

/-- Whether a statement can be written: its tokens can be read back, and rules have a body. -/
structure Writable (s : Statement) : Prop where
  proper : ∀ t ∈ s.tokens, t.Proper
  bodies_ne : ∀ head bodies, s = .rules head bodies → bodies ≠ []

/-- The line that a statement is written on. -/
def line (s : Statement) : List Char := Token.spaced s.tokens

/-! ### Tokens of a statement -/

lemma single?_ofList (c : Char) : single? (String.ofList [c]) = some c := by
  rw [single?, String.toList_ofList]

lemma readSymbol_letter (c : Char) : readSymbol (Token.letter c) = .ok c := by
  rw [Token.letter, readSymbol, single?_ofList]

lemma readSymbols_map_letter (cs : List Char) : readSymbols (cs.map Token.letter) = .ok cs := by
  rw [readSymbols]
  induction cs with
  | nil => rfl
  | cons c cs ih =>
    rw [List.map_cons, List.mapM_cons, readSymbol_letter, ih]
    rfl

lemma readBodies_intercalate {bodies : List String} (hne : bodies ≠ []) :
    readBodies ([Token.bar].intercalate (bodies.map fun b => [.word b])) = .ok bodies := by
  have hbar : ∀ ts ∈ bodies.map fun b => [Token.word b], Token.bar ∉ ts := by
    intro ts hts
    obtain ⟨b, -, rfl⟩ := List.mem_map.1 hts
    simp
  rw [readBodies, pieces_intercalate (by simpa using hne) hbar]
  clear hne hbar
  induction bodies with
  | nil => rfl
  | cons b bs ih =>
    rw [List.map_cons, List.mapM_cons, ih]
    rfl

/-- A single character is no keyword. -/
lemma ofList_singleton_ne {c : Char} {keyword : String} (h : keyword.length ≠ 1) :
    String.ofList [c] ≠ keyword := by
  rintro rfl
  simp at h

lemma ofParts_letter (c : Char) (rest : List Token) :
    ofParts (String.ofList [c]) rest = (readBodies rest).map (rules c) := by
  rw [ofParts, if_neg (ofList_singleton_ne (by decide)), if_neg (ofList_singleton_ne (by decide)),
    if_neg (ofList_singleton_ne (by decide)), single?_ofList]

/-- The tokens of a statement stand for it. -/
theorem ofTokens_tokens {s : Statement}
    (hbodies : ∀ head bodies, s = .rules head bodies → bodies ≠ []) :
    ofTokens s.tokens = .ok s := by
  cases s with
  | nonterminals symbols =>
    rw [tokens, ofTokens, ofParts, if_pos rfl, readSymbols_map_letter]
    rfl
  | terminals symbols =>
    rw [tokens, ofTokens, ofParts, if_neg (by decide), if_pos rfl, readSymbols_map_letter]
    rfl
  | start symbols =>
    rw [tokens, ofTokens, ofParts, if_neg (by decide), if_neg (by decide), if_pos rfl,
      readSymbols_map_letter]
    rfl
  | rules head bodies =>
    rw [tokens, Token.letter, ofTokens, ofParts_letter,
      readBodies_intercalate (hbodies head bodies rfl)]
    rfl

/-! ### Statements that can be written -/

open Token (isWordChar)

variable {symbols : List Char}

lemma proper_letter {c : Char} (h : isWordChar c = true) : (Token.letter c).Proper := by
  simp [Token.letter, Token.Proper, h]

lemma proper_of_mem_declaration {keyword : String} (hne : keyword.toList ≠ [])
    (hkeyword : keyword.toList.all isWordChar = true) (h : ∀ c ∈ symbols, isWordChar c = true) :
    ∀ t ∈ .word keyword :: .equals :: symbols.map Token.letter, t.Proper := by
  intro t ht
  rcases List.mem_cons.1 ht with rfl | ht
  · exact ⟨hne, List.all_eq_true.1 hkeyword⟩
  rcases List.mem_cons.1 ht with rfl | ht
  · exact trivial
  · obtain ⟨c, hc, rfl⟩ := List.mem_map.1 ht
    exact proper_letter (h c hc)

/-- Statements that declare or choose symbols can be written if the symbols can. -/
lemma writable_of_symbols {make : List Char → Statement}
    (hmake : make = nonterminals ∨ make = terminals ∨ make = start)
    (h : ∀ c ∈ symbols, isWordChar c = true) : (make symbols).Writable := by
  rcases hmake with rfl | rfl | rfl
  all_goals
    refine ⟨proper_of_mem_declaration (by decide) (by decide) h, fun head bodies heq => ?_⟩
    cases heq

lemma eq_bar_or_word_of_mem {bodies : List String} {t : Token}
    (h : t ∈ [Token.bar].intercalate (bodies.map fun b => [.word b])) :
    t = .bar ∨ ∃ b ∈ bodies, t = .word b := by
  induction bodies with
  | nil => simp at h
  | cons b bs ih =>
    cases bs with
    | nil => simp_all
    | cons b' bs =>
      simp only [List.map_cons, List.intercalate_cons_cons, List.mem_append,
        List.mem_singleton] at h ih
      rcases h with (rfl | rfl) | h
      · exact .inr ⟨b, List.mem_cons_self, rfl⟩
      · exact .inl rfl
      · exact (ih h).imp_right fun ⟨b, hb, heq⟩ => ⟨b, List.mem_cons_of_mem _ hb, heq⟩

lemma writable_rules {head : Char} {bodies : List String} (hhead : isWordChar head = true)
    (hne : bodies ≠ []) (hbodies : ∀ b ∈ bodies, (Token.word b).Proper) :
    (rules head bodies).Writable where
  proper := by
    intro t ht
    rcases List.mem_cons.1 ht with rfl | ht
    · exact proper_letter hhead
    rcases List.mem_cons.1 ht with rfl | ht
    · exact trivial
    rcases eq_bar_or_word_of_mem ht with rfl | ⟨b, hb, rfl⟩
    · exact trivial
    · exact hbodies b hb
  bodies_ne _ _ h := by
    cases h
    exact hne

end Statement

namespace GrammarFile

open Statement (Writable)

/-- The text of a file with some statements, each on a line of its own. -/
def fileText (ss : List Statement) : String :=
  String.ofList (ss.flatMap fun s => s.line ++ ['\n'])

variable {s : Statement} {ss : List Statement}

/-- A statement is made by its line. -/
lemma makes_line (h : s.Writable) : Makes s.line s := by
  rw [Makes, Statement.line, Token.ofChars_spaced h.proper]
  exact Statement.ofTokens_tokens h.bodies_ne

/-- A written file has one line for each statement. -/
lemma textLines_fileText (h : ∀ s ∈ ss, s.Writable) :
    textLines (fileText ss).toList = ss.map Statement.line := by
  have hnot : ∀ c, isBlank c = true → c ≠ ' ' → ∀ l ∈ ss.map Statement.line, c ∉ l := by
    intro c hblank hspace l hl
    obtain ⟨s, hs, rfl⟩ := List.mem_map.1 hl
    exact Token.not_mem_spaced (h s hs).proper hblank hspace
  have hnewline := hnot '\n' (by decide) (by decide)
  have hreturn := hnot '\r' (by decide) (by decide)
  rw [fileText, String.toList_ofList, ← textLines_flatMap hnewline, List.flatMap_map]
  exact fun l hl hlast => hreturn l hl (List.mem_of_getLast? hlast)

/-- A written file can be read. -/
lemma readable_fileText (h : ∀ s ∈ ss, s.Writable) : Readable (fileText ss) := by
  intro l hl
  rw [textLines_fileText h] at hl
  obtain ⟨s, hs, rfl⟩ := List.mem_map.1 hl
  exact .inr ⟨s, makes_line (h s hs)⟩

/-- The statements of a written file are read back. -/
theorem statements_fileText (h : ∀ s ∈ ss, s.Writable) : statements (fileText ss) = ss := by
  rw [statements, textLines_fileText h, List.filterMap_map]
  have hline : ∀ s ∈ ss, (statement? ∘ Statement.line) s = some s :=
    fun s hs => statement?_eq_some_iff.2 (makes_line (h s hs))
  rw [List.filterMap_congr hline, List.filterMap_some]

end GrammarFile

end ChomskyGrammar
