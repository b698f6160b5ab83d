/-
# The tokens of a line

The tokens of a line are found from left to right, and each comes out as it is written: a token
that nothing belonging to a word follows directly is the first one of its line
(`ofChars_text_append`).  So tokens with spaces between them are read back (`ofChars_spaced`).
A line without tokens is one of blanks only, with a comment or without (`ofChars_eq_nil_iff`).
-/
import Mathlib.Tactic.Lemma
import ChomskyGrammar.Alphabet.Disjoint
import ChomskyGrammar.GrammarFile.Token

namespace ChomskyGrammar

/-- Whether a line says nothing: blanks, and then nothing more or a comment. -/
def Vacant (line : List Char) : Prop :=
  ∃ blanks rest, line = blanks ++ rest ∧ (∀ c ∈ blanks, isBlank c = true) ∧
    (rest = [] ∨ ∃ comment, rest = ';' :: comment)

namespace Token

/-- How a token is written. -/
def text : Token → List Char
  | equals => ['=']
  | bar => ['|']
  | word w => w.toList

/-- Whether a token can be read back: a word needs a character, and only those of words. -/
def Proper : Token → Prop
  | word w => w.toList ≠ [] ∧ ∀ c ∈ w.toList, isWordChar c = true
  | _ => True

/-- Whether a token is a word. -/
def IsWord (t : Token) : Prop := ∃ w, t = word w

/-- Some tokens, written with a space between one and the next. -/
def spaced (ts : List Token) : List Char := [' '].intercalate (ts.map text)

variable {c : Char} {cs rest : List Char} {t : Token} {ts : List Token}

/-! ### Characters of words -/

lemma isWordChar_iff :
    isWordChar c = true ↔ isBlank c = false ∧ c ≠ '=' ∧ c ≠ '|' ∧ c ≠ ';' := by
  simp [isWordChar, and_assoc]

lemma isWordChar_of_isUppercase (h : isUppercase c = true) : isWordChar c = true := by
  refine isWordChar_iff.2 ⟨isBlank_eq_false_of_isUppercase h, ?_, ?_, ?_⟩ <;>
    · rintro rfl
      exact absurd h (by decide)

lemma isWordChar_of_isLowercase (h : isLowercase c = true) : isWordChar c = true := by
  refine isWordChar_iff.2 ⟨isBlank_eq_false_of_isLowercase h, ?_, ?_, ?_⟩ <;>
    · rintro rfl
      exact absurd h (by decide)

/-! ### The first token of a line -/

@[simp] lemma ofChars_nil : ofChars [] = [] := by
  rw [ofChars]

@[simp] lemma ofChars_semicolon_cons : ofChars (';' :: cs) = [] := by
  rw [ofChars, if_pos rfl]

@[simp] lemma ofChars_equals_cons : ofChars ('=' :: cs) = equals :: ofChars cs := by
  rw [ofChars, if_neg (by decide), if_pos rfl]

@[simp] lemma ofChars_bar_cons : ofChars ('|' :: cs) = bar :: ofChars cs := by
  rw [ofChars, if_neg (by decide), if_neg (by decide), if_pos rfl]

lemma ofChars_blank_cons (h : isBlank c = true) : ofChars (c :: cs) = ofChars cs := by
  have hne : ∀ d, isBlank d = false → c ≠ d := by
    rintro d hd rfl
    exact absurd (h.symm.trans hd) (by decide)
  rw [ofChars, if_neg (hne ';' (by decide)), if_neg (hne '=' (by decide)),
    if_neg (hne '|' (by decide)), if_pos h]

/-- Any character but a blank and a `;` starts a token. -/
lemma ofChars_cons_ne_nil (hsemicolon : c ≠ ';') (hblank : ¬isBlank c = true) :
    ofChars (c :: cs) ≠ [] := by
  rw [ofChars, if_neg hsemicolon]
  split
  · simp
  · split
    · simp
    · simp

/-- A word ends where no character of a word follows. -/
lemma ofChars_word_append {w : List Char} (hne : w ≠ [])
    (hw : ∀ c ∈ w, isWordChar c = true) (hrest : ∀ c ∈ rest.head?, isWordChar c = false) :
    ofChars (w ++ rest) = word (String.ofList w) :: ofChars rest := by
  obtain ⟨c, cs, rfl⟩ := List.exists_cons_of_ne_nil hne
  obtain ⟨hblank, hequals, hbar, hsemicolon⟩ := isWordChar_iff.1 (hw c List.mem_cons_self)
  have hcs : ∀ d ∈ cs, isWordChar d = true := fun d hd => hw d (List.mem_cons_of_mem c hd)
  have htake : rest.takeWhile isWordChar = [] := by
    cases rest with
    | nil => rfl
    | cons d ds => rw [List.takeWhile_cons_of_neg (by simp [hrest d rfl])]
  have hdrop : rest.dropWhile isWordChar = rest := by
    cases rest with
    | nil => rfl
    | cons d ds => rw [List.dropWhile_cons_of_neg (by simp [hrest d rfl])]
  rw [List.cons_append, ofChars, if_neg hsemicolon, if_neg hequals, if_neg hbar,
    if_neg (by simp [hblank]), List.takeWhile_append_of_pos hcs, htake, List.append_nil,
    List.dropWhile_append_of_pos hcs, hdrop]

/-- A token is read back, unless it is a word and something follows that could belong to it. -/
theorem ofChars_text_append (ht : t.Proper)
    (hrest : t.IsWord → ∀ c ∈ rest.head?, isWordChar c = false) :
    ofChars (t.text ++ rest) = t :: ofChars rest := by
  cases t with
  | equals => exact ofChars_equals_cons
  | bar => exact ofChars_bar_cons
  | word w => rw [text, ofChars_word_append ht.1 ht.2 (hrest ⟨w, rfl⟩), String.ofList_toList]

/-! ### Whole lines -/

lemma spaced_singleton (t : Token) : spaced [t] = t.text := by
  simp [spaced]

lemma spaced_cons_cons (t u : Token) (us : List Token) :
    spaced (t :: u :: us) = t.text ++ ' ' :: spaced (u :: us) := by
  simp [spaced, List.intercalate]

/-- Tokens that are written with spaces between them are read back. -/
theorem ofChars_spaced (h : ∀ t ∈ ts, t.Proper) : ofChars (spaced ts) = ts := by
  induction ts with
  | nil => rw [spaced, List.map_nil, List.intercalate_nil, ofChars_nil]
  | cons t ts ih =>
    have ht : t.Proper := h t List.mem_cons_self
    have hrest := ih fun u hu => h u (List.mem_cons_of_mem t hu)
    cases ts with
    | nil =>
      have hlast : ofChars (t.text ++ []) = t :: ofChars [] := ofChars_text_append ht (by simp)
      rwa [List.append_nil, ofChars_nil, ← spaced_singleton] at hlast
    | cons u us =>
      have hspace : isBlank ' ' = true := by decide
      rw [spaced_cons_cons, ofChars_text_append ht (by simp [isWordChar, hspace]),
        ofChars_blank_cons hspace, hrest]

/-- Tokens that are written with spaces between them hold no other blank. -/
lemma not_mem_spaced (h : ∀ t ∈ ts, t.Proper) (hblank : isBlank c = true) (hspace : c ≠ ' ') :
    c ∉ spaced ts := by
  have htext : ∀ t : Token, t.Proper → c ∉ t.text := by
    intro t ht hc
    cases t with
    | equals => exact absurd (List.mem_singleton.1 hc ▸ hblank) (by decide)
    | bar => exact absurd (List.mem_singleton.1 hc ▸ hblank) (by decide)
    | word w => exact absurd ((isWordChar_iff.1 (ht.2 c hc)).1.symm.trans hblank) (by decide)
  induction ts with
  | nil => simp [spaced]
  | cons t ts ih =>
    have ht := htext t (h t List.mem_cons_self)
    have hrest := ih fun u hu => h u (List.mem_cons_of_mem t hu)
    cases ts with
    | nil => rwa [spaced_singleton]
    | cons u us =>
      rw [spaced_cons_cons]
      simp [ht, hspace, hrest]

/-- A line has no tokens exactly if it says nothing. -/
theorem ofChars_eq_nil_iff {line : List Char} : ofChars line = [] ↔ Vacant line := by
  constructor
  · intro h
    induction line with
    | nil => exact ⟨[], [], rfl, by simp, .inl rfl⟩
    | cons c cs ih =>
      by_cases hsemicolon : c = ';'
      · exact ⟨[], c :: cs, rfl, by simp, .inr ⟨cs, by rw [hsemicolon]⟩⟩
      by_cases hblank : isBlank c = true
      · rw [ofChars_blank_cons hblank] at h
        obtain ⟨blanks, rest, rfl, hblanks, hrest⟩ := ih h
        exact ⟨c :: blanks, rest, rfl, List.forall_mem_cons.2 ⟨hblank, hblanks⟩, hrest⟩
      · -- any other character starts a token
        exact absurd h (ofChars_cons_ne_nil hsemicolon hblank)
  · rintro ⟨blanks, rest, rfl, hblanks, hrest⟩
    induction blanks with
    | nil =>
      rcases hrest with rfl | ⟨comment, rfl⟩
      · exact ofChars_nil
      · exact ofChars_semicolon_cons
    | cons c cs ih =>
      rw [List.cons_append, ofChars_blank_cons (hblanks c List.mem_cons_self)]
      exact ih fun d hd => hblanks d (List.mem_cons_of_mem c hd)

end Token

end ChomskyGrammar
