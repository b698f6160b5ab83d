/-
# Every layout of some tokens is read back

Tokens can be laid out on a line in many ways: blanks may stand before, between and after them,
and have to stand only between two words (`Layout`).  Reading undoes all of them, so a layout of
some tokens has just these tokens (`Layout.ofChars_eq`); and what stands before the comment of any
line is a layout of the tokens of the line (`layout_ofChars`).

The tokens of a line are found by a scan that goes on in turns (`Scan.next?`).  A turn looks at the
next character, and if it starts a word, takes off the longest run of characters of words.  It is
because a character that starts a word is also one of a word that every turn gets on, and so a scan
ends, with the tokens of the line (`Scan.exists_end`).
-/
import Mathlib.Data.List.TakeWhile
import Mathlib.Logic.Relation
import ChomskyGrammar.Proofs.GrammarFile.Tokens

namespace ChomskyGrammar

namespace Token

open Relation (ReflTransGen)

/-! ### Scans -/

/-- A scan of a line under way: the tokens found so far, and what is left of the line. -/
structure Scan where
  found : List Token
  rest : List Char

namespace Scan

/-- One turn of a scan, if it is not over: at the end of a line and at a `;` there is none. -/
def next? : Scan → Option Scan
  | ⟨_, []⟩ => none
  | ⟨found, c :: cs⟩ =>
    if c = ';' then none
    else if c = '=' then some ⟨found ++ [equals], cs⟩
    else if c = '|' then some ⟨found ++ [bar], cs⟩
    else if isBlank c then some ⟨found, cs⟩
    else some ⟨found ++ [word (String.ofList ((c :: cs).takeWhile isWordChar))],
      (c :: cs).dropWhile isWordChar⟩

variable {s s' : Scan}

/-- A scan that is over has nothing more to find. -/
lemma ofChars_rest_eq_nil (h : s.next? = none) : ofChars s.rest = [] := by
  obtain ⟨found, rest⟩ := s
  cases rest with
  | nil => exact ofChars_nil
  | cons c cs =>
    by_cases hsemicolon : c = ';'
    · rw [hsemicolon]
      exact ofChars_semicolon_cons
    · -- any other character allows a turn
      rw [next?, if_neg hsemicolon] at h
      split_ifs at h

/-- A turn shortens what is left, and what it finds is a token of the line. -/
lemma next?_spec (h : s.next? = some s') :
    s'.rest.length < s.rest.length ∧
      s'.found ++ ofChars s'.rest = s.found ++ ofChars s.rest := by
  obtain ⟨found, rest⟩ := s
  cases rest with
  | nil => exact absurd h (by simp [next?])
  | cons c cs =>
    rw [next?] at h
    split_ifs at h with hsemicolon hequals hbar hblank
    all_goals obtain rfl := Option.some.inj h
    · rw [hequals, ofChars_equals_cons]
      exact ⟨Nat.lt_succ_self _, by simp⟩
    · rw [hbar, ofChars_bar_cons]
      exact ⟨Nat.lt_succ_self _, by simp⟩
    · rw [ofChars_blank_cons hblank]
      exact ⟨Nat.lt_succ_self _, rfl⟩
    · -- the character is one of a word, so at least this one is taken off
      have hword : isWordChar c = true :=
        isWordChar_iff.2 ⟨by simpa using hblank, hequals, hbar, hsemicolon⟩
      rw [List.takeWhile_cons_of_pos hword, List.dropWhile_cons_of_pos hword, ofChars,
        if_neg hsemicolon, if_neg hequals, if_neg hbar, if_neg hblank]
      exact ⟨Nat.lt_succ_of_le (List.dropWhile_sublist isWordChar).length_le, by simp⟩

/-- **A scan ends, with the tokens of its line.** -/
theorem exists_end (s : Scan) :
    ∃ last, ReflTransGen (fun s s' => s.next? = some s') s last ∧ last.next? = none ∧
      last.found = s.found ++ ofChars s.rest := by
  induction hn : s.rest.length using Nat.strongRecOn generalizing s with
  | ind n ih =>
    cases hnext : s.next? with
    | none => exact ⟨s, .refl, hnext, by rw [ofChars_rest_eq_nil hnext, List.append_nil]⟩
    | some s' =>
      obtain ⟨hlt, htokens⟩ := next?_spec hnext
      obtain ⟨last, hturns, hover, hfound⟩ := ih _ (hn ▸ hlt) s' rfl
      exact ⟨last, .head hnext hturns, hover, hfound.trans htokens⟩

end Scan

/-! ### Layouts -/

/-- How tokens can be laid out: in their order, with blanks before, between and after them.  Two
words have at least one blank between them. -/
inductive Layout : List Token → List Char → Prop
  | blanks {gap : List Char} (hgap : ∀ c ∈ gap, isBlank c = true) : Layout [] gap
  | token {t : Token} {ts : List Token} {gap rest : List Char}
      (hgap : ∀ c ∈ gap, isBlank c = true) (ht : t.Proper)
      (hapart : t.IsWord → (∃ u ∈ ts.head?, u.IsWord) → ∃ c ∈ rest.head?, isBlank c = true)
      (hrest : Layout ts rest) : Layout (t :: ts) (gap ++ (t.text ++ rest))

/-- What stands on a line before its comment. -/
def beforeComment (line : List Char) : List Char := line.takeWhile fun c => decide (c ≠ ';')

variable {c : Char} {gap line rest : List Char} {t : Token} {ts : List Token}

lemma ofChars_blanks_append (hgap : ∀ c ∈ gap, isBlank c = true) (rest : List Char) :
    ofChars (gap ++ rest) = ofChars rest := by
  induction gap with
  | nil => rfl
  | cons c cs ih =>
    obtain ⟨hc, hcs⟩ := List.forall_mem_cons.1 hgap
    rw [List.cons_append, ofChars_blank_cons hc, ih hcs]

lemma isWordChar_eq_false_of_isBlank (h : isBlank c = true) : isWordChar c = false := by
  rw [Bool.eq_false_iff]
  intro hword
  exact absurd (h.symm.trans (isWordChar_iff.1 hword).1) (by decide)

/-- A layout starts with a blank or with its first token. -/
lemma Layout.head_cases (h : Layout ts rest) (hc : c ∈ rest.head?) :
    isBlank c = true ∨ ∃ u ∈ ts.head?, c ∈ u.text.head? := by
  cases h with
  | blanks hgap => exact .inl (hgap c (List.mem_of_mem_head? hc))
  | @token u us gap rest hgap hu _ _ =>
    cases gap with
    | cons b bs =>
      obtain rfl : b = c := by simpa using hc
      exact .inl (hgap b List.mem_cons_self)
    | nil =>
      refine .inr ⟨u, rfl, ?_⟩
      cases u with
      | equals => exact hc
      | bar => exact hc
      | word w =>
        obtain ⟨d, ds, hw⟩ := List.exists_cons_of_ne_nil hu.1
        simpa [text, hw] using hc

/-- After a word of a layout there is nothing that could belong to it. -/
lemma Layout.not_isWordChar_head (h : Layout ts rest)
    (hapart : (∃ u ∈ ts.head?, u.IsWord) → ∃ c ∈ rest.head?, isBlank c = true) :
    ∀ c ∈ rest.head?, isWordChar c = false := by
  intro c hc
  rcases h.head_cases hc with hblank | ⟨u, hu, hcu⟩
  · exact isWordChar_eq_false_of_isBlank hblank
  · cases u with
    | equals =>
      obtain rfl : '=' = c := by simpa [text] using hcu
      decide
    | bar =>
      obtain rfl : '|' = c := by simpa [text] using hcu
      decide
    | word w =>
      obtain ⟨b, hb, hblank⟩ := hapart ⟨_, hu, w, rfl⟩
      obtain rfl : b = c := Option.some.inj (hb.symm.trans hc)
      exact isWordChar_eq_false_of_isBlank hblank

/-- **A layout of some tokens has these tokens.** -/
theorem Layout.ofChars_eq (h : Layout ts line) : ofChars line = ts := by
  induction h with
  | @blanks gap hgap =>
    have hvacant : Vacant gap := ⟨gap, [], by simp, hgap, .inl rfl⟩
    exact ofChars_eq_nil_iff.2 hvacant
  | token hgap ht hapart hrest ih =>
    rw [ofChars_blanks_append hgap,
      ofChars_text_append ht fun hword => hrest.not_isWordChar_head (hapart hword), ih]

/-! ### Lines as layouts -/

lemma Layout.blank_cons (hc : isBlank c = true) (h : Layout ts line) : Layout ts (c :: line) := by
  cases h with
  | blanks hgap => exact .blanks (List.forall_mem_cons.2 ⟨hc, hgap⟩)
  | token hgap ht hapart hrest =>
    exact .token (List.forall_mem_cons.2 ⟨hc, hgap⟩) ht hapart hrest

/-- A token that is no word can be put before any layout. -/
lemma Layout.sign_append (ht : t.Proper) (hsign : ¬t.IsWord) (h : Layout ts line) :
    Layout (t :: ts) (t.text ++ line) :=
  .token (List.forall_mem_nil _) ht (fun hword => absurd hword hsign) h

lemma beforeComment_cons (hc : c ≠ ';') (cs : List Char) :
    beforeComment (c :: cs) = c :: beforeComment cs :=
  List.takeWhile_cons_of_pos (by simpa using hc)

/-- The longest run of characters of words stands before the comment. -/
lemma beforeComment_eq_append (line : List Char) :
    beforeComment line =
      line.takeWhile isWordChar ++ beforeComment (line.dropWhile isWordChar) := by
  induction line with
  | nil => rfl
  | cons c cs ih =>
    by_cases hc : isWordChar c = true
    · rw [List.takeWhile_cons_of_pos hc, List.dropWhile_cons_of_pos hc,
        beforeComment_cons (isWordChar_iff.1 hc).2.2.2, ih, List.cons_append]
    · rw [List.takeWhile_cons_of_neg hc, List.dropWhile_cons_of_neg hc, List.nil_append]

/-- Where a run of characters of words ends, what is before the comment goes on with none. -/
lemma not_isWordChar_dropWhile :
    ∀ c ∈ (beforeComment (line.dropWhile isWordChar)).head?, isWordChar c = false := by
  intro c hc
  have hstop := List.head?_dropWhile_not isWordChar line
  cases hline : line.dropWhile isWordChar with
  | nil => simp [hline, beforeComment] at hc
  | cons d ds =>
    rw [hline] at hstop hc
    by_cases hd : d = ';'
    · simp [hd, beforeComment] at hc
    · rw [beforeComment_cons hd] at hc
      obtain rfl : d = c := by simpa using hc
      exact hstop

/-- A layout that starts with a word has a blank before it, if it does not start with a character of
the word. -/
lemma Layout.exists_blank_head (h : Layout ts rest) (hword : ∃ u ∈ ts.head?, u.IsWord)
    (hhead : ∀ c ∈ rest.head?, isWordChar c = false) : ∃ c ∈ rest.head?, isBlank c = true := by
  obtain ⟨u, hu, w, rfl⟩ := hword
  cases h with
  | blanks => exact absurd hu (by simp)
  | @token t ts gap rest hgap ht _ _ =>
    obtain rfl : t = word w := by simpa using hu
    cases gap with
    | cons b bs => exact ⟨b, rfl, hgap b List.mem_cons_self⟩
    | nil =>
      obtain ⟨c, cs, hw⟩ := List.exists_cons_of_ne_nil ht.1
      have hc : isWordChar c = true := ht.2 c (by simp [hw])
      have hhead' : isWordChar c = false := hhead c (by simp [text, hw])
      exact absurd (hc.symm.trans hhead') (by decide)

/-- **What stands before the comment of a line is a layout of the tokens of the line.** -/
theorem layout_ofChars (line : List Char) : Layout (ofChars line) (beforeComment line) := by
  induction line using ofChars.induct with
  | case1 =>
    rw [ofChars_nil]
    exact .blanks (List.forall_mem_nil _)
  | case2 cs =>
    rw [ofChars_semicolon_cons, beforeComment, List.takeWhile_cons_of_neg (by simp)]
    exact .blanks (List.forall_mem_nil _)
  | case3 cs hsemicolon ih =>
    rw [ofChars_equals_cons, beforeComment_cons hsemicolon]
    exact ih.sign_append trivial fun ⟨w, hw⟩ => Token.noConfusion hw
  | case4 cs hsemicolon hequals ih =>
    rw [ofChars_bar_cons, beforeComment_cons hsemicolon]
    exact ih.sign_append trivial fun ⟨w, hw⟩ => Token.noConfusion hw
  | case5 c cs hsemicolon hequals hbar hblank ih =>
    rw [ofChars_blank_cons hblank, beforeComment_cons hsemicolon]
    exact ih.blank_cons hblank
  | case6 c cs hsemicolon hequals hbar hblank ih =>
    have hword : isWordChar c = true :=
      isWordChar_iff.2 ⟨by simpa using hblank, hequals, hbar, hsemicolon⟩
    have hproper : (word (String.ofList (c :: cs.takeWhile isWordChar))).Proper := by
      refine ⟨by simp, ?_⟩
      rw [String.toList_ofList]
      exact List.forall_mem_cons.2 ⟨hword, fun d hd => List.mem_takeWhile_imp hd⟩
    rw [ofChars, if_neg hsemicolon, if_neg hequals, if_neg hbar, if_neg hblank,
      beforeComment_cons hsemicolon, beforeComment_eq_append]
    have hlayout := Layout.token (List.forall_mem_nil _) hproper
      (fun _ hnext => ih.exists_blank_head hnext not_isWordChar_dropWhile) ih
    rwa [text, String.toList_ofList] at hlayout

/-- The tokens of a line are those before its comment. -/
lemma ofChars_beforeComment (line : List Char) : ofChars (beforeComment line) = ofChars line :=
  (layout_ofChars line).ofChars_eq

/-- **Reading a line inverts every layout.**  A scan of a line ends, with the tokens of the line.
These depend only on what stands before the first `;`.  Whatever tokens the line is a layout of are
read back; and what stands before the first `;` is such a layout of the tokens that are read. -/
theorem ofChars_inverts_layouts (line : List Char) :
    (∃ last, ReflTransGen (fun s s' : Scan => s.next? = some s') ⟨[], line⟩ last ∧
      last.next? = none ∧ last.found = ofChars line) ∧
    (∀ line', beforeComment line' = beforeComment line → ofChars line' = ofChars line) ∧
    (∀ ts, Layout ts line → ofChars line = ts) ∧
    Layout (ofChars line) (beforeComment line) := by
  refine ⟨?_, ?_, fun ts h => h.ofChars_eq, layout_ofChars line⟩
  · simpa using Scan.exists_end ⟨[], line⟩
  · intro line' h
    rw [← ofChars_beforeComment line', h, ofChars_beforeComment]

/-- Tokens of which two are words that follow each other. -/
def listingTokens : List Token := [word "terminals", equals, word "a", word "é"]

/-- A line with a tab between the words, a wide space at its end and none around the `=`. -/
def listingLine : List Char := "terminals=a\té\u3000".toList

/-- The tokens are laid out on the line and read back, also if a comment follows. -/
theorem tight_listing_is_read_back :
    Layout listingTokens listingLine ∧ ofChars listingLine = listingTokens ∧
      ofChars (listingLine ++ ";= b".toList) = listingTokens := by
  have hblank : ∀ c ∈ ['\t', '\u3000'], isBlank c = true := List.all_eq_true.1 (by decide)
  have hkeyword : (word "terminals").Proper := ⟨by decide, List.all_eq_true.1 (by decide)⟩
  have hfirst : (word "a").Proper := ⟨by decide, List.all_eq_true.1 (by decide)⟩
  have hsecond : (word "é").Proper := ⟨by decide, List.all_eq_true.1 (by decide)⟩
  have hend : Layout [] ['\u3000'] := .blanks (by simp [hblank])
  have hlast : Layout [word "é"] "\té\u3000".toList :=
    @Layout.token _ _ ['\t'] _ (by simp [hblank]) hsecond (by simp) hend
  have hletters : Layout [word "a", word "é"] "a\té\u3000".toList :=
    @Layout.token _ _ [] _ (by simp) hfirst (fun _ _ => ⟨'\t', rfl, hblank _ (by simp)⟩) hlast
  have hsign : Layout [equals, word "a", word "é"] "=a\té\u3000".toList :=
    hletters.sign_append trivial (by simp [IsWord])
  have hlayout : Layout listingTokens listingLine :=
    @Layout.token _ _ [] _ (by simp) hkeyword (by simp [IsWord]) hsign
  have hread := (ofChars_inverts_layouts listingLine).2.2.1 _ hlayout
  have hcomment :=
    (ofChars_inverts_layouts listingLine).2.1 (listingLine ++ ";= b".toList) (by decide)
  exact ⟨hlayout, hread, hcomment.trans hread⟩

end Token

end ChomskyGrammar
