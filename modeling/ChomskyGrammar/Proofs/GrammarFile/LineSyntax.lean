/-
# The lines that stand for statements, and what is wrong with the others

The tokens of a line are looked at from left to right in several rounds, and the first thing that is
wrong is reported.  `Blames` says what that is: first the start of the line is looked at, then the
tokens of a declaration one by one, or the alternatives of a rule.  The tokens of a line are those
of a statement or there is something to blame (`Statement.exists_tokens_or_blames`).  In the first
case they stand for the statement (`Statement.ofTokens_tokens`), in the second what is blamed is
reported (`Statement.ofTokens_eq_error`).  As a line is read in one way only, each case excludes the
other; so exactly the lines with the tokens of a statement are accepted
(`GrammarFile.readLine_accepts_exactly_statements`).
-/
import ChomskyGrammar.Proofs.GrammarFile.Writing

namespace ChomskyGrammar

/-- The first words of lines that declare or choose symbols. -/
def keywords : List String := ["nonterminals", "terminals", "start"]

/-- What is wrong with a token that stands where a symbol is needed. -/
inductive Misplaced : Token → Fault → Prop
  | equals : Misplaced .equals .unexpectedEquals
  | bar : Misplaced .bar .unexpectedBar
  | long {w : String} (hlength : w.length ≠ 1) : Misplaced (.word w) (.symbolTooLong w)

/-- What is wrong with an alternative that is no body.  One with several words and a `=` is blamed
for the `=`. -/
inductive Bodiless : List Token → Fault → Prop
  | empty : Bodiless [] .emptyAlternative
  | equals {ts : List Token} (hequals : .equals ∈ ts) : Bodiless ts .unexpectedEquals
  | split {ws : List String} (hlength : 2 ≤ ws.length) :
    Bodiless (ws.map .word) (.splitBody (" ".intercalate ws))

/-- The first thing that is wrong with the tokens of a line. -/
inductive Blames : List Token → Fault → Prop
  /-- The first token is no word. -/
  | head {t : Token} {ts : List Token} (hword : ∀ w, t ≠ .word w) : Blames (t :: ts) .missingHead
  /-- The second token is not `=`. -/
  | equals {w : String} {ts : List Token} (hequals : ts.head? ≠ some .equals) :
    Blames (.word w :: ts) (.missingEquals w)
  /-- The first word is neither a keyword nor a single character. -/
  | directive {w : String} {ts : List Token} (hkeyword : w ∉ keywords) (hlength : w.length ≠ 1) :
    Blames (.word w :: .equals :: ts) (.unknownDirective w)
  /-- After some symbols of a declaration there is a token that is none. -/
  | symbol {w : String} {cs : List Char} {t : Token} {ts : List Token} {fault : Fault}
    (hkeyword : w ∈ keywords) (ht : Misplaced t fault) :
    Blames (.word w :: .equals :: (cs.map Token.letter ++ t :: ts)) fault
  /-- After some bodies of a rule there is an alternative, up to the next `|`, that is none. -/
  | alternative {c : Char} {ws : List String} {alt ts : List Token} {fault : Fault}
    (hbar : .bar ∉ alt) (hts : ∀ t ∈ ts.head?, t = .bar) (halt : Bodiless alt fault) :
    Blames (Token.letter c :: .equals :: (ws.flatMap (fun w => [.word w, .bar]) ++ (alt ++ ts)))
      fault

/-! ### The first fault -/

/-- A word is too long or too short for a symbol, or it is one. -/
lemma length_ne_one_or_letter (w : String) : w.length ≠ 1 ∨ ∃ c, w = String.ofList [c] := by
  by_cases h : w.length = 1
  · rw [← String.length_toList] at h
    obtain ⟨c, hc⟩ := List.length_eq_one_iff.1 h
    exact .inr ⟨c, by rw [← hc, String.ofList_toList]⟩
  · exact .inl h

namespace Statement

variable {w : String} {rest ts : List Token} {fault : Fault} {s : Statement}

lemma single?_eq_none (h : w.length ≠ 1) : single? w = none := by
  rw [single?]
  split
  · rename_i c hc
    exact absurd (by rw [← String.length_toList, hc]; rfl) h
  · rfl

lemma readSymbol_eq_error {t : Token} (h : Misplaced t fault) : readSymbol t = .error fault := by
  cases h with
  | equals => rfl
  | bar => rfl
  | long hlength => rw [readSymbol, single?_eq_none hlength]

/-- The symbols of a declaration before its first misplaced token do not matter. -/
lemma readSymbols_eq_error {cs : List Char} {t : Token} (h : Misplaced t fault) :
    readSymbols (cs.map Token.letter ++ t :: ts) = .error fault := by
  refine mapM_append_cons_error (fun u hu => ?_) (readSymbol_eq_error h)
  obtain ⟨c, -, rfl⟩ := List.mem_map.1 hu
  exact ⟨c, readSymbol_letter c⟩

lemma words_map_word (ws : List String) : words (ws.map .word) = ws := by
  rw [words, List.filterMap_map]
  exact List.filterMap_some

lemma readBody_eq_error (h : Bodiless ts fault) : readBody ts = .error fault := by
  cases h with
  | empty => rfl
  | equals hequals =>
    rw [readBody]
    · exact if_pos hequals
    · rintro rfl
      exact absurd hequals List.not_mem_nil
    · rintro w rfl
      exact absurd hequals (by simp)
  | @split ws hlength =>
    rw [readBody]
    · rw [if_neg (by simp), words_map_word]
    · intro h
      rw [List.map_eq_nil_iff] at h
      simp [h] at hlength
    · intro w h
      have hone := congrArg List.length h
      rw [List.length_map, List.length_singleton] at hone
      omega

/-- The alternatives of a rule that starts with some bodies. -/
lemma exists_pieces {alt : List Token} (hbar : .bar ∉ alt) (hts : ∀ t ∈ ts.head?, t = .bar)
    (ws : List String) :
    ∃ others, pieces .bar (ws.flatMap (fun w => [.word w, .bar]) ++ (alt ++ ts)) =
      ws.map (fun w => [.word w]) ++ alt :: others := by
  induction ws with
  | nil =>
    cases ts with
    | nil => exact ⟨[], by simpa using pieces_of_not_mem hbar⟩
    | cons t ts =>
      obtain rfl : t = .bar := hts t rfl
      exact ⟨pieces .bar ts, pieces_append_cons hbar⟩
  | cons w ws ih =>
    obtain ⟨others, hothers⟩ := ih
    have hword : Token.bar ∉ [Token.word w] := by simp
    refine ⟨others, ?_⟩
    rw [List.map_cons, List.cons_append, ← hothers]
    exact pieces_append_cons hword

lemma readBodies_eq_error {alt : List Token} {ws : List String} (hbar : .bar ∉ alt)
    (hts : ∀ t ∈ ts.head?, t = .bar) (h : Bodiless alt fault) :
    readBodies (ws.flatMap (fun w => [.word w, .bar]) ++ (alt ++ ts)) = .error fault := by
  obtain ⟨others, hothers⟩ := exists_pieces hbar hts ws
  rw [readBodies, hothers]
  refine mapM_append_cons_error (fun b hb => ?_) (readBody_eq_error h)
  obtain ⟨w, -, rfl⟩ := List.mem_map.1 hb
  exact ⟨w, rfl⟩

lemma ofParts_keyword (hw : w ∈ keywords) (h : readSymbols rest = .error fault) :
    ofParts w rest = .error fault := by
  simp only [keywords, List.mem_cons, List.not_mem_nil, or_false] at hw
  rcases hw with rfl | rfl | rfl
  · rw [ofParts, if_pos rfl, h]
    rfl
  · rw [ofParts, if_neg (by decide), if_pos rfl, h]
    rfl
  · rw [ofParts, if_neg (by decide), if_neg (by decide), if_pos rfl, h]
    rfl

lemma ofParts_directive (hw : w ∉ keywords) (hlength : w.length ≠ 1) :
    ofParts w rest = .error (.unknownDirective w) := by
  simp only [keywords, List.mem_cons, List.not_mem_nil, or_false, not_or] at hw
  rw [ofParts, if_neg hw.1, if_neg hw.2.1, if_neg hw.2.2, single?_eq_none hlength]

/-- **What is blamed is reported.** -/
theorem ofTokens_eq_error (h : Blames ts fault) : ofTokens ts = .error fault := by
  cases h with
  | @head t ts hword =>
    rw [ofTokens]
    · rintro w rest rfl
      exact absurd rfl (hword w)
    · rintro w rfl
      exact absurd rfl (hword w)
  | @equals w ts hequals =>
    rw [ofTokens]
    rintro rest rfl
    exact absurd rfl hequals
  | directive hkeyword hlength => exact ofParts_directive hkeyword hlength
  | symbol hkeyword ht => exact ofParts_keyword hkeyword (readSymbols_eq_error ht)
  | @alternative c ws alt ts fault hbar hts halt =>
    rw [Token.letter, ofTokens, ofParts_letter, readBodies_eq_error hbar hts halt]
    rfl

/-! ### There is a statement or something to blame -/

lemma exists_letters_or_misplaced (ts : List Token) :
    (∃ cs : List Char, ts = cs.map Token.letter) ∨
      ∃ (cs : List Char) (t : Token) (later : List Token) (fault : Fault),
        ts = cs.map Token.letter ++ t :: later ∧ Misplaced t fault := by
  induction ts with
  | nil => exact .inl ⟨[], rfl⟩
  | cons t ts ih =>
    have hhead : (∃ c, t = Token.letter c) ∨ ∃ fault, Misplaced t fault := by
      cases t with
      | equals => exact .inr ⟨_, .equals⟩
      | bar => exact .inr ⟨_, .bar⟩
      | word w =>
        rcases length_ne_one_or_letter w with hlength | ⟨c, rfl⟩
        · exact .inr ⟨_, .long hlength⟩
        · exact .inl ⟨c, rfl⟩
    rcases hhead with ⟨c, rfl⟩ | ⟨fault, ht⟩
    · rcases ih with ⟨cs, rfl⟩ | ⟨cs, u, later, fault, rfl, hu⟩
      · exact .inl ⟨c :: cs, rfl⟩
      · exact .inr ⟨c :: cs, u, later, fault, rfl, hu⟩
    · exact .inr ⟨[], t, ts, fault, rfl, ht⟩

/-- An alternative is a body, or something is wrong with it. -/
lemma eq_word_or_bodiless (hbar : .bar ∉ ts) :
    (∃ w, ts = [.word w]) ∨ ∃ fault, Bodiless ts fault := by
  by_cases hequals : .equals ∈ ts
  · exact .inr ⟨_, .equals hequals⟩
  -- Only words are left.
  have hwords : ∃ ws : List String, ts = ws.map .word := by
    induction ts with
    | nil => exact ⟨[], rfl⟩
    | cons t ts ih =>
      simp only [List.mem_cons, not_or] at hbar hequals
      obtain ⟨ws, rfl⟩ := ih hbar.2 hequals.2
      cases t with
      | equals => exact absurd rfl hequals.1
      | bar => exact absurd rfl hbar.1
      | word w => exact ⟨w :: ws, rfl⟩
  obtain ⟨ws, rfl⟩ := hwords
  match ws with
  | [] => exact .inr ⟨_, .empty⟩
  | [w] => exact .inl ⟨w, rfl⟩
  | w :: v :: ws => exact .inr ⟨_, .split (Nat.le_add_left 2 ws.length)⟩

/-- Either all alternatives of a rule are bodies, or something is wrong with one after some
bodies. -/
lemma exists_bodies_or_bodiless (ts : List Token) :
    (∃ ws : List String, ws ≠ [] ∧ ts = [Token.bar].intercalate (ws.map fun w => [.word w])) ∨
      ∃ (ws : List String) (alt later : List Token) (fault : Fault),
        ts = ws.flatMap (fun w => [.word w, .bar]) ++ (alt ++ later) ∧ .bar ∉ alt ∧
          (∀ t ∈ later.head?, t = .bar) ∧ Bodiless alt fault := by
  induction ts using firstSeparator_induct Token.bar with
  | last alt hbar =>
    rcases eq_word_or_bodiless hbar with ⟨w, rfl⟩ | ⟨fault, halt⟩
    · exact .inl ⟨[w], by simp, by simp⟩
    · exact .inr ⟨[], alt, [], fault, by simp, hbar, by simp, halt⟩
  | cut alt later hbar ih =>
    rcases eq_word_or_bodiless hbar with ⟨w, rfl⟩ | ⟨fault, halt⟩
    · rcases ih with ⟨ws, hne, rfl⟩ | ⟨ws, alt, rest, fault, rfl, hbar, hrest, halt⟩
      · obtain ⟨v, vs, rfl⟩ := List.exists_cons_of_ne_nil hne
        refine .inl ⟨w :: v :: vs, by simp, ?_⟩
        simp only [List.map_cons, List.intercalate_cons_cons]
        rfl
      · exact .inr ⟨w :: ws, alt, rest, fault, rfl, hbar, hrest, halt⟩
    · refine .inr ⟨[], alt, .bar :: later, fault, rfl, hbar, ?_, halt⟩
      rintro t ⟨⟩
      rfl

/-- **The tokens of a line are those of a statement, or there is something to blame.** -/
theorem exists_tokens_or_blames (hne : ts ≠ []) :
    (∃ s : Statement, ts = s.tokens ∧ ∀ head bodies, s = .rules head bodies → bodies ≠ []) ∨
      ∃ fault, Blames ts fault := by
  obtain ⟨t, ts, rfl⟩ := List.exists_cons_of_ne_nil hne
  cases t with
  | equals => exact .inr ⟨_, .head (by simp)⟩
  | bar => exact .inr ⟨_, .head (by simp)⟩
  | word w =>
    by_cases hequals : ts.head? = some .equals
    · obtain ⟨rest, rfl⟩ := List.head?_eq_some_iff.1 hequals
      by_cases hkeyword : w ∈ keywords
      · rcases exists_letters_or_misplaced rest with ⟨cs, rfl⟩ | ⟨cs, t, later, fault, rfl, ht⟩
        · left
          simp only [keywords, List.mem_cons, List.not_mem_nil, or_false] at hkeyword
          rcases hkeyword with rfl | rfl | rfl
          · exact ⟨.nonterminals cs, rfl, by simp⟩
          · exact ⟨.terminals cs, rfl, by simp⟩
          · exact ⟨.start cs, rfl, by simp⟩
        · exact .inr ⟨fault, .symbol hkeyword ht⟩
      · rcases length_ne_one_or_letter w with hlength | ⟨c, rfl⟩
        · exact .inr ⟨_, .directive hkeyword hlength⟩
        · rcases exists_bodies_or_bodiless rest with
            ⟨ws, hws, rfl⟩ | ⟨ws, alt, later, fault, rfl, hbar, hlater, halt⟩
          · refine .inl ⟨.rules c ws, rfl, ?_⟩
            rintro head bodies ⟨⟩
            exact hws
          · exact .inr ⟨fault, .alternative hbar hlater halt⟩
    · exact .inr ⟨_, .equals hequals⟩

/-! ### What tokens stand for -/

theorem ofTokens_eq_ok_iff (hne : ts ≠ []) :
    ofTokens ts = .ok s ↔
      ts = s.tokens ∧ ∀ head bodies, s = .rules head bodies → bodies ≠ [] := by
  constructor
  · intro h
    rcases exists_tokens_or_blames hne with ⟨s', rfl, hbodies⟩ | ⟨fault, hblames⟩
    · obtain rfl := Except.ok.inj ((ofTokens_tokens hbodies).symm.trans h)
      exact ⟨rfl, hbodies⟩
    · exact absurd ((ofTokens_eq_error hblames).symm.trans h) (by simp)
  · rintro ⟨rfl, hbodies⟩
    exact ofTokens_tokens hbodies

theorem ofTokens_eq_error_iff (hne : ts ≠ []) : ofTokens ts = .error fault ↔ Blames ts fault := by
  refine ⟨fun h => ?_, ofTokens_eq_error⟩
  rcases exists_tokens_or_blames hne with ⟨s, rfl, hbodies⟩ | ⟨fault', hblames⟩
  · exact absurd ((ofTokens_tokens hbodies).symm.trans h) (by simp)
  · obtain rfl := Except.error.inj ((ofTokens_eq_error hblames).symm.trans h)
    exact hblames

end Statement

/-! ### Lines -/

lemma Blames.ne_nil {ts : List Token} {fault : Fault} (h : Blames ts fault) : ts ≠ [] := by
  cases h <;> exact List.cons_ne_nil _ _

lemma Statement.tokens_ne_nil (s : Statement) : s.tokens ≠ [] := by
  cases s <;> exact List.cons_ne_nil _ _

namespace GrammarFile

variable {file : String} {number : Nat} {cs : List Char}

lemma readLine_of_ofTokens_ok {s : Statement} (hne : Token.ofChars cs ≠ [])
    (h : Statement.ofTokens (Token.ofChars cs) = .ok s) :
    readLine file number (.ok cs) = .ok (some ⟨number, s⟩) := by
  obtain ⟨t, ts, hts⟩ := List.exists_cons_of_ne_nil hne
  rw [hts] at h
  simp only [readLine, hts, h]

lemma readLine_of_ofTokens_error {fault : Fault} (hne : Token.ofChars cs ≠ [])
    (h : Statement.ofTokens (Token.ofChars cs) = .error fault) :
    readLine file number (.ok cs) = .error ⟨⟨file, number⟩, fault⟩ := by
  obtain ⟨t, ts, hts⟩ := List.exists_cons_of_ne_nil hne
  rw [hts] at h
  simp only [readLine, hts, h]

/-- **A line is read exactly if its tokens are those of a statement.**  A line without tokens is
passed over.  A line stands for a statement exactly if its tokens are a keyword, `=` and one word of
a single character for each of the symbols, or a word of a single character, `=` and one word for
each of the bodies, at least one, with `|` between them.  In every other case the fault is the first
thing that is wrong with the tokens, at the place of the line. -/
theorem readLine_accepts_exactly_statements (file : String) (number : Nat) (cs : List Char) :
    (readLine file number (.ok cs) = .ok none ↔ Token.ofChars cs = []) ∧
    (∀ l, readLine file number (.ok cs) = .ok (some l) ↔
      l.number = number ∧ Token.ofChars cs = l.statement.tokens ∧
        ∀ head bodies, l.statement = .rules head bodies → bodies ≠ []) ∧
    ∀ f, readLine file number (.ok cs) = .error f ↔
      f.location = ⟨file, number⟩ ∧ Blames (Token.ofChars cs) f.fault := by
  by_cases hts : Token.ofChars cs = []
  · have hread : readLine file number (.ok cs) = .ok none := by simp only [readLine, hts]
    rw [hread, hts]
    refine ⟨iff_of_true rfl rfl, fun l => ?_, fun f => ?_⟩
    · exact iff_of_false (by simp) fun h => l.statement.tokens_ne_nil h.2.1.symm
    · exact iff_of_false (by simp) fun h => h.2.ne_nil rfl
  have hok : ∀ s, Statement.ofTokens (Token.ofChars cs) = .ok s ↔ Token.ofChars cs = s.tokens ∧
      ∀ head bodies, s = .rules head bodies → bodies ≠ [] :=
    fun _ => Statement.ofTokens_eq_ok_iff hts
  have herror : ∀ fault, Statement.ofTokens (Token.ofChars cs) = .error fault ↔
      Blames (Token.ofChars cs) fault :=
    fun _ => Statement.ofTokens_eq_error_iff hts
  cases hread : Statement.ofTokens (Token.ofChars cs) with
  | ok s =>
    simp only [hread, Except.ok.injEq, reduceCtorEq, false_iff] at hok herror
    rw [readLine_of_ofTokens_ok hts hread]
    refine ⟨iff_of_false (by simp) hts, fun l => ?_, fun f => ?_⟩
    · obtain ⟨n, s'⟩ := l
      rw [← hok s']
      simp [eq_comm]
    · exact iff_of_false (by simp) fun h => herror f.fault h.2
  | error fault =>
    simp only [hread, Except.error.injEq, reduceCtorEq, false_iff] at hok herror
    rw [readLine_of_ofTokens_error hts hread]
    refine ⟨iff_of_false (by simp) hts, fun l => ?_, fun f => ?_⟩
    · exact iff_of_false (by simp) fun h => hok l.statement h.2
    · obtain ⟨place, fault'⟩ := f
      rw [← herror fault']
      simp [eq_comm]

end GrammarFile

end ChomskyGrammar
