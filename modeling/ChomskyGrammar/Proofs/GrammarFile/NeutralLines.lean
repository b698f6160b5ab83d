/-
# Blanks, comments and ends of lines are neutral

What a load makes of a line depends on the tokens of the line, and on its number only for the
places of faults.  So a load depends on the lines that have tokens, on their order and on their
numbers (`loadText_move`); and if the same lines have other numbers, the same faults are reported
at these (`Load.move`).  A line that says nothing can be inserted anywhere, blanks or a comment can
be appended to any line, and lines can end with a carriage return
(`neutral_additions_keep_loads`).
-/
import Mathlib
import ChomskyGrammar.Proofs.GrammarFile.Checking
import ChomskyGrammar.Proofs.GrammarFile.Layout
import ChomskyGrammar.Proofs.Text.Lines

namespace ChomskyGrammar

/-! ### Additions to a line -/

namespace Token

variable {gap line extra : List Char} {ts : List Token}

lemma Layout.append_blanks (h : Layout ts line) (hgap : ∀ c ∈ gap, isBlank c = true) :
    Layout ts (line ++ gap) := by
  induction h with
  | blanks hline => exact .blanks fun c hc => (List.mem_append.1 hc).elim (hline c) (hgap c)
  | token hline ht hapart _ ih =>
    rw [List.append_assoc, List.append_assoc]
    refine .token hline ht (fun hword hnext => ?_) ih
    obtain ⟨c, hc, hblank⟩ := hapart hword hnext
    exact ⟨c, List.mem_head?_append_of_mem_head? hc, hblank⟩

lemma beforeComment_of_not_mem (h : ';' ∉ line) (rest : List Char) :
    beforeComment (line ++ rest) = line ++ beforeComment rest := by
  refine List.takeWhile_append_of_pos fun c hc => ?_
  rw [decide_eq_true_eq]
  rintro rfl
  exact h hc

lemma not_semicolon_mem_blanks (hgap : ∀ c ∈ gap, isBlank c = true) : ';' ∉ gap :=
  fun h => absurd (hgap ';' h) (by decide)

/-- Blanks or a comment at the end of a line do not change its tokens. -/
theorem ofChars_append_of_vacant (h : Vacant extra) : ofChars (line ++ extra) = ofChars line := by
  obtain ⟨gap, comment, rfl, hgap, hcomment⟩ := h
  have hnone : beforeComment comment = [] := by
    rcases hcomment with rfl | ⟨cs, rfl⟩
    · rfl
    · exact List.takeWhile_cons_of_neg (by simp)
  have hextra : beforeComment (gap ++ comment) = gap := by
    rw [beforeComment_of_not_mem (not_semicolon_mem_blanks hgap), hnone, List.append_nil]
  by_cases hline : ';' ∈ line
  · -- the line has a comment already
    obtain ⟨before, after, rfl, hbefore⟩ := List.eq_append_cons_of_mem hline
    have hcut : ∀ cs, ofChars (before ++ ';' :: cs) = ofChars before := fun cs => by
      rw [← ofChars_beforeComment, beforeComment_of_not_mem hbefore, beforeComment,
        List.takeWhile_cons_of_neg (by simp), List.append_nil]
    rw [List.append_assoc, List.cons_append, hcut, hcut]
  · have hwhole : beforeComment line = line := by
      simpa [beforeComment] using beforeComment_of_not_mem hline []
    have hlayout : Layout (ofChars line) line := by
      simpa only [hwhole] using layout_ofChars line
    rw [← ofChars_beforeComment, beforeComment_of_not_mem hline, hextra]
    exact (hlayout.append_blanks hgap).ofChars_eq

lemma ofChars_dropReturn (line : List Char) : ofChars (dropReturn '\r' line) = ofChars line := by
  rw [dropReturn]
  split
  · rename_i h
    have hvacant : Vacant ['\r'] :=
      ⟨['\r'], [], by simp, List.all_eq_true.1 (by decide), .inl rfl⟩
    rw [← ofChars_append_of_vacant hvacant, List.dropLast_append_getLast? _ h]
  · rfl

end Token

/-! ### Lines with other numbers -/

/-- A fault, moved to another line. -/
def LocatedFault.move (f : Nat → Nat) (x : LocatedFault) : LocatedFault :=
  ⟨⟨x.location.file, f x.location.line⟩, x.fault⟩

/-- A statement, moved to another line. -/
def Line.move (f : Nat → Nat) (l : Line) : Line := ⟨f l.number, l.statement⟩

/-- A load with its faults moved to other lines. -/
def Load.move (f : Nat → Nat) (load : Load) : Load :=
  ⟨load.log, load.result.mapError (List.map (LocatedFault.move f))⟩

lemma Load.move_id (load : Load) : load.move id = load := by
  obtain ⟨log, result⟩ := load
  have hmove : LocatedFault.move id = id := rfl
  cases result <;> simp [move, hmove, Except.mapError]

namespace GrammarFile

variable {text text' file : String} {f : Nat → Nat} {lines : List (List Char)} {k : Nat}

/-! ### Each stage moves its faults with the lines -/

lemma statementFaults_move (f : Nat → Nat) (file : String) (chosen : Bool) (ls : List Line) :
    statementFaults file chosen (ls.map (Line.move f)) =
      (statementFaults file chosen ls).map (LocatedFault.move f) := by
  induction ls generalizing chosen with
  | nil => rfl
  | cons l ls ih =>
    rw [List.map_cons, statementFaults_cons, statementFaults_cons, List.map_append, ← ih]
    show (Option.map _ (statementFault? chosen l.statement)).toList ++ _ = _
    cases statementFault? chosen l.statement <;> rfl

lemma numberedEdits_move (f : Nat → Nat) (ls : List Line) :
    numberedEdits (ls.map (Line.move f)) = (numberedEdits ls).map (Prod.map f id) := by
  simp [numberedEdits, List.flatMap_map, List.map_flatMap, Function.comp_def, Line.move]

lemma applyEdits_move (f : Nat → Nat) (g : Grammar) (es : List (Nat × Edit)) :
    applyEdits g (es.map (Prod.map f id)) =
      ((applyEdits g es).1, (applyEdits g es).2.map (Prod.map f id)) := by
  induction es generalizing g with
  | nil => rfl
  | cons e es ih =>
    obtain ⟨n, e⟩ := e
    rw [List.map_cons, Prod.map_apply, id, applyEdits, applyEdits]
    cases g.edit e with
    | ok g' => exact ih g'
    | error refusal => simp [ih g]

lemma refusalFaults_move (f : Nat → Nat) (file : String) (rs : List (Nat × GrammarError)) :
    refusalFaults file (rs.map (Prod.map f id)) =
      (refusalFaults file rs).map (LocatedFault.move f) := by
  simp [refusalFaults, LocatedFault.move]

/-- The last two stages report the same faults wherever the statements are. -/
lemma loadStatements_move (f : Nat → Nat) (file : String) (ls : List Line) :
    loadStatements file (ls.map (Line.move f)) = (loadStatements file ls).move f := by
  rw [loadStatements, loadStatements, statementFaults_move, numberedEdits_move, applyEdits_move]
  cases statementFaults file false ls with
  | cons x xs => rfl
  | nil =>
    obtain ⟨g, refusals⟩ := applyEdits .empty (numberedEdits ls)
    cases refusals with
    | nil => rfl
    | cons r rs =>
      exact congrArg (fun xs => Load.mk [] (.error xs)) (refusalFaults_move f file (r :: rs))

lemma loadText_eq (text file : String) :
    loadText text file =
      match garbles file text with
      | x :: xs => ⟨[], .error (x :: xs)⟩
      | [] =>
        { loadStatements file (numberedStatements text) with
          log := statementsRecord file (numberedStatements text).length ::
            (loadStatements file (numberedStatements text)).log } := by
  rw [loadText, loadLines, readLines_text]
  cases garbles file text <;> rfl

/-! ### Loads depend on tokens -/

/-- The tokens of the lines that have some, with the numbers of the lines. -/
def tokenLines (k : Nat) (lines : List (List Char)) : List (List Token × Nat) :=
  ((lines.map Token.ofChars).zipIdx k).filter fun l => !l.1.isEmpty

lemma garbles_eq (file text : String) :
    garbles file text = (tokenLines 1 (textLines text.toList)).filterMap fun l =>
      match Statement.ofTokens l.1 with
      | .error fault => some ⟨⟨file, l.2⟩, fault⟩
      | .ok _ => none := by
  rw [garbles, tokenLines, List.zipIdx_map, List.filterMap_filter, List.filterMap_map]
  refine congrArg (fun g => (numberedLines text).filterMap g) (funext fun l => ?_)
  simp only [garble?, Function.comp_apply, Prod.map_fst, Prod.map_snd]
  cases Token.ofChars l.1 with
  | nil => rfl
  | cons t ts => cases Statement.ofTokens (t :: ts) <;> simp

lemma numberedStatements_eq (text : String) :
    numberedStatements text = (tokenLines 1 (textLines text.toList)).filterMap fun l =>
      (Statement.ofTokens l.1).toOption.map (Line.mk l.2) := by
  rw [numberedStatements, tokenLines, List.zipIdx_map, List.filterMap_filter, List.filterMap_map]
  refine congrArg (fun g => (numberedLines text).filterMap g) (funext fun l => ?_)
  simp only [statement?, Function.comp_apply, Prod.map_fst, Prod.map_snd]
  cases Token.ofChars l.1 with
  | nil => rfl
  | cons t ts => rfl

/-- **Lines with the same tokens are loaded alike.**  If only their numbers are different, the same
faults are reported at the other numbers. -/
theorem loadText_move (h : tokenLines 1 (textLines text'.toList) =
    (tokenLines 1 (textLines text.toList)).map (Prod.map id f)) :
    loadText text' file = (loadText text file).move f := by
  have hgarbles : garbles file text' = (garbles file text).map (LocatedFault.move f) := by
    rw [garbles_eq, garbles_eq, h, List.filterMap_map, List.map_filterMap]
    refine congrArg (fun g => List.filterMap g _) (funext fun l => ?_)
    simp only [Function.comp_apply, Prod.map_fst, Prod.map_snd, id]
    cases Statement.ofTokens l.1 <;> rfl
  have hstatements : numberedStatements text' = (numberedStatements text).map (Line.move f) := by
    rw [numberedStatements_eq, numberedStatements_eq, h, List.filterMap_map, List.map_filterMap]
    refine congrArg (fun g => List.filterMap g _) (funext fun l => ?_)
    simp only [Function.comp_apply, Prod.map_fst, Prod.map_snd, id]
    cases Statement.ofTokens l.1 <;> rfl
  rw [loadText_eq, loadText_eq, hgarbles, hstatements, loadStatements_move, List.length_map]
  cases garbles file text <;> rfl

/-! ### Lines that are joined -/

/-- The text of some lines, with an end of line between one and the next. -/
def joined (ending : List Char) (lines : List (List Char)) : String :=
  String.ofList (ending.intercalate lines)

lemma tokenLines_cons (k : Nat) (l : List Char) (ls : List (List Char)) :
    tokenLines k (l :: ls) =
      (if Token.ofChars l = [] then [] else [(Token.ofChars l, k)]) ++ tokenLines (k + 1) ls := by
  rw [tokenLines, List.map_cons, List.zipIdx_cons, List.filter_cons]
  split <;> simp_all [tokenLines]

/-- The lines of a joined text have the tokens of the lines that were joined, if lines end with an
end of line that may have blanks before it. -/
lemma tokenLines_joined (gap : List Char) (hgap : ∀ c ∈ gap, isBlank c = true)
    (hnewline : '\n' ∉ gap) (hlines : ∀ l ∈ lines, '\n' ∉ l) :
    tokenLines k (textLines (joined (gap ++ ['\n']) lines).toList) = tokenLines k lines := by
  rw [joined, String.toList_ofList]
  induction lines generalizing k with
  | nil =>
    rw [List.intercalate_nil, textLines, pieces_of_not_mem List.not_mem_nil]
    rfl
  | cons l ls ih =>
    obtain ⟨hl, hls⟩ := List.forall_mem_cons.1 hlines
    cases ls with
    | nil =>
      -- the last line is none if it is empty, and then it has no tokens
      rw [List.intercalate_singleton, textLines, pieces_of_not_mem hl]
      cases l with
      | nil => simp [closeLines, tokenLines]
      | cons c cs => rfl
    | cons m ms =>
      have hclosed : '\n' ∉ l ++ gap := by simp [hl, hnewline]
      have htokens : Token.ofChars (dropReturn '\r' (l ++ gap)) = Token.ofChars l := by
        rw [Token.ofChars_dropReturn]
        exact Token.ofChars_append_of_vacant ⟨gap, [], by simp, hgap, .inl rfl⟩
      have hjoin : (gap ++ ['\n']).intercalate (l :: m :: ms) =
          (l ++ gap) ++ '\n' :: (gap ++ ['\n']).intercalate (m :: ms) := by
        simp [List.intercalate_cons_cons]
      rw [hjoin, textLines, closeLines_pieces_append hclosed, tokenLines_cons, tokenLines_cons,
        htokens]
      exact congrArg _ (ih hls)

/-- Lines are moved by what is inserted before them. -/
lemma tokenLines_succ (k : Nat) (lines : List (List Char)) :
    tokenLines (k + 1) lines = (tokenLines k lines).map (Prod.map id (· + 1)) := by
  induction lines generalizing k with
  | nil => rfl
  | cons l ls ih =>
    rw [tokenLines_cons, tokenLines_cons, ih, List.map_append]
    split <;> rfl

lemma tokenLines_append (k : Nat) (before after : List (List Char)) :
    tokenLines k (before ++ after) =
      tokenLines k before ++ tokenLines (k + before.length) after := by
  simp [tokenLines, List.zipIdx_append]

lemma mem_tokenLines_bounds {l : List Token × Nat} (h : l ∈ tokenLines k lines) :
    k ≤ l.2 ∧ l.2 < k + lines.length := by
  have hl := List.mem_of_mem_filter h
  have hlt := List.snd_lt_add_of_mem_zipIdx hl
  exact ⟨List.le_snd_of_mem_zipIdx hl, by simpa using hlt⟩

/-! ### Neutral additions to a text -/

/-- Where a line is after another one has been inserted behind the first `n` lines. -/
def pushedDown (n number : Nat) : Nat := if number ≤ n then number else number + 1

/-- An inserted line without tokens pushes down the lines behind it. -/
lemma tokenLines_insert {blank : List Char} (before after : List (List Char)) (h : Vacant blank) :
    tokenLines 1 (before ++ blank :: after) =
      (tokenLines 1 (before ++ after)).map (Prod.map id (pushedDown before.length)) := by
  have hbefore : (tokenLines 1 before).map (Prod.map id (pushedDown before.length)) =
      tokenLines 1 before := by
    refine (List.map_congr_left fun l hl => ?_).trans (List.map_id _)
    have hlt := (mem_tokenLines_bounds hl).2
    exact Prod.ext rfl (if_pos (by omega))
  have hafter : (tokenLines (1 + before.length) after).map
      (Prod.map id (pushedDown before.length)) = tokenLines (1 + before.length + 1) after := by
    rw [tokenLines_succ]
    refine List.map_congr_left fun l hl => ?_
    have hle := (mem_tokenLines_bounds hl).1
    exact Prod.ext rfl (if_neg (by omega))
  rw [tokenLines_append, tokenLines_append, tokenLines_cons, if_pos (Token.ofChars_eq_nil_iff.2 h),
    List.nil_append, List.map_append, hbefore, hafter]

/-- **Blanks, comments and ends of lines are neutral.**  Every text is that of some lines, with an
end of line between one and the next.

* If a line that says nothing is inserted anywhere, the faults below it move down with their lines,
  and all else about the load stays the same.
* If blanks or a comment are appended to a line, the load stays the same.
* If every line ends with a carriage return and an end of line, the load stays the same. -/
theorem neutral_additions_keep_loads (file : String) :
    (∀ text : String, (∀ l ∈ pieces '\n' text.toList, '\n' ∉ l) ∧
      joined ['\n'] (pieces '\n' text.toList) = text) ∧
    (∀ before blank after, (∀ l ∈ before ++ blank :: after, '\n' ∉ l) → Vacant blank →
      loadText (joined ['\n'] (before ++ blank :: after)) file =
        (loadText (joined ['\n'] (before ++ after)) file).move (pushedDown before.length)) ∧
    (∀ before l extra after, (∀ m ∈ before ++ (l ++ extra) :: after, '\n' ∉ m) → Vacant extra →
      loadText (joined ['\n'] (before ++ (l ++ extra) :: after)) file =
        loadText (joined ['\n'] (before ++ l :: after)) file) ∧
    ∀ lines, (∀ l ∈ lines, '\n' ∉ l) →
      loadText (joined ['\r', '\n'] lines) file = loadText (joined ['\n'] lines) file := by
  have hlines : ∀ ls, (∀ l ∈ ls, '\n' ∉ l) →
      tokenLines 1 (textLines (joined ['\n'] ls).toList) = tokenLines 1 ls := fun ls hls =>
    tokenLines_joined [] (List.forall_mem_nil _) List.not_mem_nil hls
  have hsame : ∀ text text', tokenLines 1 (textLines text'.toList) =
      tokenLines 1 (textLines text.toList) → loadText text' file = loadText text file := by
    intro text text' h
    have hmap : Prod.map id id = (id : List Token × Nat → _) := Prod.map_id
    rw [← Load.move_id (loadText text file)]
    exact loadText_move (by rw [hmap, List.map_id, h])
  refine ⟨?_, ?_, ?_, ?_⟩
  · intro text
    refine ⟨fun l => not_mem_of_mem_pieces, ?_⟩
    rw [joined, intercalate_pieces, String.ofList_toList]
  · intro before blank after h hblank
    have h' : ∀ l ∈ before ++ after, '\n' ∉ l := by
      rw [List.forall_mem_append, List.forall_mem_cons] at h
      exact List.forall_mem_append.2 ⟨h.1, h.2.2⟩
    refine loadText_move ?_
    rw [hlines _ h, hlines _ h', tokenLines_insert before after hblank]
  · intro before l extra after h hextra
    have h' : ∀ m ∈ before ++ l :: after, '\n' ∉ m := by
      rw [List.forall_mem_append, List.forall_mem_cons] at h ⊢
      exact ⟨h.1, fun hl => h.2.1 (List.mem_append_left extra hl), h.2.2⟩
    refine hsame _ _ ?_
    rw [hlines _ h, hlines _ h', tokenLines_append, tokenLines_append, tokenLines_cons,
      tokenLines_cons, Token.ofChars_append_of_vacant hextra]
  · intro lines h
    refine hsame _ _ ?_
    rw [hlines _ h]
    exact tokenLines_joined ['\r'] (List.all_eq_true.1 (by decide)) (by decide) h

/-- Two declarations. -/
def declarationLines : List (List Char) := ["nonterminals = S".toList, "terminals = a".toList]

/-- After the declarations, a rule that uses a letter that is not declared is refused at line 3.
With a comment before it, it is refused at line 4; with a comment behind it, or with carriage
returns, at line 3 as before. -/
theorem refusal_moves_with_its_line :
    (loadText (joined ['\n'] (declarationLines ++ ["S = b".toList])) "s.cnf").result =
        .error [⟨⟨"s.cnf", 3⟩, .grammar (.undefinedInBody 'b')⟩] ∧
      (loadText (joined ['\n'] (declarationLines ++ ["\t; rules".toList, "S = b".toList]))
        "s.cnf").result =
        .error [⟨⟨"s.cnf", 4⟩, .grammar (.undefinedInBody 'b')⟩] ∧
      (loadText (joined ['\n'] (declarationLines ++ ["S = b ; = |".toList])) "s.cnf").result =
        .error [⟨⟨"s.cnf", 3⟩, .grammar (.undefinedInBody 'b')⟩] ∧
      (loadText (joined ['\r', '\n'] (declarationLines ++ ["S = b".toList])) "s.cnf").result =
        .error [⟨⟨"s.cnf", 3⟩, .grammar (.undefinedInBody 'b')⟩] := by
  have hload : (loadText (joined ['\n'] (declarationLines ++ ["S = b".toList])) "s.cnf").result =
      .error [⟨⟨"s.cnf", 3⟩, .grammar (.undefinedInBody 'b')⟩] := by cbv
  obtain ⟨-, hinsert, happend, hreturns⟩ := neutral_additions_keep_loads "s.cnf"
  have hrules : Vacant "\t; rules".toList :=
    ⟨['\t'], _, rfl, List.all_eq_true.1 (by decide), .inr ⟨_, rfl⟩⟩
  have hcomment : Vacant " ; = |".toList :=
    ⟨[' '], _, rfl, List.all_eq_true.1 (by decide), .inr ⟨_, rfl⟩⟩
  refine ⟨hload, ?_, ?_, ?_⟩
  · rw [hinsert declarationLines _ ["S = b".toList] (by decide) hrules, Load.move, hload]
    rfl
  · rw [← hload, ← happend declarationLines "S = b".toList _ [] (by decide) hcomment]
    rfl
  · rw [hreturns _ (by decide), hload]

end GrammarFile

end ChomskyGrammar
