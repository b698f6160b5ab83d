/-
# Building a grammar

A grammar grows by edits.  An edit either applies as a whole or is refused with a reason,
and what it demands keeps every rule meaningful: symbols have the right case and are
declared once, a start symbol and the head of a rule are declared nonterminals, the letter
of a unit body is a declared terminal, and both halves of a binary body have rules of
their own already.
-/
import ChomskyGrammar.Grammar.Basic
import ChomskyGrammar.Grammar.Error

namespace ChomskyGrammar

/-- A change that can be asked of a grammar. -/
inductive Edit where
  | declareNonterminal (c : Char)
  | declareTerminal (c : Char)
  /-- Choose the start symbol, in place of any earlier one. -/
  | setStart (c : Char)
  | addRule (head : Char) (body : String)
  | reset
deriving DecidableEq, Repr

namespace Grammar

/-- The nonterminal that a character denotes, if it is declared. -/
def declared? (g : Grammar) (c : Char) : Option Nonterminal :=
  (Nonterminal.ofChar? c).filter fun a => decide (a ∈ g.nonterminals)

/-- The nonterminal that a character denotes, if it has rules. -/
def productive? (g : Grammar) (c : Char) : Option Nonterminal :=
  (Nonterminal.ofChar? c).filter fun a => decide (a ∈ g.heads)

/-- Declares a nonterminal. -/
def declareNonterminal (g : Grammar) (c : Char) : Except GrammarError Grammar :=
  match Nonterminal.read c with
  | .error e => .error e
  | .ok a =>
    if a ∈ g.nonterminals then .error (.nonterminalRedeclared c)
    else .ok { g with nonterminals := g.nonterminals.insert a }

/-- Declares a terminal. -/
def declareTerminal (g : Grammar) (c : Char) : Except GrammarError Grammar :=
  match Terminal.read c with
  | .error e => .error e
  | .ok t =>
    if t ∈ g.terminals then .error (.terminalRedeclared c)
    else .ok { g with terminals := g.terminals.insert t }

/-- Chooses the start symbol, in place of any earlier one. -/
def setStart (g : Grammar) (c : Char) : Except GrammarError Grammar :=
  match g.declared? c with
  | none => .error (.undeclaredStart c)
  | some a => .ok { g with start := some a }

/-- Reads the body of a rule: one declared terminal, or two nonterminals that have rules
already.  The case of both letters of a pair is looked at before anything else. -/
def readBody (g : Grammar) : List Char → Except GrammarError Body
  | [c] =>
    match Terminal.ofChar? c with
    | none => .error .malformedBody
    | some t => if t ∈ g.terminals then .ok (.unit t) else .error (.undefinedInBody c)
  | [l, r] =>
    if isUppercase l && isUppercase r then
      match g.productive? l, g.productive? r with
      | none, _ => .error (.undefinedInBody l)
      | some _, none => .error (.undefinedInBody r)
      | some a, some b => .ok (.binary a b)
    else .error .malformedBody
  | _ => .error .malformedBody

/-- Adds a rule.  A rule that is there already is accepted and changes nothing. -/
def addRule (g : Grammar) (head : Char) (body : String) : Except GrammarError Grammar :=
  match g.declared? head with
  | none => .error (.undeclaredHead head)
  | some a =>
    match g.readBody body.toList with
    | .error e => .error e
    | .ok b => .ok { g with rules := g.rules.insert ⟨a, b⟩ }

/-- The grammar after an edit, or the reason why the edit is refused. -/
def edit (g : Grammar) : Edit → Except GrammarError Grammar
  | .declareNonterminal c => g.declareNonterminal c
  | .declareTerminal c => g.declareTerminal c
  | .setStart c => g.setStart c
  | .addRule head body => g.addRule head body
  | .reset => .ok empty

/-- The grammar after an edit that may be refused: a refused edit changes nothing. -/
def attempt (g : Grammar) (e : Edit) : Grammar :=
  match g.edit e with
  | .ok g' => g'
  | .error _ => g

end Grammar

end ChomskyGrammar
