/-
# Arguments

What the arguments of a call say, one item after the other.  Options and positional
arguments may be mixed; `--` makes everything after it positional, and a lone `-` is
positional as well.  Letters of options may be written together, and a value may be
attached to its option or be the next argument.  An argument that starts with `-` is
never taken for a value, except for a lone `-`.
-/
import ChomskyGrammar.CommandLine.Option

namespace ChomskyGrammar

namespace CommandLine

/-- One thing that the arguments say. -/
inductive Item where
  | flag (o : OptionName)
  | setting (o : OptionName) (value : String)
  | positional (text : String)
  /-- Something that makes no sense. -/
  | fault (e : UsageError)
deriving DecidableEq, Repr

namespace Item

/-- The part of a text before the first `=`, and the part after it if there is one. -/
def splitEquals (cs : List Char) : List Char × Option (List Char) :=
  match cs.dropWhile fun c => decide (c ≠ '=') with
  | [] => (cs, none)
  | _ :: value => (cs.takeWhile fun c => decide (c ≠ '='), some value)

/-- An attached value, without the `=` that may stand before it. -/
def attached : List Char → String
  | '=' :: cs => String.ofList cs
  | cs => String.ofList cs

/-- What the letters of a short argument say, and the option at their end that still needs
a value. -/
def ofLetters : List Char → List Item × Option OptionName
  | [] => ([], none)
  | c :: cs =>
    match OptionName.ofShort? c with
    | none => ([.fault (.unknownOption (String.ofList ['-', c]))], none)
    | some o =>
      if o.takesValue then
        if cs.isEmpty then ([], some o) else ([.setting o (attached cs)], none)
      else
        let (items, pending) := ofLetters cs
        (.flag o :: items, pending)

/-- What a long argument says, given what follows its `--`, and its option if that still
needs a value. -/
def ofLong (cs : List Char) : List Item × Option OptionName :=
  let (name, value) := splitEquals cs
  match OptionName.ofLong? (String.ofList name) with
  | none => ([.fault (.unknownOption (String.ofList ('-' :: '-' :: cs)))], none)
  | some o =>
    match value with
    | none => if o.takesValue then ([], some o) else ([.flag o], none)
    | some v =>
      if o.takesValue then ([.setting o (String.ofList v)], none)
      else ([.fault (.unwantedValue o)], none)

/-- What one argument says, and its last option if that still needs a value. -/
def ofArgument (arg : String) : List Item × Option OptionName :=
  match arg.toList with
  | '-' :: '-' :: cs => ofLong cs
  | '-' :: c :: cs => ofLetters (c :: cs)
  | _ => ([.positional arg], none)

/-- Whether an argument can be the value of the option before it. -/
def isValue (arg : String) : Bool :=
  match arg.toList with
  | ['-'] => true
  | '-' :: _ => false
  | _ => true

/-- What some arguments say. -/
def ofArguments : List String → List Item
  | [] => []
  | arg :: rest =>
    -- What follows the first `--` is taken as it is, further `--` included.
    if arg = "--" then rest.map .positional
    else
      match ofArgument arg with
      | (items, none) => items ++ ofArguments rest
      | (items, some o) =>
        match rest with
        | [] => items ++ [.fault (.missingValue o)]
        | value :: rest' =>
          if isValue value then items ++ .setting o value :: ofArguments rest'
          else items ++ [.fault (.missingValue o)]

end Item

end CommandLine

end ChomskyGrammar
