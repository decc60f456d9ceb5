import Ambient.Cli.Usage

/-!
# The words of a call

The words that the program is called with are options and operands.  The only option asks for
help; two dashes end the options.  The program's own options stand before the command, those of a
command anywhere among its operands.
-/

namespace Ambient

/-- What was asked for: help, and the words that are no options. -/
structure Words where
  help : Bool := false
  operands : List String := []
  deriving DecidableEq, Repr

namespace Words

/-- A word that begins with a dash and does not end there. -/
def isOption (word : String) : Bool :=
  match word.toList with
  | '-' :: _ :: _ => true
  | _ => false

/-- The letters behind one dash: each is an option. -/
def checkLetters : List Char → Except UsageFault Unit
  | [] => .ok ()
  | c :: cs => if c = 'h' then checkLetters cs else .error (.unknownOption (String.ofList ['-', c]))

/-- Accepts the option that asks for help. -/
def checkOption (word : String) : Except UsageFault Unit :=
  match word.toList with
  | '-' :: '-' :: _ =>
    let (name, value) := match Text.splitFirst? '=' word with
      | some (name, value) => (name, some value)
      | none => (word, none)
    if name = "--help" then
      if value.isSome then .error (.valueGiven name) else .ok ()
    else .error (.unknownOption name)
  | _ => checkLetters (word.toList.drop 1)

/-- Reads the words of a call.  Options are read up to the first operand, or, when they may be
mixed with operands, up to the end. -/
def read (mixed : Bool) : List String → Except UsageFault Words
  | [] => .ok {}
  | word :: rest =>
    if word = "--" then .ok { operands := rest }
    else if isOption word then do
      checkOption word
      let words ← read mixed rest
      return { words with help := true }
    else if mixed then do
      let words ← read mixed rest
      return { words with operands := word :: words.operands }
    else .ok { operands := word :: rest }

end Words

/-- What a call comes down to. -/
inductive Call where
  /-- Help is asked for, or given since nothing was asked for. -/
  | help (asked : Bool)
  | faulty (fault : UsageFault)
  | command (c : Command) (words : List String)
  deriving DecidableEq, Repr

namespace Call

/-- What follows from words that should begin with a command and do not. -/
def misnamed (word : String) (rest : List String) : Call :=
  match Words.read false (word :: rest) with
  | .error f => faulty f
  | .ok words => if words.help then help true else faulty (.unknownCommand word)

/-- What a call comes down to. -/
def ofWords (words : List String) : Call :=
  if words.isEmpty then help false
  else
    match Words.read false words with
    | .error f => faulty f
    | .ok ws =>
      if ws.help then help true
      else
        match ws.operands with
        | [] => faulty .missingCommand
        | word :: rest =>
          match Command.ofName? word with
          | some c => command c rest
          | none => misnamed word rest

end Call

end Ambient
