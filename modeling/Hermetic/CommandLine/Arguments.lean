/-
The words of a command line.

* `OptionName`: the options; each takes a value, which is attached or the next word;
* `Arguments`: what is asked for, once all words are understood;
* `Invocation`: what a list of words is: a request with arguments, a question, or a misuse;
* `Invocation.parse`: what some words are.
-/
import Hermetic.Arch

namespace Hermetic.CommandLine

/-- What a sealing is asked to do. -/
structure Arguments where
  archive : Option String := none
  output : String
  preprocessor : Option String := none
  preprocessorFlags : String := ""
  arch : Option Arch := none
  inputs : List String := []
deriving DecidableEq, Repr

/-- What a list of words is. -/
inductive Invocation
  /-- Asks to seal. -/
  | run (arguments : Arguments)
  /-- Asks for the version. -/
  | version
  /-- Asks for help. -/
  | help
  /-- Is not understood. -/
  | misuse
deriving DecidableEq, Repr

/-! ### Options -/

/-- The options that take a value. -/
inductive OptionName
  | archive
  | output
  | preprocessor
  | preprocessorFlags
  | arch
deriving DecidableEq, Repr

namespace OptionName

/-- The option with a long name. -/
def ofLong? : String → Option OptionName
  | "archive" => some archive
  | "output" => some output
  | "cc" => some preprocessor
  | "cc-flags" => some preprocessorFlags
  | "arch" => some arch
  | _ => none

/-- The option with a short name. -/
def ofShort? : Char → Option OptionName
  | 'a' => some archive
  | 'o' => some output
  | _ => none

/-- Whether the value of an option may start like an option. -/
def takesHyphens : OptionName → Bool
  | preprocessorFlags => true
  | _ => false

end OptionName

/-- The values that were given so far. -/
structure Given where
  archive : Option String := none
  output : Option String := none
  preprocessor : Option String := none
  preprocessorFlags : Option String := none
  arch : Option Arch := none
  inputs : List String := []
deriving DecidableEq, Repr, Inhabited

namespace Given

/-- A value that is a path: no path is empty. -/
def path? (value : String) : Option String :=
  if value.isEmpty then none else some value

/-- A value in a place that must be free. -/
def fill {α : Type} (place : Option α) (value : Option α) : Option (Option α) :=
  match place, value with
  | none, some v => some (some v)
  | _, _ => none

/-- The values with one more, unless it was given or is none of its kind. -/
def set (g : Given) (name : OptionName) (value : String) : Option Given :=
  match name with
  | .archive => (fill g.archive (path? value)).map fun archive => { g with archive }
  | .output => (fill g.output (path? value)).map fun output => { g with output }
  | .preprocessor =>
    (fill g.preprocessor (path? value)).map fun preprocessor => { g with preprocessor }
  | .preprocessorFlags =>
    (fill g.preprocessorFlags (some value)).map fun preprocessorFlags =>
      { g with preprocessorFlags }
  | .arch => (fill g.arch (Arch.ofName value).toOption).map fun arch => { g with arch }

/-- The values with one more input. -/
def addInput (g : Given) (value : String) : Option Given :=
  (path? value).map fun path => { g with inputs := g.inputs ++ [path] }

/-- What the values ask for, if they say where the result goes. -/
def finish (g : Given) : Invocation :=
  match g.output with
  | none => .misuse
  | some output =>
    .run {
      archive := g.archive
      output
      preprocessor := g.preprocessor
      preprocessorFlags := g.preprocessorFlags.getD ""
      arch := g.arch
      inputs := g.inputs }

end Given

/-! ### Words -/

/-- What a word is, by its first characters. -/
inductive Word
  /-- Two hyphens: only inputs follow. -/
  | endOfOptions
  /-- The question for the version. -/
  | version
  /-- The question for help. -/
  | help
  /-- An option with the value that is attached to it. -/
  | option (name : OptionName) (value : Option String)
  /-- An option that there is not. -/
  | unknown
  /-- Anything else. -/
  | plain
deriving DecidableEq, Repr

namespace Word

/-- The word that starts with two hyphens, from what follows them. -/
def ofLong (text : List Char) : Word :=
  let name := String.ofList (text.takeWhile (· != '='))
  let value := match text.dropWhile (· != '=') with
    | [] => none
    | _ :: value => some (String.ofList value)
  match OptionName.ofLong? name with
  | some o => option o value
  | none =>
    if value.isSome then unknown
    else if name = "version" then version
    else if name = "help" then help
    else unknown

/-- The word that starts with one hyphen, from the two parts of what follows it. -/
def ofShort (letter : Char) (attached : List Char) : Word :=
  let value := match attached with
    | [] => none
    | '=' :: value => some (String.ofList value)
    | value => some (String.ofList value)
  match OptionName.ofShort? letter with
  | some o => option o value
  | none => if letter = 'V' then version else if letter = 'h' then help else unknown

/-- What a word is. -/
def of (word : String) : Word :=
  match word.toList with
  | ['-', '-'] => endOfOptions
  | '-' :: '-' :: text => ofLong text
  | '-' :: letter :: attached => ofShort letter attached
  | _ => plain

end Word

namespace Invocation

/-- What some words are that may only be inputs. -/
def parseInputs (g : Given) : List String → Invocation
  | [] => g.finish
  | word :: words =>
    match g.addInput word with
    | some g => parseInputs g words
    | none => misuse

/-- What some words are, after some values have been given. -/
def parseFrom (g : Given) : List String → Invocation
  | [] => g.finish
  | word :: words =>
    match Word.of word with
    | .endOfOptions => parseInputs g words
    | .version => version
    | .help => help
    | .unknown => misuse
    | .plain =>
      match g.addInput word with
      | some g => parseFrom g words
      | none => misuse
    | .option name (some value) =>
      match g.set name value with
      | some g => parseFrom g words
      | none => misuse
    | .option name none =>
      match words with
      | [] => misuse
      | value :: words =>
        if name.takesHyphens || Word.of value = .plain then
          match g.set name value with
          | some g => parseFrom g words
          | none => misuse
        else misuse

/-- What a list of words is. -/
def parse (words : List String) : Invocation :=
  parseFrom {} words

end Invocation

end Hermetic.CommandLine
