/-
  ExprLex.Log — what a run reports about itself.

  Every event has a level, a message and fields. A line shows the time, the level at the right end
  of five columns, the message, and each field as name and value. Paths, kinds and texts are shown
  as they are; the name of a command is quoted. A filter lets through the events up to its level.
-/

import ExprLex.Lexer

namespace ExprLex.Log

inductive Level where
  | error
  | warn
  | info
  | debug
  | trace
  deriving DecidableEq, Repr

namespace Level

def all : List Level := [error, warn, info, debug, trace]

def name : Level → String
  | error => "ERROR"
  | warn => "WARN"
  | info => "INFO"
  | debug => "DEBUG"
  | trace => "TRACE"

/-- How much a filter must let through to show the level. -/
def rank (level : Level) : Nat := all.idxOf level + 1

end Level

/-- Which events are shown: those whose rank is at most `rank`. -/
structure Filter where
  rank : Nat
  deriving DecidableEq, Repr

namespace Filter

def off : Filter := ⟨0⟩

def upTo (level : Level) : Filter := ⟨level.rank⟩

def shows (filter : Filter) (level : Level) : Bool := level.rank ≤ filter.rank

/-- The filter of a level by its name in any case, or by its number. -/
def ofLevelName? (text : String) : Option Filter :=
  if text.toUpper = "OFF" then some off
  else
    match Level.all.find? fun level => level.name = text.toUpper with
    | some level => some (upTo level)
    | none => ([0, 1, 2, 3, 4, 5].find? fun n => Text.decimal n = text).map fun n => ⟨n⟩

def isComponentName (text : List Char) : Bool :=
  !text.isEmpty && text.all fun c => c.isAlphanum || c = '_' || c = ':' || c = '-'

/-- The filter of a setting. An empty setting shows errors. A setting may also name other
components, alone or with a level, and then nothing of this program is shown. Any other text is
no filter. -/
def ofSetting? (text : String) : Option Filter :=
  if text.isEmpty then some (upTo .error)
  else
    match ofLevelName? text with
    | some filter => some filter
    | none =>
      let name := text.toList.takeWhile (· ≠ '=')
      match text.toList.dropWhile (· ≠ '=') with
      | [] => if isComponentName name then some off else none
      | _ :: level =>
        if isComponentName name && (ofLevelName? (String.ofList level)).isSome then some off
        else none

end Filter

inductive Event where
  | loadingConfiguration (path : String)
  | executing (command : String)
  | readingSource (path : String)
  | lexing (event : LexEvent)
  | lexingFinished (tokens bytes : Nat)
  | lexingFailed (error : LexError)
  | tokenizedInput (tokens : Nat)
  deriving DecidableEq, Repr

namespace Event

def level : Event → Level
  | lexing _ => .trace
  | tokenizedInput _ => .info
  | _ => .debug

def message : Event → String
  | loadingConfiguration _ => "loading configuration"
  | executing _ => "executing"
  | readingSource _ => "reading source file"
  | lexing (.lookahead (.accepted ..)) => "lookahead accepted"
  | lexing (.lookahead (.rejected ..)) => "lookahead rejected"
  | lexing (.token _) => "token"
  | lexingFinished .. => "lexing finished"
  | lexingFailed _ => "lexing failed"
  | tokenizedInput _ => "tokenized input"

def placeFields (row col : Nat) : List (String × String) :=
  [("row", Text.decimal row), ("col", Text.decimal col)]

def fields : Event → List (String × String)
  | loadingConfiguration path => [("path", path)]
  | executing command => [("command", Text.quoted command)]
  | readingSource path => [("path", path)]
  | lexing (.lookahead (.accepted kind row col)) => ("kind", kind.name) :: placeFields row col
  | lexing (.lookahead (.rejected row col)) => placeFields row col
  | lexing (.token t) =>
    ("kind", t.kind.name) :: placeFields t.row t.col ++ [("text", t.text)]
  | lexingFinished tokens bytes =>
    [("tokens", Text.decimal tokens), ("bytes", Text.decimal bytes)]
  | lexingFailed error =>
    [("error", match error.message with
      | .ok message => message
      | .error fault => fault.message)]
  | tokenizedInput tokens => [("tokens", Text.decimal tokens)]

def line (time : String) (e : Event) : String :=
  time ++ " " ++ Text.alignRight ' ' 5 e.level.name ++ " " ++ e.message
    ++ String.join (e.fields.map fun (name, value) => " " ++ name ++ "=" ++ value) ++ "\n"

end Event

end ExprLex.Log
