/-
  ExprLex.Lexer — from a source text to tokens.

  A lexer skips separators and then tries the kinds of token one after the other; the first that
  matches is the next token. A literal that is never closed ends the run, and so does a place
  where no kind matches. `nextToken` may be asked again after the end or a failure and then
  answers the same again; `next` stops for good. A run collects the tokens up to that stop.
-/

import ExprLex.Catalog
import ExprLex.Token

namespace ExprLex

inductive LexEvent where
  | lookahead (verdict : Lookahead)
  | token (token : Token)
  deriving DecidableEq, Repr

inductive Found where
  | token (token : Token)
  | endOfInput
  | failed (error : LexError)
  deriving DecidableEq, Repr

/-- A find and what was reported on the way to it. -/
structure Advance where
  found : Found
  events : List LexEvent := []
  deriving DecidableEq, Repr

/-- How trying kinds one after the other ends. -/
inductive Choice where
  | kind (kind : Kind) (text : String)
  | none
  | failed (error : LexError)
  deriving DecidableEq, Repr

namespace Scan

def skipSeparators : Scan Unit := do
  let settings := (← get).settings
  let _ ← readWhile settings.isSeparator

/-- The first of the kinds that matches or fails, with the lookaheads of all kinds tried. -/
def firstMatch : List Kind → Scan (Choice × List Lookahead)
  | [] => return (.none, [])
  | kind :: more => do
    let reading ← kind.recognize
    match reading.outcome with
    | .matched text => return (.kind kind text, reading.lookaheads)
    | .failed error => return (.failed error, reading.lookaheads)
    | .mismatch =>
      let (choice, later) ← firstMatch more
      return (choice, reading.lookaheads ++ later)

def nextTokenBy (order : List Kind) : Scan Advance := do
  skipSeparators
  let start ← get
  match ← peek with
  | none => return ⟨.endOfInput, []⟩
  | some character =>
    let row := start.place.row
    let col := start.place.col
    let (choice, seen) ← firstMatch order
    let events := seen.map LexEvent.lookahead
    match choice with
    | .kind kind text =>
      let span : Span := ⟨start.place.offset, (← get).place.offset, row, col⟩
      let token : Token := ⟨kind, kind.category, text, row, col, span⟩
      return ⟨.token token, events ++ [.token token]⟩
    | .failed error => return ⟨.failed error, events⟩
    | .none => return ⟨.failed (.unrecognizedCharacter row col character start.source), events⟩

def nextToken : Scan Advance := nextTokenBy Kind.trialOrder

end Scan

structure Lexer where
  cursor : Cursor
  finished : Bool := false
  deriving DecidableEq, Repr

structure Run where
  tokens : List Token := []
  failure : Option LexError := none
  events : List LexEvent := []
  deriving DecidableEq, Repr

namespace Lexer

def ofSource (source : String) (settings : LexerSettings := {}) : Lexer :=
  { cursor := .ofSource source settings }

def nextToken (l : Lexer) : Except Fault (Advance × Lexer) := do
  let (advance, cursor) ← Scan.nextToken l.cursor
  return (advance, { l with cursor })

/-- The next token of the iteration, which the end of the input and a failure stop for good. -/
def next (l : Lexer) : Except Fault (Advance × Lexer) :=
  if l.finished then return (⟨.endOfInput, []⟩, l)
  else do
    let (advance, l) ← l.nextToken
    match advance.found with
    | .token _ => return (advance, l)
    | _ => return (advance, { l with finished := true })

/-- Iterates at most `budget` times, in front of what was found before, newest first. -/
def collect : Nat → List Token → List LexEvent → Lexer → Except Fault (Run × Lexer)
  | 0, tokens, events, l => return (⟨tokens.reverse, none, events.reverse⟩, l)
  | budget + 1, tokens, events, l => do
    let (advance, l) ← l.next
    let events := advance.events.reverse ++ events
    match advance.found with
    | .token token => collect budget (token :: tokens) events l
    | .endOfInput => return (⟨tokens.reverse, none, events.reverse⟩, l)
    | .failed error => return (⟨tokens.reverse, some error, events.reverse⟩, l)

/-- Iterates to the end. A token takes at least one character, so there are no more steps than
characters left and one for the end. -/
def rest (l : Lexer) : Except Fault (Run × Lexer) :=
  collect (l.cursor.place.rest.length + 1) [] [] l

end Lexer

def runSource (source : String) (settings : LexerSettings := {}) : Except Fault Run := do
  let (run, _) ← (Lexer.ofSource source settings).rest
  return run

def tokenize (source : String) (settings : LexerSettings := {}) :
    Except Fault (Except LexError (List Token)) := do
  let run ← runSource source settings
  match run.failure with
  | none => return .ok run.tokens
  | some error => return .error error

end ExprLex
