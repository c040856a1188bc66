/-
  ExprLex.Proofs.Locating — what a run reports stands where the report says.

  A position is a byte of the source, and `positionAt` finds its row and column by counting over the
  whole text in front of it. Every token has the row and the column of the byte at which its span
  begins (`located_of_lexing`). A failure has those of a character of the source, and `Fails` says of
  which one: the first that separates no tokens behind the last token, or the quote of a literal that
  is never closed, with nothing between that first character and the quote but one number.
-/

import ExprLex.Proofs.Lexing
import Mathlib.Control.Monad.Basic

namespace ExprLex

variable {settings : LexerSettings} {source : String} {before text : List Char}
  {lexemes : List Lexeme} {ending : Ending}

/-! ## Tokens -/

/-- The token's row and column are those of the byte at which its span begins. -/
structure Located (source : String) (t : Token) : Prop where
  start : positionAt source.toList t.span.start = some (t.row, t.col)
  line : t.span.line = t.row
  column : t.span.column = t.col

theorem located_of_lexing (h : Lexing settings text lexemes ending)
    (hs : source.toList = before ++ text) : ∀ t ∈ tokensBehind before lexemes, Located source t := by
  intro t ht
  obtain ⟨earlier, l, more, rfl, hcut, -, -⟩ := exists_lexeme_of_mem h ht
  exact ⟨positionAt_byteLength (hs.trans hcut), rfl, rfl⟩

/-! ## The end of the last token -/

/-- The byte at which the last of the tokens ends, or `start` where there is none. -/
def lastStop (start : Nat) (tokens : List Token) : Nat :=
  (tokens.getLast?.map fun t => t.span.stop).getD start

theorem lastStop_cons (start : Nat) (t : Token) (tokens : List Token) :
    lastStop start (t :: tokens) = lastStop t.span.stop tokens := by
  unfold lastStop
  rw [List.getLast?_cons]
  cases tokens.getLast? <;> rfl

theorem lastStop_tokensBehind (before : List Char) (lexemes : List Lexeme) :
    lastStop (byteLength before) (tokensBehind before lexemes) =
      byteLength (before ++ lexemes.flatMap Lexeme.whole) := by
  induction lexemes generalizing before with
  | nil => simp [tokensBehind, lastStop]
  | cons l lexemes ih =>
    have hstop : (l.token before).span.stop = byteLength (before ++ l.whole) := by
      simp [Lexeme.token, Lexeme.whole]
    rw [tokensBehind, lastStop_cons, hstop, ih]
    simp

/-! ## Failures -/

/-- How a run fails whose last token ends at byte `stop`. Behind that byte stand separators, `gap`,
and then a character that is none. -/
inductive Fails (settings : LexerSettings) (source : String) (stop : Nat) : LexError → Prop
  /-- Nothing begins with the character `d`. -/
  | unrecognized {read gap later : List Char} {d : Char} {row col : Nat}
    (hcut : source.toList = read ++ (gap ++ d :: later)) (hstop : byteLength read = stop)
    (hg : ∀ e ∈ gap, settings.isSeparator e = true) (hd : settings.isSeparator d = false)
    (hat : positionAt source.toList (byteLength (read ++ gap)) = some (row, col)) :
    Fails settings source stop (.unrecognizedCharacter row col d source)
  /-- A literal runs into the end of the source; at most a number stands in front of its quote. -/
  | unterminated {read gap number body : List Char} {row col : Nat}
    (hcut : source.toList = read ++ (gap ++ (number ++ '"' :: body)))
    (hstop : byteLength read = stop) (hg : ∀ e ∈ gap, settings.isSeparator e = true)
    (hd : StopsAt settings.isSeparator (number ++ '"' :: body))
    (hnumber : number = [] ∨ IsNumberSlice number) (hopen : Unclosed body)
    (hat : positionAt source.toList (byteLength (read ++ (gap ++ number))) = some (row, col)) :
    Fails settings source stop (.unterminatedString row col source)

theorem fails_of_lexing (h : Lexing settings text lexemes ending)
    (hs : source.toList = before ++ text) {e : LexError}
    (he : ending.failure source (before ++ lexemes.flatMap Lexeme.whole) = some e) :
    Fails settings source (byteLength (before ++ lexemes.flatMap Lexeme.whole)) e := by
  induction h generalizing before with
  | complete hg => cases he
  | unrecognized hg hd hnone =>
    simp only [List.flatMap_nil, List.append_nil] at he ⊢
    cases he
    exact .unrecognized hs rfl hg hd (positionAt_byteLength (by simpa using hs))
  | unterminated hg hstop hk hv =>
    simp only [List.flatMap_nil, List.append_nil] at he ⊢
    cases he
    obtain ⟨body, rfl, hopen, hnumber⟩ := open_of_verdict hv
    exact .unterminated hs rfl hg hstop hnumber hopen (positionAt_byteLength (by simpa using hs))
  | @lexeme gap slice more t k lexemes ending hg hstop hk hv rest ih =>
    have hs' : source.toList = (before ++ (gap ++ slice)) ++ more := by simpa using hs
    simpa [Lexeme.whole] using ih hs' (by simpa [Lexeme.whole] using he)

/-! ## Whole runs -/

/-- Every token of a run stands where it says, also in front of a failure, and so does the failure. -/
theorem run_positions_true (settings : LexerSettings) (hshort : source.length < counterBound) :
    ∃ run, runSource source settings = .ok run ∧ (∀ t ∈ run.tokens, Located source t) ∧
      ∀ e, run.failure = some e → Fails settings source (lastStop 0 run.tokens) e := by
  obtain ⟨lexemes, ending, hl⟩ := exists_lexing settings source.toList
  obtain ⟨events, hrun⟩ := runSource_settles hl
  have hs : source.toList = [] ++ source.toList := rfl
  refine ⟨_, hrun.ok_of_short hshort, located_of_lexing hl hs, fun e he => ?_⟩
  have hstop : lastStop 0 (tokensBehind [] lexemes) = _ := lastStop_tokensBehind [] lexemes
  rw [hstop]
  exact fails_of_lexing hl hs he

/-- A fraction in front of an open literal, with a character of two bytes in front of both. -/
theorem run_positions_true_open_literal : "éx\n .5\"".length < counterBound ∧
    ∃ run, runSource "éx\n .5\"" ⟨['é', ' ']⟩ = .ok run ∧
      run.tokens = [⟨.identifier, .value, "x", 0, 1, ⟨2, 3, 0, 1⟩⟩] ∧
      run.failure = some (.unterminatedString 1 3 "éx\n .5\"") ∧
      Fails ⟨['é', ' ']⟩ "éx\n .5\"" 3 (.unterminatedString 1 3 "éx\n .5\"") := by
  have hshort : "éx\n .5\"".length < counterBound := by decide
  have hends : (runSource "éx\n .5\"" ⟨['é', ' ']⟩).map (fun run => (run.tokens, run.failure)) =
      .ok ([⟨.identifier, .value, "x", 0, 1, ⟨2, 3, 0, 1⟩⟩],
        some (.unterminatedString 1 3 "éx\n .5\"")) := by
    decide +kernel
  obtain ⟨run, hrun, -, hfails⟩ := run_positions_true ⟨['é', ' ']⟩ hshort
  rw [hrun] at hends
  obtain ⟨htokens, hfailure⟩ := Prod.mk.inj (Except.ok.inj hends)
  have hstop : Fails _ _ (lastStop 0 run.tokens) _ := hfails _ hfailure
  rw [htokens] at hstop
  exact ⟨hshort, run, hrun, htokens, hfailure, hstop⟩

end ExprLex
