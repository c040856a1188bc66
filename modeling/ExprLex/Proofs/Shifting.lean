/-
  ExprLex.Proofs.Shifting — a text is read alike wherever it stands.

  A text that falls into lexemes does so behind any other text; only its places count on from that
  text. `Token.shift` and `LexError.shift` say by how much: every byte and row by the bytes and rows
  in front, a column by the characters in front on the same row, so on the first row alone
  (`length_lastLine_append`). So the tokens and the failure behind `before` are those of the text
  itself, shifted (`tokensBehind_append`, `failure_append`), and a run over what a token leaves to
  read finds the rest of the run (`restart_behind_token`).
-/

import ExprLex.Proofs.Lexing
import Mathlib.Control.Monad.Basic

namespace ExprLex

variable {settings : LexerSettings} {source : String} {before text : List Char}
  {lexemes : List Lexeme} {ending : Ending}

/-! ## Shifting -/

/-- The column of a place at `row` and `col` of a text that begins `cols` characters into a row. -/
def colBehind (cols row col : Nat) : Nat := if row = 0 then cols + col else col

@[simp] theorem colBehind_zero (row col : Nat) : colBehind 0 row col = col := by simp [colBehind]

theorem length_lastLine_behind (before line : List Char) : (lastLine (before ++ line)).length =
    colBehind (lastLine before).length (line.count '\n') (lastLine line).length :=
  length_lastLine_append before line

/-- The token where its text begins at byte `bytes` of another, in row `rows` and column `cols`. -/
def Token.shift (bytes rows cols : Nat) (t : Token) : Token where
  kind := t.kind
  category := t.category
  text := t.text
  row := rows + t.row
  col := colBehind cols t.row t.col
  span := ⟨bytes + t.span.start, bytes + t.span.stop, rows + t.span.line,
    colBehind cols t.span.line t.span.column⟩

theorem colBehind_injective (cols row : Nat) : Function.Injective (colBehind cols row) := by
  intro col col' h
  unfold colBehind at h
  split at h
  · exact Nat.add_left_cancel h
  · exact h

theorem Token.shift_injective (bytes rows cols : Nat) :
    Function.Injective (Token.shift bytes rows cols) := by
  rintro ⟨kind, category, text, row, col, ⟨start, stop, line, column⟩⟩
    ⟨kind', category', text', row', col', ⟨start', stop', line', column'⟩⟩ h
  simp only [shift, Token.mk.injEq, Span.mk.injEq] at h
  obtain ⟨rfl, rfl, rfl, hrow, hcol, hstart, hstop, hline, hcolumn⟩ := h
  obtain rfl := Nat.add_left_cancel hrow
  obtain rfl := Nat.add_left_cancel hline
  obtain rfl := Nat.add_left_cancel hstart
  obtain rfl := Nat.add_left_cancel hstop
  obtain rfl := colBehind_injective cols row hcol
  obtain rfl := colBehind_injective cols line hcolumn
  rfl

/-- The failure where its text begins in row `rows` and column `cols` of `source`. -/
def LexError.shift (rows cols : Nat) (source : String) : LexError → LexError
  | .unterminatedString row col _ =>
    .unterminatedString (rows + row) (colBehind cols row col) source
  | .unrecognizedCharacter row col character _ =>
    .unrecognizedCharacter (rows + row) (colBehind cols row col) character source

theorem Lexeme.token_append (before earlier : List Char) (l : Lexeme) :
    l.token (before ++ earlier) =
      (l.token earlier).shift (byteLength before) (before.count '\n') (lastLine before).length := by
  simp only [Lexeme.token, Token.shift, List.append_assoc, byteLength_append, List.count_append,
    length_lastLine_behind]

theorem tokensBehind_append (before earlier : List Char) (lexemes : List Lexeme) :
    tokensBehind (before ++ earlier) lexemes = (tokensBehind earlier lexemes).map
      (Token.shift (byteLength before) (before.count '\n') (lastLine before).length) := by
  induction lexemes generalizing earlier with
  | nil => rfl
  | cons l lexemes ih =>
    simp only [tokensBehind, List.map_cons, Lexeme.token_append, List.append_assoc, ih]

theorem Ending.failure_append (source source' : String) (before earlier : List Char)
    (ending : Ending) : ending.failure source (before ++ earlier) =
      (ending.failure source' earlier).map
        (LexError.shift (before.count '\n') (lastLine before).length source) := by
  cases ending with
  | complete => rfl
  | unterminated ahead =>
    simp only [failure, unterminatedBehind, Option.map_some, LexError.shift, List.append_assoc,
      List.count_append, length_lastLine_behind]
  | unrecognized ahead character =>
    simp only [failure, Option.map_some, LexError.shift, List.append_assoc, List.count_append,
      length_lastLine_behind]

/-- What a text comes to behind another is what it comes to by itself, shifted. -/
theorem Finds.shift {source' : String} {tokens : List Token} {failure : Option LexError}
    (source : String) (before : List Char) (h : Finds settings source' [] text tokens failure) :
    Finds settings source before text
      (tokens.map (Token.shift (byteLength before) (before.count '\n') (lastLine before).length))
      (failure.map (LexError.shift (before.count '\n') (lastLine before).length source)) := by
  obtain ⟨lexemes, ending, hl, rfl, rfl⟩ := h
  refine ⟨lexemes, ending, hl, ?_, (Ending.failure_append source source' before _ ending).symm⟩
  rw [← tokensBehind_append, List.append_nil]

/-! ## Behind a token -/

/-- Behind each of its tokens a text falls into the lexemes that are left. -/
theorem exists_lexing_behind {earlier later : List Token} {t : Token}
    (h : Lexing settings text lexemes ending)
    (ht : tokensBehind before lexemes = earlier ++ t :: later) :
    ∃ read rest lexemes', before ++ text = read ++ rest ∧ byteLength read = t.span.stop ∧
      Lexing settings rest lexemes' ending ∧ later = tokensBehind read lexemes' ∧
      before ++ lexemes.flatMap Lexeme.whole = read ++ lexemes'.flatMap Lexeme.whole := by
  induction h generalizing before earlier with
  | complete hg => simp [tokensBehind] at ht
  | unrecognized hg hd hnone => simp [tokensBehind] at ht
  | unterminated hg hs hk hv => simp [tokensBehind] at ht
  | @lexeme gap slice more t' k lexemes ending hg hs hk hv hrest ih =>
    cases earlier with
    | nil =>
      obtain ⟨rfl, rfl⟩ := List.cons.inj ht
      refine ⟨before ++ (gap ++ slice), more, lexemes, by simp, ?_, hrest, rfl, ?_⟩
      · simp [Lexeme.token]
      · simp [Lexeme.whole]
    | cons t₀ earlier =>
      obtain ⟨-, hbehind⟩ := List.cons.inj ht
      obtain ⟨read, rest, lexemes', hcut, hstop, hl, hlater, hwhole⟩ := ih hbehind
      refine ⟨read, rest, lexemes', ?_, hstop, hl, hlater, ?_⟩
      · rw [← hcut]
        simp [Lexeme.whole]
      · rw [← hwhole]
        simp

/-- What a token leaves to read is read like a source of its own: the rest of the run, from the
token's end on. -/
theorem restart_behind_token (settings : LexerSettings) (hshort : source.length < counterBound) :
    ∃ run, runSource source settings = .ok run ∧
      ∀ earlier t later, run.tokens = earlier ++ t :: later →
        ∃ read rest row col run', splitAtByte source.toList t.span.stop = some (read, rest) ∧
          positionAt source.toList t.span.stop = some (row, col) ∧
          runSource (String.ofList rest) settings = .ok run' ∧
          later = run'.tokens.map (Token.shift t.span.stop row col) ∧
          run.failure = run'.failure.map (LexError.shift row col source) := by
  obtain ⟨lexemes, ending, hl⟩ := exists_lexing settings source.toList
  obtain ⟨events, hrun⟩ := runSource_settles hl
  refine ⟨_, hrun.ok_of_short hshort, fun earlier t later ht => ?_⟩
  obtain ⟨read, rest, lexemes', hcut, hstop, hl', rfl, hwhole⟩ := exists_lexing_behind hl ht
  rw [List.nil_append] at hcut hwhole
  have hlen : (String.ofList rest).length < counterBound := by
    have hsum := congrArg List.length hcut
    rw [String.length_toList, List.length_append] at hsum
    rw [String.length_ofList]
    omega
  rw [← String.toList_ofList (l := rest)] at hl'
  obtain ⟨events', hrun'⟩ := runSource_settles hl'
  refine ⟨read, rest, _, _, _, splitAtByte_eq_some_iff.2 ⟨hcut, hstop⟩,
    hstop ▸ positionAt_byteLength hcut, hrun'.ok_of_short hlen, ?_, ?_⟩
  · rw [← hstop, ← tokensBehind_append, List.append_nil]
  · simp only [hwhole]
    exact Ending.failure_append source _ read _ ending

/-- A string over two lines leaves a comparison in its last row to read, and an open literal. -/
theorem restart_behind_token_two_lines : "\"é\n\"<=\n\"".length < counterBound ∧
    ∃ run run', runSource "\"é\n\"<=\n\"" = .ok run ∧
      run.tokens = [⟨.string, .value, "é\n", 0, 0, ⟨0, 5, 0, 0⟩⟩,
        ⟨.lessThanOrEqual, .operator, "<=", 1, 1, ⟨5, 7, 1, 1⟩⟩] ∧
      run.failure = some (.unterminatedString 2 0 "\"é\n\"<=\n\"") ∧
      runSource (String.ofList ['<', '=', '\n', '"']) = .ok run' ∧
      [⟨.lessThanOrEqual, .operator, "<=", 1, 1, ⟨5, 7, 1, 1⟩⟩] =
        run'.tokens.map (Token.shift 5 1 1) ∧
      run.failure = run'.failure.map (LexError.shift 1 1 "\"é\n\"<=\n\"") := by
  have hshort : "\"é\n\"<=\n\"".length < counterBound := by decide
  have hends : (runSource "\"é\n\"<=\n\"").map (fun run => (run.tokens, run.failure)) =
      .ok ([⟨.string, .value, "é\n", 0, 0, ⟨0, 5, 0, 0⟩⟩,
        ⟨.lessThanOrEqual, .operator, "<=", 1, 1, ⟨5, 7, 1, 1⟩⟩],
        some (.unterminatedString 2 0 "\"é\n\"<=\n\"")) := by
    decide +kernel
  have hsplit : splitAtByte "\"é\n\"<=\n\"".toList 5 =
      some (['"', 'é', '\n', '"'], ['<', '=', '\n', '"']) := by
    decide +kernel
  have hat : positionAt "\"é\n\"<=\n\"".toList 5 = some (1, 1) := by decide +kernel
  obtain ⟨run, hrun, hbehind⟩ := restart_behind_token {} hshort
  rw [hrun] at hends
  obtain ⟨htokens, hfailure⟩ := Prod.mk.inj (Except.ok.inj hends)
  obtain ⟨read, rest, row, col, run', hread, hplace, hrun', hlater, hends'⟩ :=
    hbehind [] _ _ htokens
  obtain ⟨rfl, rfl⟩ := Prod.mk.inj (Option.some.inj (hread.symm.trans hsplit))
  obtain ⟨rfl, rfl⟩ := Prod.mk.inj (Option.some.inj (hplace.symm.trans hat))
  exact ⟨hshort, run, run', hrun, htokens, hfailure, hrun', hlater, hends'⟩

end ExprLex
