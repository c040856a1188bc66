/-
  ExprLex.Proofs.Pointing — the caret of a failure's diagnostic stands under its character.

  A failure names the place of a character of the source: the one that no token starts with, or
  the quote of a literal that is never closed (`LexError.offender`). Its line and column are therefore
  found in the split text (`Offends.getElem?_lines`), and there is a snippet for every failure.

  The snippet drops the carriage returns at the end of the line, and the character may be one of
  them. It is then the first: the text in front of it ends in a separator or in a token, a return
  that ends a run separates nothing, and of the tokens only a comment ends in a return, behind which
  the line ends. So the caret stands under the character or right behind the line that is shown.
-/

import ExprLex.Proofs.Drawing
import ExprLex.Proofs.Safety
import Mathlib.Control.Monad.Basic

namespace ExprLex

variable {settings : LexerSettings} {source : String} {before text slice more t : List Char}
  {lexemes : List Lexeme} {ending : Ending} {k : Kind} {e : LexError}

/-- The character that a failure is about. -/
def LexError.offender : LexError → Char
  | .unterminatedString .. => '"'
  | .unrecognizedCharacter _ _ character _ => character

@[simp] theorem LexError.offender_unterminated (row col : Nat) (source : String) :
    (LexError.unterminatedString row col source).offender = '"' := rfl

@[simp] theorem LexError.offender_unrecognized (row col : Nat) (c : Char) (source : String) :
    (LexError.unrecognizedCharacter row col c source).offender = c := rfl

/-! ## The character of a failure -/

/-- Of the tokens, only a comment can end in a carriage return. -/
theorem getLast?_ne_return_of_shapes (h : k.rule.Shapes slice t) (hk : k.rule ≠ .comment) :
    slice.getLast? ≠ some '\r' := by
  intro hlast
  have hmem : '\r' ∈ slice := List.mem_of_getLast? hlast
  cases hr : k.rule with
  | spelling word notBefore =>
    rw [hr] at h
    have hword : (word.toList.map Char.toLower).getLast? = some '\r' := by
      rw [← h.1, List.getLast?_map, hlast]
      rfl
    clear h hmem hlast hk
    cases k <;> cases hr <;> exact absurd hword (by decide)
  | identifier =>
    rw [hr] at h
    obtain ⟨-, d, word, rfl, hd, hword⟩ := h
    rcases List.mem_cons.1 hmem with rfl | hmem
    · cases hd
    · cases hword _ hmem
  | long =>
    rw [hr] at h
    cases h.2.2 _ hmem
  | double =>
    rw [hr] at h
    obtain ⟨whole, part, rfl, -, hwhole, hne, hpart⟩ := h
    rcases (isNumberSlice_of_fraction hne hpart hwhole).digits _ hmem with hd | hd
    · cases hd
    · cases hd
  | string =>
    rw [hr] at h
    obtain ⟨read, rfl, hbody⟩ := h
    rw [List.getLast?_cons, Verdict.getLast?_of_isBody hbody] at hlast
    cases hlast
  | comment => exact hk hr

/-- The failure is about the character between `ahead` and `later`. -/
structure Offends (source : String) (e : LexError) (ahead later : List Char) : Prop where
  cut : source.toList = ahead ++ e.offender :: later
  source_eq : e.source = source
  row_eq : e.row = ahead.count '\n'
  col_eq : e.col = (lastLine ahead).length
  not_break : e.offender ≠ '\n'
  /-- A carriage return is the first of its run. -/
  first : e.offender = '\r' → ahead.getLast? ≠ some '\r'

/-- What is between tokens is in front of a failure, or a token that does not end in a return. -/
theorem exists_offends (h : Lexing settings text lexemes ending) (hs : source.toList = before ++ text)
    (he : ending.failure source (before ++ lexemes.flatMap Lexeme.whole) = some e)
    (hbefore : before.getLast? ≠ some '\r' ∨ StopsAt (· ≠ '\n') text) :
    ∃ ahead later, Offends source e ahead later := by
  induction h generalizing before with
  | complete hg => cases he
  | @unrecognized gap d later hg hd hnone =>
    simp only [List.flatMap_nil, List.append_nil] at he
    cases he
    refine ⟨before ++ gap, later, by simpa using hs, rfl, rfl, rfl, ?_, ?_⟩
    · rintro rfl
      simp [LexerSettings.isSeparator] at hd
    · rintro rfl
      rcases List.eq_nil_or_concat gap with rfl | ⟨gap, g, rfl⟩
      · rw [List.append_nil]
        refine hbefore.resolve_right fun hstop => ?_
        cases stopsAt_cons.1 hstop
      · intro hlast
        obtain rfl : g = '\r' := by simpa using hlast
        rw [hg '\r' (by simp)] at hd
        cases hd
  | unterminated hg hstop hk hv =>
    simp only [List.flatMap_nil, List.append_nil] at he
    cases he
    obtain ⟨body, rfl, -⟩ := open_of_verdict hv
    rw [unterminatedBehind]
    exact ⟨_, body, by simpa using hs, rfl, rfl, rfl, by simp, by simp⟩
  | @lexeme gap slice more t k lexemes ending hg hstop hk hv rest ih =>
    have hs' : source.toList = (before ++ (gap ++ slice)) ++ more := by simpa using hs
    refine ih hs' (by simpa [Lexeme.whole] using he) ?_
    obtain ⟨-, hshape, hallows⟩ := verdict_eq_matched_iff.1 hv
    by_cases hc : k.rule = .comment
    · rw [hc] at hallows
      exact .inr hallows
    · left
      have hlast := getLast?_ne_return_of_shapes hshape hc
      obtain ⟨slice', d, rfl⟩ := List.eq_nil_or_concat slice |>.resolve_left (ne_nil_of_shapes hshape)
      simpa using hlast

theorem exists_offends_of_error (h : tokenize source settings = .ok (.error e)) :
    ∃ ahead later, Offends source e ahead later := by
  obtain ⟨lexemes, ending, hl, he⟩ := exists_lexing_of_error h
  have hs : source.toList = [] ++ source.toList := rfl
  exact exists_offends hl hs he (.inl (by simp))

namespace Offends

variable {ahead later : List Char} (h : Offends source e ahead later)
include h

theorem inFront : InFront source e.row e.col := ⟨ahead, e.offender, later, h.cut, h.row_eq, h.col_eq⟩

theorem getLast?_lastLine (hr : e.offender = '\r') : (lastLine ahead).getLast? ≠ some '\r' := by
  intro hlast
  apply h.first hr
  rcases eq_lastLine_or ahead with hcut | ⟨earlier, hcut⟩
  · rw [hcut, hlast]
  · rw [hcut, List.getLast?_append, List.getLast?_cons, hlast]
    rfl

/-- The line that the failure names in the split text has the character in the column that it names,
and shows it there unless it is the first of the returns that are dropped. -/
theorem exists_line : ∃ full, (Diagnostic.Snippet.lines source)[e.row]? = some full ∧ OneLine full ∧
    full[e.col]? = some e.offender ∧
    ((Diagnostic.Snippet.trimReturns full)[e.col]? = some e.offender ∨
      e.offender = '\r' ∧ (Diagnostic.Snippet.trimReturns full).length = e.col) := by
  refine ⟨lastLine ahead ++ e.offender :: later.takeWhile (· ≠ '\n'), ?_, ?_, ?_, ?_⟩
  · have hrest : (e.offender :: later).takeWhile (· ≠ '\n') =
        e.offender :: later.takeWhile (· ≠ '\n') := by
      simp [h.not_break]
    rw [Diagnostic.Snippet.lines, h.cut, h.row_eq, getElem?_splitOn_behind, hrest]
  · exact (OneLine.lastLine ahead).append (.cons h.not_break (.takeWhile later))
  · simp [h.col_eq]
  · rw [h.col_eq]
    rcases Diagnostic.Snippet.shown_or_dropped h.getLast?_lastLine (later.takeWhile (· ≠ '\n'))
      with hshown | ⟨hreturn, hdropped⟩
    · exact .inl hshown
    · exact .inr ⟨hreturn, by rw [hdropped]⟩

end Offends

/-! ## The diagnostic of a failure -/

namespace LexError

open Diagnostic

/-- The snippet of a failure on a line. -/
def snippet (e : LexError) (line : List Char) : Snippet :=
  ⟨String.ofList (Snippet.trimReturns line), e.row + 1, e.col + 1, e.col + 1, some e.label⟩

/-- The first line of a failure's diagnostic. -/
def title (e : LexError) : List Char := ("error[" ++ e.code.text ++ "]: " ++ e.summary).toList

/-- The place of a failure as its diagnostic gives it, counted from one. -/
def arrow (e : LexError) : List Char :=
  (" --> " ++ Text.decimal (e.row + 1) ++ ":" ++ Text.decimal (e.col + 1)).toList

/-- The last line of a failure's diagnostic. -/
def advice (e : LexError) : List Char := ("  = help: " ++ e.help).toList

variable {line : List Char}

theorem toDiagnostic_of_snippet
    (h : Snippet.ofSource e.source (e.row + 1) (e.col + 1) =
      .ok (.point (String.ofList (Snippet.trimReturns line)) (e.row + 1) (e.col + 1))) :
    e.toDiagnostic = { level := .error, message := e.summary, span := .point e.row e.col, code := some e.code,
                       helps := [e.help], snippets := [e.snippet line] } := by
  rw [toDiagnostic, h]
  rfl

theorem oneLine_code (e : LexError) : OneLine e.code.text.toList := by
  cases e with
  | unterminatedString row col source =>
    rw [code]
    decide +kernel
  | unrecognizedCharacter row col character source =>
    rw [code]
    decide +kernel

theorem oneLine_summary (e : LexError) : OneLine e.summary.toList := by
  cases e with
  | unterminatedString row col source =>
    show OneLine "unterminated string literal".toList
    decide +kernel
  | unrecognizedCharacter row col character source =>
    show OneLine ("no token matches the input starting with `" ++ Text.plainEscape character ++ "`").toList
    rw [String.toList_append, String.toList_append]
    exact (OneLine.append (by decide +kernel) (.plainEscape character)).append (by decide)

theorem oneLine_label (e : LexError) : OneLine e.label.toList := by
  cases e with
  | unterminatedString row col source =>
    rw [label]
    decide +kernel
  | unrecognizedCharacter row col character source =>
    rw [label]
    decide +kernel

theorem oneLine_help (e : LexError) : OneLine e.help.toList := by
  cases e with
  | unterminatedString row col source =>
    rw [help]
    decide +kernel
  | unrecognizedCharacter row col character source =>
    rw [help]
    decide +kernel

theorem oneLine_title (e : LexError) : OneLine e.title := by
  simp only [title, String.toList_append]
  exact ((OneLine.append (by decide) e.oneLine_code).append (by decide)).append e.oneLine_summary

theorem oneLine_arrow (e : LexError) : OneLine e.arrow := by
  simp only [arrow, String.toList_append]
  exact ((OneLine.append (by decide) (.decimal _)).append (by decide)).append (.decimal _)

theorem oneLine_advice (e : LexError) : OneLine e.advice := by
  simp only [advice, String.toList_append]
  exact OneLine.append (by decide) e.oneLine_help

theorem oneLine_sourceLine (h : OneLine line) : OneLine (e.snippet line).sourceLine := by
  refine Snippet.oneLine_sourceLine ?_
  rw [snippet, String.toList_ofList]
  exact Snippet.oneLine_trimReturns h

theorem oneLine_caretLine (e : LexError) (line : List Char) : OneLine (e.snippet line).caretLine := by
  refine Snippet.oneLine_caretLine ?_
  rw [Snippet.mark_point rfl rfl]
  exact .cons (by decide) (.cons (by decide) e.oneLine_label)

/-- The rendered diagnostic of a failure, line by line. -/
theorem render_lines (hshort : source.length < counterBound) (hin : InFront source e.row e.col)
    (hline : OneLine line)
    (h : Snippet.ofSource e.source (e.row + 1) (e.col + 1) =
      .ok (.point (String.ofList (Snippet.trimReturns line)) (e.row + 1) (e.col + 1))) :
    ∃ text, e.toDiagnostic.render = .ok text ∧ Snippet.lines text =
      [e.title, e.arrow, (e.snippet line).sourceLine, (e.snippet line).caretLine, e.advice, []] := by
  have hplace := position_of_inFront hshort hin
  have hrender : e.toDiagnostic.render = .ok (String.ofList (e.title ++ '\n' :: (e.arrow ++ '\n' ::
      ((e.snippet line).sourceLine ++ '\n' :: ((e.snippet line).caretLine ++ '\n' ::
        (e.advice ++ '\n' :: [])))))) := by
    rw [toDiagnostic_of_snippet h]
    unfold render
    dsimp only [Span.point]
    rw [hplace]
    refine congrArg Except.ok (String.toList_injective ?_)
    simp [header, title, arrow, advice, Snippet.toList_format, Level.name, String.join]
  refine ⟨_, hrender, ?_⟩
  rw [Snippet.lines, String.toList_ofList, splitOn_cons_line e.oneLine_title,
    splitOn_cons_line e.oneLine_arrow, splitOn_cons_line (oneLine_sourceLine hline),
    splitOn_cons_line (e.oneLine_caretLine line), splitOn_cons_line e.oneLine_advice]
  rfl

/-- In the caret line the first caret stands behind the margin and the padding. -/
theorem caret_of_caretLine (e : LexError) (line : List Char) :
    (e.snippet line).caretLine[((e.snippet line).margin "").length + e.col]? = some '^' ∧
      '^' ∉ (e.snippet line).caretLine.take (((e.snippet line).margin "").length + e.col) := by
  have hlen : ((e.snippet line).margin "" ++
      Snippet.padding (e.snippet line).line.toList e.col).length =
        ((e.snippet line).margin "").length + e.col := by
    rw [List.length_append, Snippet.length_padding]
  have hline : (e.snippet line).caretLine = ((e.snippet line).margin "" ++
      Snippet.padding (e.snippet line).line.toList e.col) ++ '^' :: ' ' :: e.label.toList := by
    rw [Snippet.caretLine, Snippet.mark_point rfl rfl]
    rfl
  rw [hline, ← hlen]
  constructor
  · simp
  · rw [List.take_left]
    intro hmem
    rcases Snippet.mem_indent hmem with hmem | hmem | hmem
    · cases hmem
    · cases hmem
    · cases hmem

/-- The source line shows a character of the line behind its margin. -/
theorem sourceLine_at (e : LexError) {d : Char}
    (h : (Snippet.trimReturns line)[e.col]? = some d ∨
      d = '\r' ∧ (Snippet.trimReturns line).length = e.col) :
    (e.snippet line).sourceLine[((e.snippet line).margin "").length + e.col]? = some d ∨
      d = '\r' ∧
        (e.snippet line).sourceLine.length = ((e.snippet line).margin "").length + e.col := by
  have hsource : (e.snippet line).sourceLine =
      (e.snippet line).margin (Text.decimal (e.row + 1)) ++ Snippet.trimReturns line := by
    simp [Snippet.sourceLine, snippet]
  have hmargin : ((e.snippet line).margin (Text.decimal (e.row + 1))).length =
      ((e.snippet line).margin "").length := (e.snippet line).length_margin_eq
  rw [hsource, ← hmargin]
  rcases h with hshown | ⟨hreturn, hdropped⟩
  · left
    rw [List.getElem?_append_right (Nat.le_add_right _ _), Nat.add_sub_cancel_left, hshown]
  · right
    exact ⟨hreturn, by rw [List.length_append, hdropped]⟩

end LexError

/-- Every failure on a source of fewer characters than a counter has values has one snippet, on the
line and the column of the character that the failure is about. In the rendered diagnostic both drawn
lines have margins of the same width, and the caret stands under that character or, where it is one
of the carriage returns that are not shown, right behind the line. -/
theorem failure_caret_true (settings : LexerSettings) (hshort : source.length < counterBound)
    (h : tokenize source settings = .ok (.error e)) :
    ∃ full text width, (Diagnostic.Snippet.lines source)[e.row]? = some full ∧
      full[e.col]? = some e.offender ∧
      Diagnostic.Snippet.ofSource e.source (e.row + 1) (e.col + 1) =
        .ok (.point (String.ofList (Diagnostic.Snippet.trimReturns full)) (e.row + 1) (e.col + 1)) ∧
      e.toDiagnostic.snippets = [e.snippet full] ∧ e.toDiagnostic.render = .ok text ∧
      Diagnostic.Snippet.lines text = [e.title, e.arrow, (e.snippet full).sourceLine,
        (e.snippet full).caretLine, e.advice, []] ∧
      ((e.snippet full).margin (Text.decimal (e.row + 1))).length = width ∧
      ((e.snippet full).margin "").length = width ∧
      (e.snippet full).caretLine[width + e.col]? = some '^' ∧
      '^' ∉ (e.snippet full).caretLine.take (width + e.col) ∧
      ((e.snippet full).sourceLine[width + e.col]? = some e.offender ∨
        e.offender = '\r' ∧ (e.snippet full).sourceLine.length = width + e.col) := by
  obtain ⟨ahead, later, hoff⟩ := exists_offends_of_error h
  obtain ⟨full, hline, hbreak, hat, hshown⟩ := hoff.exists_line
  have hinside : e.col < full.length := (List.getElem?_eq_some_iff.1 hat).1
  have hsnippet := Diagnostic.Snippet.ofSource_of_getElem? hline (Nat.le_of_lt hinside)
  rw [← hoff.source_eq] at hsnippet
  obtain ⟨text, hrender, hlines⟩ := LexError.render_lines hshort hoff.inFront hbreak hsnippet
  obtain ⟨hcaret, hfirst⟩ := e.caret_of_caretLine full
  have hsnippets : e.toDiagnostic.snippets = [e.snippet full] := by
    rw [LexError.toDiagnostic_of_snippet hsnippet]
  exact ⟨full, text, _, hline, hat, hsnippet, hsnippets, hrender, hlines,
    (e.snippet full).length_margin_eq, rfl, hcaret, hfirst, e.sourceLine_at hshown⟩

/-- A carriage return that is not shown: the caret stands behind the line, under no character. -/
theorem failure_caret_true_return : "a\n\tb\r\r\nc".length < counterBound ∧
    tokenize "a\n\tb\r\r\nc" =
      .ok (.error (.unrecognizedCharacter 1 2 '\r' "a\n\tb\r\r\nc")) ∧
    ∃ text, (LexError.unrecognizedCharacter 1 2 '\r' "a\n\tb\r\r\nc").toDiagnostic.render = .ok text ∧
      (Diagnostic.Snippet.lines text)[1]? = some " --> 2:3".toList ∧
      (Diagnostic.Snippet.lines text)[2]? = some "  2 | \tb".toList ∧
      (Diagnostic.Snippet.lines text)[3]? = some "    | \t ^ no token starts here".toList := by
  have hshort : "a\n\tb\r\r\nc".length < counterBound := by decide
  have hfails : tokenize "a\n\tb\r\r\nc" =
      .ok (.error (.unrecognizedCharacter 1 2 '\r' "a\n\tb\r\r\nc")) := by
    decide +kernel
  have hsecond : (Diagnostic.Snippet.lines "a\n\tb\r\r\nc")[1]? = some ['\t', 'b', '\r', '\r'] := by
    decide +kernel
  obtain ⟨line, text, -, hline, -, -, -, hrender, hlines, -⟩ := failure_caret_true {} hshort hfails
  obtain rfl : line = ['\t', 'b', '\r', '\r'] := Option.some.inj (hline.symm.trans hsecond)
  refine ⟨hshort, hfails, text, hrender, ?_, ?_, ?_⟩
  · rw [hlines]
    decide +kernel
  · rw [hlines]
    decide +kernel
  · rw [hlines]
    decide +kernel

end ExprLex
