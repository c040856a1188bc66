/-
  ExprLex.Proofs.Safety — a source of fewer characters than a counter has values is read and shown
  without a fault.

  That a run does not fault is what it settles on a short source. What it finds, a token or a
  failure, stands in front of a character (`InFront`), so its row and column are smaller than the
  number of characters and one more is still a number: the table, the messages and the diagnostics
  count from one and never overflow.
-/

import ExprLex.Listing
import ExprLex.Proofs.Lexing
import Mathlib.Control.Monad.Basic

namespace ExprLex

variable {settings : LexerSettings} {source : String} {before text : List Char}
  {lexemes : List Lexeme} {ending : Ending} {row col : Nat}

/-! ## Places in front of a character -/

/-- The row and the column of a place with a character behind it. -/
def InFront (source : String) (row col : Nat) : Prop :=
  ∃ before d rest, source.toList = before ++ d :: rest ∧ row = before.count '\n' ∧
    col = (lastLine before).length

theorem InFront.lt (h : InFront source row col) : row < source.length ∧ col < source.length := by
  obtain ⟨before, d, rest, hs, rfl, rfl⟩ := h
  have hlen := congrArg List.length hs
  rw [String.length_toList, List.length_append, List.length_cons] at hlen
  have hrow : before.count '\n' ≤ before.length := List.count_le_length
  have hcol := length_lastLine_le before
  omega

theorem inFront_of_ne_nil (hne : text ≠ []) (hs : source.toList = before ++ text) :
    InFront source (before.count '\n') (lastLine before).length := by
  obtain ⟨d, rest, rfl⟩ := List.exists_cons_of_ne_nil hne
  exact ⟨before, d, rest, hs, rfl, rfl⟩

theorem inFront_of_lexing (h : Lexing settings text lexemes ending)
    (hs : source.toList = before ++ text) :
    ∀ t ∈ tokensBehind before lexemes, InFront source t.row t.col := by
  intro t ht
  obtain ⟨earlier, l, more, rfl, hcut, hk, -⟩ := exists_lexeme_of_mem h ht
  exact inFront_of_ne_nil (ne_nil_of_firstHit hk) (hs.trans hcut)

theorem inFront_of_failure (h : Lexing settings text lexemes ending)
    (hs : source.toList = before ++ text) {e : LexError}
    (he : ending.failure source (before ++ lexemes.flatMap Lexeme.whole) = some e) :
    InFront source e.row e.col := by
  induction h generalizing before with
  | complete hg => cases he
  | unrecognized hg hd hnone =>
    simp only [List.flatMap_nil, List.append_nil] at he
    cases he
    exact inFront_of_ne_nil (List.cons_ne_nil _ _) (by simpa using hs)
  | unterminated hg hstop hk hv =>
    simp only [List.flatMap_nil, List.append_nil] at he
    cases he
    obtain ⟨body, rfl, -⟩ := open_of_verdict hv
    exact inFront_of_ne_nil (List.cons_ne_nil _ _) (by simpa using hs)
  | @lexeme gap slice more t k lexemes ending hg hstop hk hv rest ih =>
    have hs' : source.toList = (before ++ (gap ++ slice)) ++ more := by simpa using hs
    exact ih hs' (by simpa [Lexeme.whole] using he)

/-! ## Counting from one -/

theorem countUp_of_lt {n : Nat} (h : n + 1 < counterBound) : countUp n = .ok (n + 1) := if_pos h

theorem position_of_inFront (hshort : source.length < counterBound) (h : InFront source row col) :
    Diagnostic.position row col = .ok (Text.decimal (row + 1) ++ ":" ++ Text.decimal (col + 1)) := by
  obtain ⟨hrow, hcol⟩ := h.lt
  unfold Diagnostic.position
  rw [countUp_of_lt (by omega), countUp_of_lt (by omega)]
  rfl

theorem mapM_ok {α β : Type} {f : α → Except Fault β} {items : List α}
    (h : ∀ a ∈ items, ∃ b, f a = .ok b) : ∃ results, items.mapM f = .ok results := by
  induction items with
  | nil => exact ⟨[], rfl⟩
  | cons a items ih =>
    obtain ⟨⟨b, hb⟩, hitems⟩ := List.forall_mem_cons.1 h
    obtain ⟨results, hresults⟩ := ih hitems
    exact ⟨b :: results, by rw [List.mapM_cons, hb, hresults]; rfl⟩

namespace Listing

theorem tokenLine_ok (hshort : source.length < counterBound) {t : Token}
    (h : InFront source t.row t.col) : ∃ line, tokenLine t = .ok line := by
  unfold tokenLine
  rw [position_of_inFront hshort h]
  exact ⟨_, rfl⟩

theorem tokens_ok (hshort : source.length < counterBound) {all : List Token}
    (h : ∀ t ∈ all, InFront source t.row t.col) (format : Format) (strip : Bool) :
    ∃ text, tokens format strip all = .ok text := by
  cases format with
  | json => exact ⟨_, rfl⟩
  | table =>
    have hshown : ∀ t ∈ all.filter (fun t => !strip || t.isVisible), ∃ line, tokenLine t = .ok line :=
      fun t ht => tokenLine_ok hshort (h t (List.mem_filter.1 ht).1)
    obtain ⟨lines, hlines⟩ := mapM_ok hshown
    simp only [tokens, tokenTable, hlines]
    exact ⟨_, rfl⟩

end Listing

namespace LexError

theorem toDiagnostic_span (e : LexError) : e.toDiagnostic.span = .point e.row e.col := by
  unfold toDiagnostic
  split <;> rfl

variable {e : LexError} (hshort : source.length < counterBound) (h : InFront source e.row e.col)
include hshort h

theorem message_ok : ∃ message, e.message = .ok message := by
  have hplace := position_of_inFront hshort h
  cases e with
  | unterminatedString row col source' =>
    rw [message, show Diagnostic.position row col = _ from hplace]
    exact ⟨_, rfl⟩
  | unrecognizedCharacter row col character source' =>
    rw [message, show Diagnostic.position row col = _ from hplace]
    exact ⟨_, rfl⟩

theorem render_ok : ∃ text, e.toDiagnostic.render = .ok text := by
  have hplace := position_of_inFront hshort h
  unfold Diagnostic.render
  rw [e.toDiagnostic_span,
    show Diagnostic.position (Span.point e.row e.col).line (Span.point e.row e.col).column = _ from hplace]
  exact ⟨_, rfl⟩

end LexError

/-! ## Whole runs -/

/-- A source of fewer characters than a counter has values is read to its end, to tokens or to a
failure, and no counter, undoing, checkpoint or cut faults on the way; nor does showing what was
found, which counts from one. -/
theorem run_never_faults (settings : LexerSettings) (hshort : source.length < counterBound) :
    ∃ run l, (Lexer.ofSource source settings).rest = .ok (run, l) ∧ l.finished = true ∧
      tokenize source settings = .ok (match run.failure with
        | none => .ok run.tokens
        | some error => .error error) ∧
      (∀ t ∈ run.tokens, ∃ line, Listing.tokenLine t = .ok line) ∧
      (∀ format strip, ∃ text, Listing.tokens format strip run.tokens = .ok text) ∧
      ∀ error, run.failure = some error →
        (∃ message, error.message = .ok message) ∧ ∃ text, error.toDiagnostic.render = .ok text := by
  obtain ⟨lexemes, ending, hl⟩ := exists_lexing settings source.toList
  obtain ⟨events, c', hrest⟩ := Lexer.rest_settles hl
  have htokens := inFront_of_lexing hl (List.nil_append _).symm
  refine ⟨_, _, hrest.ok_of_short hshort, rfl, ?_, ?_, ?_, ?_⟩
  · exact (tokenize_settles hl).ok_of_short hshort
  · exact fun t ht => Listing.tokenLine_ok hshort (htokens t ht)
  · exact Listing.tokens_ok hshort htokens
  · intro error he
    have hplace := inFront_of_failure hl (List.nil_append _).symm he
    exact ⟨LexError.message_ok hshort hplace, LexError.render_ok hshort hplace⟩

/-- Behind a word, the digits look ahead at a literal that is never closed: the word is listed, and
the failure has its message and its diagnostic. -/
theorem run_never_faults_open_literal : "éx 1\"".length < counterBound ∧
    ∃ run l, (Lexer.ofSource "éx 1\"" ⟨['é', ' ']⟩).rest = .ok (run, l) ∧ l.finished = true ∧
      run.tokens = [⟨.identifier, .value, "x", 0, 1, ⟨2, 3, 0, 1⟩⟩] ∧
      (∀ t ∈ run.tokens, ∃ line, Listing.tokenLine t = .ok line) ∧
      (∀ format strip, ∃ text, Listing.tokens format strip run.tokens = .ok text) ∧
      ∃ error, run.failure = some error ∧ error = .unterminatedString 0 4 "éx 1\"" ∧
        (∃ message, error.message = .ok message) ∧ ∃ text, error.toDiagnostic.render = .ok text := by
  have hshort : "éx 1\"".length < counterBound := by decide
  have hfound : ((Lexer.ofSource "éx 1\"" ⟨['é', ' ']⟩).rest.map fun found =>
      (found.1.tokens, found.1.failure)) = .ok ([⟨.identifier, .value, "x", 0, 1, ⟨2, 3, 0, 1⟩⟩],
        some (.unterminatedString 0 4 "éx 1\"")) := by
    decide +kernel
  obtain ⟨run, l, hrest, hfinished, -, hlines, hlistings, hfailure⟩ :=
    run_never_faults ⟨['é', ' ']⟩ hshort
  rw [hrest] at hfound
  obtain ⟨htokens, herror⟩ := Prod.mk.inj (Except.ok.inj hfound)
  exact ⟨hshort, run, l, hrest, hfinished, htokens, hlines, hlistings, _, herror, rfl,
    hfailure _ herror⟩

end ExprLex
