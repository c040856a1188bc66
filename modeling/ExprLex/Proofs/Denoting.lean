/-
  ExprLex.Proofs.Denoting — the texts that string literals stand for.

  Not every text has a literal: a backslash of the text may stand neither in front of another one nor
  in front of a quote (`Literal.Denotable`). No literal, wherever it is read, has any other text, and
  every such text has one: its quotes and backslashes are written with a backslash in front of them,
  and a lexer that comes to it reads back the text, whatever follows (`literal_texts`).
-/

import ExprLex.Proofs.Escaping
import ExprLex.Proofs.Lexing
import ExprLex.Proofs.Overlap

namespace ExprLex

open Recognizer

namespace Literal

/-- No backslash stands directly in front of a backslash or a quote. -/
def Denotable (t : List Char) : Prop := ¬ ['\\', '\\'] <:+: t ∧ ¬ ['\\', '"'] <:+: t

/-- A text between quotes, with a backslash in front of each of its quotes and backslashes. -/
def written (t : String) : String := String.ofList ('"' :: (escaped t.toList ++ ['"']))

theorem denotable_iff_tame {t : List Char} : Denotable t ↔ Tame t.reverse := by
  rw [Tame, List.isChain_reverse, List.isChain_iff_forall_rel_of_append_cons_cons]
  constructor
  · intro h older newer earlier later hcut hslash
    subst hslash
    refine ⟨?_, ?_⟩
    · rintro rfl
      exact h.1 ⟨earlier, later, by simp [hcut]⟩
    · rintro rfl
      exact h.2 ⟨earlier, later, by simp [hcut]⟩
  · intro h
    refine ⟨?_, ?_⟩
    · rintro ⟨earlier, later, hcut⟩
      exact (@h _ _ earlier later (by simp [← hcut]) rfl).1 rfl
    · rintro ⟨earlier, later, hcut⟩
      exact (@h _ _ earlier later (by simp [← hcut]) rfl).2 rfl

/-! ## What is read -/

/-- A match of the recognizer is the text of a body, wherever the cursor stood. -/
theorem exists_body_of_matched {c stop : Cursor} {reading : Reading} {text : String}
    (h : stringLiteral c = .ok (reading, stop)) (hm : reading.outcome = .matched text) :
    ∃ rest count, literalBody [] 0 rest = some (text.toList, count) := by
  obtain ⟨opening, c₁, -, h⟩ := Scan.exists_of_bind h
  obtain ⟨first, c₂, -, h⟩ := Scan.exists_of_bind h
  split at h
  · obtain ⟨c₃, c₄, -, h⟩ := Scan.exists_of_bind h
    cases hbody : literalBody [] 0 c₃.place.rest with
    | none =>
      simp only [hbody] at h
      obtain ⟨_, c₅, -, h⟩ := Scan.exists_of_bind h
      cases h
      cases hm
    | some result =>
      simp only [hbody] at h
      obtain ⟨_, c₅, -, h⟩ := Scan.exists_of_bind h
      cases h
      cases hm
      exact ⟨_, _, by rw [hbody, String.toList_ofList]⟩
  · cases h
    cases hm

theorem denotable_of_matched {c stop : Cursor} {reading : Reading} {text : String}
    (h : stringLiteral c = .ok (reading, stop)) (hm : reading.outcome = .matched text) :
    Denotable text.toList := by
  obtain ⟨rest, count, hbody⟩ := exists_body_of_matched h hm
  exact denotable_iff_tame.2 (tame_of_literalBody (.inl .nil) hbody)

/-! ## What is written -/

section
variable {settings : LexerSettings} {t : String} (ht : Denotable t.toList) (r : List Char)
include ht

theorem verdict_written : Kind.string.verdict settings ((written t).toList ++ r) =
    .matched t.toList (written t).toList r := by
  refine verdict_eq_matched_iff.2 ⟨rfl, ⟨escaped t.toList ++ ['"'], ?_, ?_⟩, trivial⟩
  · exact String.toList_ofList
  · exact isBody_of_tame (denotable_iff_tame.1 ht)

theorem firstHit_written :
    firstHit settings Kind.trialOrder ((written t).toList ++ r) = some .string := by
  cases hk : firstHit settings Kind.trialOrder ((written t).toList ++ r) with
  | none =>
    have hmiss := List.find?_eq_none.1 hk .string (by decide)
    rw [verdict_written ht r] at hmiss
    exact absurd rfl hmiss
  | some k =>
    rw [written, String.toList_ofList, List.cons_append] at hk
    rw [eq_string_of_isHit (isHit_of_firstHit hk)]

end

/-- The token of a literal at the beginning of a text. -/
theorem token_written (t : String) :
    Lexeme.token [] ⟨[], (written t).toList, .string, t.toList⟩ =
      ⟨.string, .value, t, 0, 0, ⟨0, (written t).utf8ByteSize, 0, 0⟩⟩ := by
  simp [Lexeme.token, lastLine, byteLength_toList, Kind.category]

/-- A literal that is written for a text is read first where it comes first. -/
theorem next_written {settings : LexerSettings} {t : String} (ht : Denotable t.toList) (r : String)
    (hquote : settings.isWhitespace '"' = false) :
    ∃ events c', Settles (written t ++ r) (Lexer.ofSource (written t ++ r) settings).next
      (⟨.token ⟨.string, .value, t, 0, 0, ⟨0, (written t).utf8ByteSize, 0, 0⟩⟩, events⟩,
        ⟨c', false⟩) := by
  have hcut : (written t ++ r).toList = (written t).toList ++ r.toList := String.toList_append
  have hsource : (Cursor.ofSource (written t ++ r) settings).source.toList =
      [] ++ ([] ++ ((written t).toList ++ r.toList)) := by
    rw [List.nil_append, List.nil_append]
    exact hcut
  have hstop : StopsAt settings.isSeparator ((written t).toList ++ r.toList) := by
    rw [written, String.toList_ofList]
    exact stopsAt_cons.2 (by simp [LexerSettings.isSeparator, hquote])
  obtain ⟨events, last', hnext⟩ := Scan.nextTokenBy_settles_token Kind.trialOrder none (by simp)
    hsource hstop (firstHit_written ht r.toList) (verdict_written ht r.toList)
  rw [token_written, List.nil_append, ← hcut, ← Cursor.ofSource_eq_behind] at hnext
  exact ⟨events, _, Lexer.next_settles_token hnext⟩

end Literal

/-- The text of a literal has no backslash in front of a backslash or a quote, wherever the literal is
read. Every such text has a literal: where that comes first, the first token is the text and covers
the literal, whatever follows. -/
theorem literal_texts :
    (∀ c reading stop text, stringLiteral c = .ok (reading, stop) →
      reading.outcome = .matched text → Literal.Denotable text.toList) ∧
    ∀ (t r : String) (settings : LexerSettings), Literal.Denotable t.toList →
      settings.isWhitespace '"' = false → (Literal.written t ++ r).length < counterBound →
      ∃ events l, (Lexer.ofSource (Literal.written t ++ r) settings).next = .ok
        (⟨.token ⟨.string, .value, t, 0, 0, ⟨0, (Literal.written t).utf8ByteSize, 0, 0⟩⟩, events⟩, l) := by
  refine ⟨fun c reading stop text => Literal.denotable_of_matched, ?_⟩
  intro t r settings ht hquote hshort
  obtain ⟨events, c', hnext⟩ := Literal.next_written ht r hquote
  exact ⟨events, _, hnext.ok_of_short hshort⟩

/-- The text holds a quote and ends in a backslash; a quote follows its literal. -/
theorem literal_texts_quote :
    (Literal.Denotable "é\"\\".toList ∧ LexerSettings.isWhitespace {} '"' = false ∧
      (Literal.written "é\"\\" ++ "\"x").length < counterBound) ∧
    ∃ events l, (Lexer.ofSource (Literal.written "é\"\\" ++ "\"x")).next = .ok
      (⟨.token ⟨.string, .value, "é\"\\", 0, 0, ⟨0, 8, 0, 0⟩⟩, events⟩, l) := by
  have ht : Literal.Denotable "é\"\\".toList := ⟨by decide, by decide⟩
  have hquote : LexerSettings.isWhitespace {} '"' = false := by decide
  have hshort : (Literal.written "é\"\\" ++ "\"x").length < counterBound := by decide
  exact ⟨⟨ht, hquote, hshort⟩, literal_texts.2 _ "\"x" {} ht hquote hshort⟩

end ExprLex
