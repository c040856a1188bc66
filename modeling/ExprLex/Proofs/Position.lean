/-
  ExprLex.Proofs.Position — the true place behind a part of a text.

  `positionAt` counts the line breaks in front of a byte and the characters behind the last of them.
  `Place.behind before rest` counts bytes, line breaks and the characters of the last line in the
  text read so far, `before`. Stepping over a character leads from one true place to the next
  unless a counter is full (`past_behind`), and a counter is full only where the text has as many
  characters as a counter has values. The byte of a true place is never inside a character
  (`onBoundary_behind`).
-/

import ExprLex.Cursor
import ExprLex.Source

namespace ExprLex

theorem byteLength_eq_utf8ByteSize (cs : List Char) :
    byteLength cs = (String.ofList cs).utf8ByteSize := by
  induction cs with
  | nil => rfl
  | cons c cs ih =>
    have split : String.ofList (c :: cs) = String.singleton c ++ String.ofList cs := by
      rw [String.singleton_eq_ofList, ← String.ofList_append]
      rfl
    rw [split, String.utf8ByteSize_append, String.utf8ByteSize_singleton, byteLength_cons, ih]

theorem byteLength_toList (s : String) : byteLength s.toList = s.utf8ByteSize := by
  rw [byteLength_eq_utf8ByteSize, String.ofList_toList]

theorem byteLength_pos {cs : List Char} (h : cs ≠ []) : 0 < byteLength cs := by
  cases cs with
  | nil => exact absurd rfl h
  | cons c cs =>
    have := c.utf8Size_pos
    simp only [byteLength_cons]
    omega

/-- A span from the end of one part of a text to the end of the next cuts that part out. -/
theorem Span.sourceText_of_cut {s : Span} {source : String} {earlier slice more : List Char}
    (h : source.toList = earlier ++ (slice ++ more)) (hstart : s.start = byteLength earlier)
    (hstop : s.stop = byteLength (earlier ++ slice)) :
    s.sourceText source = some (String.ofList slice) := by
  have hle : s.start ≤ s.stop := by
    simp only [hstart, hstop, byteLength_append]
    omega
  have hlen : byteLength (earlier ++ slice) - byteLength earlier = byteLength slice := by
    rw [byteLength_append, Nat.add_sub_cancel_left]
  unfold sourceText
  rw [if_pos hle, hstart, hstop, hlen, h, splitAtByte_append]
  simp [splitAtByte_append]

/-- The characters behind the last line break. -/
def lastLine (before : List Char) : List Char := (before.reverse.takeWhile (· ≠ '\n')).reverse

theorem length_lastLine_le (before : List Char) : (lastLine before).length ≤ before.length := by
  have := (List.takeWhile_sublist (l := before.reverse) (· ≠ '\n')).length_le
  simpa [lastLine] using this

@[simp] theorem lastLine_snoc_break (before : List Char) : lastLine (before ++ ['\n']) = [] := by
  simp [lastLine]

theorem lastLine_snoc {c : Char} (h : c ≠ '\n') (before : List Char) :
    lastLine (before ++ [c]) = lastLine before ++ [c] := by
  simp [lastLine, h]

/-- Of a text with a line break, nothing in front of it is on the last line. -/
theorem lastLine_append_of_mem {line : List Char} (h : '\n' ∈ line) (before : List Char) :
    lastLine (before ++ line) = lastLine line := by
  have hstop : ∀ run : List Char, '\n' ∈ run →
      (run ++ before.reverse).takeWhile (· ≠ '\n') = run.takeWhile (· ≠ '\n') := by
    intro run hrun
    induction run with
    | nil => cases hrun
    | cons c run ih =>
      by_cases hc : c = '\n'
      · simp [hc]
      · have hmem : '\n' ∈ run := (List.mem_cons.1 hrun).resolve_left (Ne.symm hc)
        simpa [hc] using ih hmem
  unfold lastLine
  rw [List.reverse_append, hstop _ (List.mem_reverse.2 h)]

theorem lastLine_append_of_notMem {line : List Char} (h : '\n' ∉ line) (before : List Char) :
    lastLine (before ++ line) = lastLine before ++ line := by
  have hall : ∀ c ∈ line.reverse, decide (c ≠ '\n') = true := by
    intro c hc
    rw [decide_eq_true_iff]
    rintro rfl
    exact h (List.mem_reverse.1 hc)
  unfold lastLine
  rw [List.reverse_append, List.takeWhile_append_of_pos hall, List.reverse_append,
    List.reverse_reverse]

theorem lastLine_of_notMem {line : List Char} (h : '\n' ∉ line) : lastLine line = line :=
  lastLine_append_of_notMem h []

/-- The last line of a text counts on from the text before it, unless it has a break of its own. -/
theorem length_lastLine_append (before line : List Char) :
    (lastLine (before ++ line)).length =
      if line.count '\n' = 0 then (lastLine before).length + (lastLine line).length
      else (lastLine line).length := by
  by_cases h : '\n' ∈ line
  · rw [lastLine_append_of_mem h, if_neg (Nat.ne_of_gt (List.count_pos_iff.2 h))]
  · rw [lastLine_append_of_notMem h, lastLine_of_notMem h, List.length_append,
      if_pos (List.count_eq_zero.2 h)]

/-- The row and the column of byte `offset` of a text, if a character begins or the text ends there:
the line breaks in front of it, and the characters behind the last of them. -/
def positionAt (text : List Char) (offset : Nat) : Option (Nat × Nat) :=
  (splitAtByte text offset).map fun (before, _) => (before.count '\n', (lastLine before).length)

theorem positionAt_byteLength {text before rest : List Char} (h : text = before ++ rest) :
    positionAt text (byteLength before) = some (before.count '\n', (lastLine before).length) := by
  rw [h, positionAt, splitAtByte_append, Option.map_some]

namespace Place

/-- The place behind `before` and in front of `rest`. -/
def behind (before rest : List Char) : Place :=
  ⟨rest, byteLength before, before.count '\n', (lastLine before).length⟩

@[simp] theorem behind_rest (before rest : List Char) : (behind before rest).rest = rest := rfl
@[simp] theorem behind_offset (before rest : List Char) :
    (behind before rest).offset = byteLength before := rfl
@[simp] theorem behind_row (before rest : List Char) :
    (behind before rest).row = before.count '\n' := rfl
@[simp] theorem behind_col (before rest : List Char) :
    (behind before rest).col = (lastLine before).length := rfl

theorem ofSource_eq_behind (source : String) : ofSource source = behind [] source.toList := rfl

/-- A step leads to the next true place, unless there are too many characters to count. -/
theorem past_behind (before : List Char) (c : Char) (rest : List Char) :
    (behind before (c :: rest)).past c rest = .ok (behind (before ++ [c]) rest) ∨
      (behind before (c :: rest)).past c rest = .error .addOverflow ∧
        counterBound ≤ (before ++ c :: rest).length := by
  have hlen : (before ++ c :: rest).length = before.length + rest.length + 1 := by simp; omega
  by_cases hc : c = '\n'
  · subst hc
    have hrow : before.count '\n' ≤ before.length := List.count_le_length
    simp only [past, if_true, behind_row, behind_offset]
    by_cases hb : before.count '\n' + 1 < counterBound
    · left
      simp [countUp, hb, behind, bind, Except.bind, pure, Except.pure]
    · right
      refine ⟨by simp [countUp, hb, bind, Except.bind], by omega⟩
  · have hcol := length_lastLine_le before
    simp only [past, hc, if_false, behind_row, behind_col, behind_offset]
    by_cases hb : (lastLine before).length + 1 < counterBound
    · left
      simp [countUp, hb, behind, lastLine_snoc hc, hc, bind, Except.bind, pure, Except.pure]
    · right
      refine ⟨by simp [countUp, hb, bind, Except.bind], by omega⟩

end Place

namespace Cursor

/-- The cursor behind `before` and in front of `rest`, where `last` may be undone. -/
def behind (c : Cursor) (before rest : List Char) (last : Option Place) : Cursor :=
  { c with place := .behind before rest, last := last }

section
variable (c : Cursor) (before rest : List Char) (last : Option Place)

@[simp] theorem behind_source : (c.behind before rest last).source = c.source := rfl
@[simp] theorem behind_settings : (c.behind before rest last).settings = c.settings := rfl
@[simp] theorem behind_saved : (c.behind before rest last).saved = c.saved := rfl
@[simp] theorem behind_place : (c.behind before rest last).place = .behind before rest := rfl
@[simp] theorem behind_last : (c.behind before rest last).last = last := rfl
@[simp] theorem behind_behind (before' rest' : List Char) (last' : Option Place) :
    (c.behind before rest last).behind before' rest' last' = c.behind before' rest' last' := rfl

variable {c before rest}

theorem hasNext_behind (hne : rest ≠ []) : (c.behind before rest last).hasNext = true := by
  simp [hasNext, hne]

/-- The byte of a true place begins a character of the source or ends it. -/
theorem onBoundary_behind (h : c.source.toList = before ++ rest) :
    (c.behind before rest last).onBoundary = true := by
  have hs : c.source = String.ofList before ++ String.ofList rest := by
    rw [← String.ofList_append, ← h, String.ofList_toList]
  refine String.Pos.Raw.isValid_eq_true_iff.2 (String.Pos.Raw.isValid_iff_exists_append.2 ?_)
  refine ⟨String.ofList before, String.ofList rest, hs, ?_⟩
  simp [String.rawEndPos, byteLength_eq_utf8ByteSize]

end

theorem ofSource_eq_behind (source : String) (settings : LexerSettings) :
    ofSource source settings = (ofSource source settings).behind [] source.toList none := rfl

/-- The cursor stands behind `before` and in front of `text`, whatever is saved or may be undone. -/
def StandsAt (c : Cursor) (before text : List Char) : Prop :=
  c.source.toList = before ++ text ∧ c.place = .behind before text

variable {c : Cursor} {before text : List Char}

theorem StandsAt.eq_behind (h : c.StandsAt before text) : c = c.behind before text c.last := by
  obtain ⟨source, settings, place, last, saved⟩ := c
  obtain ⟨-, rfl⟩ := h
  rfl

end Cursor

end ExprLex
