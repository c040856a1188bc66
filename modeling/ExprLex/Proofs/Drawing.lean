/-
  ExprLex.Proofs.Drawing — which line a snippet shows, and where its caret comes to stand.

  Two counts of lines meet here. A place counts the line breaks in front of it, and `Snippet.lines`
  splits the whole text: the line of a place is what the text has of it in front (`lastLine`) and
  behind (`getElem?_splitOn_behind`), so the column of a place is never outside its line. Dropping
  the carriage returns at the end of the line loses a character only if it is one of them.

  A drawn snippet is a source line and a caret line with margins of the same width, and its padding
  is as wide as the columns in front of the mark (`toList_format`). A rendered diagnostic is a list
  of lines, none with a line break of its own: a text put together from pieces is one line if every
  piece is (`OneLine`).
-/

import ExprLex.Proofs.Slices
import ExprLex.Proofs.Position
import ExprLex.Proofs.Reading
import ExprLex.Diagnostic

namespace ExprLex

variable {before rest line : List Char} {c : Char}

/-! ## Texts of one line -/

/-- No line ends inside the text. -/
def OneLine (text : List Char) : Prop := '\n' ∉ text

instance (text : List Char) : Decidable (OneLine text) := inferInstanceAs (Decidable ('\n' ∉ text))

namespace OneLine

theorem append (h : OneLine line) (hrest : OneLine rest) : OneLine (line ++ rest) := by
  intro hmem
  rcases List.mem_append.1 hmem with hmem | hmem
  · exact h hmem
  · exact hrest hmem

theorem cons (hc : c ≠ '\n') (h : OneLine line) : OneLine (c :: line) := by
  intro hmem
  rcases List.mem_cons.1 hmem with hmem | hmem
  · exact hc hmem.symm
  · exact h hmem

theorem of_append (h : OneLine (line ++ rest)) : OneLine line :=
  fun hmem => h (List.mem_append_left rest hmem)

theorem takeWhile (text : List Char) : OneLine (text.takeWhile (· ≠ '\n')) := by
  intro hmem
  simpa using forall_mem_takeWhile _ text _ hmem

theorem lastLine (before : List Char) : OneLine (lastLine before) := by
  intro hmem
  rw [ExprLex.lastLine, List.mem_reverse] at hmem
  exact takeWhile before.reverse hmem

theorem toDigits {base : Nat} (hb : 1 < base) (n : Nat) : OneLine (Nat.toDigits base n) := by
  intro hmem
  obtain ⟨d, -, hd⟩ := Text.exists_digit_of_mem hb hmem
  exact Nat.digitChar_ne '\n' (by decide) hd.symm

theorem decimal (n : Nat) : OneLine (Text.decimal n).toList := by
  rw [Text.decimal, String.toList_ofList]
  exact toDigits (by decide) n

theorem codePointEscape (c : Char) : OneLine (Text.codePointEscape c) := by
  rw [Text.codePointEscape, Text.hexadecimal]
  exact (append (by decide) (toDigits (by decide) c.toNat)).append (by decide)

theorem plainEscape (c : Char) : OneLine (Text.plainEscape c).toList := by
  unfold Text.plainEscape
  rw [String.toList_ofList]
  split
  · decide
  split
  · decide
  split
  · decide
  split
  · rename_i hc
    rcases hc with rfl | rfl | rfl <;> decide
  split
  · rename_i hn _ _ _
    exact cons hn (by decide)
  · exact codePointEscape c

theorem quotedChar (c : Char) : OneLine (Text.quotedChar '"' c) := by
  unfold Text.quotedChar
  iterate 6
    split
    · decide
  split
  · exact codePointEscape c
  · rename_i hbreak _ _ _ _
    exact cons hbreak (by decide)

theorem quoted (s : String) : OneLine (Text.quoted s).toList := by
  rw [Text.quoted, String.toList_ofList]
  refine (append (by decide) fun hmem => ?_).append (by decide)
  obtain ⟨c, -, hc⟩ := List.mem_flatMap.1 hmem
  exact quotedChar c hc

end OneLine

/-! ## The line of a place -/

/-- Where a line does not go on, the text ends or a line break follows. -/
theorem eq_nil_or_break (h : StopsAt (· ≠ '\n') rest) : rest = [] ∨ ∃ more, rest = '\n' :: more := by
  cases rest with
  | nil => exact .inl rfl
  | cons d more =>
    obtain rfl : d = '\n' := by simpa using stopsAt_cons.1 h
    exact .inr ⟨more, rfl⟩

/-- A text is its last line, behind a line break if there is one. -/
theorem eq_lastLine_or (before : List Char) :
    before = lastLine before ∨ ∃ earlier, before = earlier ++ '\n' :: lastLine before := by
  obtain ⟨hcut, -, hstop⟩ := cut_where_stops (· ≠ '\n') before.reverse
  have hback := congrArg List.reverse hcut
  rw [List.reverse_reverse, List.reverse_append] at hback
  rcases eq_nil_or_break hstop with hnil | ⟨more, hmore⟩
  · rw [hnil] at hback
    exact .inl hback
  · rw [hmore] at hback
    exact .inr ⟨more.reverse, by simpa [lastLine] using hback⟩

theorem splitOn_cons_line (h : OneLine line) (rest : List Char) :
    (line ++ '\n' :: rest).splitOn '\n' = line :: rest.splitOn '\n' := by
  rw [List.splitOn_append_cons_self, List.splitOn_eq_singleton h, List.singleton_append]

theorem getElem?_splitOn_zero (h : OneLine line) (rest : List Char) :
    ((line ++ rest).splitOn '\n')[0]? = some (line ++ rest.takeWhile (· ≠ '\n')) := by
  have hrun : OneLine (line ++ rest.takeWhile (· ≠ '\n')) := h.append (.takeWhile rest)
  obtain ⟨hcut, -, hstop⟩ := cut_where_stops (· ≠ '\n') rest
  generalize rest.takeWhile (· ≠ '\n') = run at hrun hcut ⊢
  rw [hcut, ← List.append_assoc]
  rcases eq_nil_or_break hstop with hnil | ⟨more, hmore⟩
  · rw [hnil, List.append_nil, List.splitOn_eq_singleton hrun]
    rfl
  · rw [hmore, splitOn_cons_line hrun]
    rfl

/-- The line of a place: what is in front of it on its line, and what is behind it up to the break. -/
theorem getElem?_splitOn_behind (before rest : List Char) :
    ((before ++ rest).splitOn '\n')[before.count '\n']? =
      some (lastLine before ++ rest.takeWhile (· ≠ '\n')) := by
  have hline := getElem?_splitOn_zero (.lastLine before) rest
  have hzero : (lastLine before).count '\n' = 0 := List.count_eq_zero.2 (OneLine.lastLine before)
  rcases eq_lastLine_or before with hcut | ⟨earlier, hcut⟩
  · rw [← hcut] at hline hzero
    rw [hzero, hline, ← hcut]
  · generalize lastLine before = last at hline hzero hcut ⊢
    subst hcut
    have hcount : (earlier ++ '\n' :: last).count '\n' = (earlier.splitOn '\n').length := by
      rw [List.count_append, List.count_cons_self, hzero, Diagnostic.Snippet.length_splitOn]
    rw [hcount, List.append_assoc, List.cons_append, List.splitOn_append_cons_self,
      List.getElem?_append_right (Nat.le_refl _), Nat.sub_self, hline]

namespace Diagnostic.Snippet

/-! ## Carriage returns at the end of a line -/

/-- Only carriage returns are dropped. -/
theorem eq_trimReturns_append (line : List Char) :
    ∃ returns, line = trimReturns line ++ returns ∧ ∀ d ∈ returns, d = '\r' := by
  obtain ⟨hcut, hrun, -⟩ := cut_where_stops (· = '\r') line.reverse
  have hback := congrArg List.reverse hcut
  rw [List.reverse_reverse, List.reverse_append] at hback
  exact ⟨_, hback, fun d hd => by simpa using hrun d (List.mem_reverse.1 hd)⟩

/-- A character is still shown where it was, or it is the first of the returns that are dropped. -/
theorem shown_or_dropped (hfirst : c = '\r' → before.getLast? ≠ some '\r') (rest : List Char) :
    (trimReturns (before ++ c :: rest))[before.length]? = some c ∨
      c = '\r' ∧ trimReturns (before ++ c :: rest) = before := by
  obtain ⟨returns, hcut, hreturns⟩ := eq_trimReturns_append (before ++ c :: rest)
  generalize trimReturns (before ++ c :: rest) = shown at hcut ⊢
  rcases List.append_eq_append_iff.1 hcut with ⟨more, rfl, hmore⟩ | ⟨more, hbefore, rfl⟩
  · cases more with
    | nil =>
      right
      rw [List.nil_append] at hmore
      exact ⟨hreturns c (by simp [← hmore]), List.append_nil before⟩
    | cons d more =>
      left
      obtain rfl : c = d := (List.cons.inj hmore).1
      simp
  · right
    have hc : c = '\r' := hreturns c (by simp)
    refine ⟨hc, ?_⟩
    rw [hbefore]
    rcases List.eq_nil_or_concat more with rfl | ⟨more, d, rfl⟩
    · rw [List.append_nil]
    · obtain rfl : d = '\r' := hreturns d (by simp)
      exact absurd (by simp [hbefore]) (hfirst hc)

/-! ## Snippets cut from a text -/

/-- A line and a column of a text that exist give the snippet of that point. -/
theorem ofSource_of_getElem? {source : String} {row col : Nat} (hline : (lines source)[row]? = some line)
    (hcol : col ≤ line.length) : ofSource source (row + 1) (col + 1) =
      .ok (point (String.ofList (trimReturns line)) (row + 1) (col + 1)) := by
  have hinside : ¬ (col + 1 = 0 ∨ col + 1 > line.length + 1) := by omega
  simp only [ofSource, if_neg (Nat.succ_ne_zero row), Nat.add_sub_cancel, hline, if_neg hinside]

/-! ## Drawn snippets -/

/-- What stands at the left of a drawn line. -/
def margin (s : Snippet) (number : String) : List Char :=
  (Text.alignRight ' ' s.gutterWidth number).toList ++ [' ', '|', ' ']

/-- The caret, or as many as there are columns to mark, and the label. -/
def mark (s : Snippet) : List Char :=
  List.replicate (max 1 (s.endColumn - s.startColumn)) '^' ++
    (match s.label with
      | some label => ' ' :: label.toList
      | none => [])

/-- The upper line of a drawn snippet. -/
def sourceLine (s : Snippet) : List Char := s.margin (Text.decimal s.lineNumber) ++ s.line.toList

/-- The lower line of a drawn snippet. -/
def caretLine (s : Snippet) : List Char :=
  s.margin "" ++ padding s.line.toList (s.startColumn - 1) ++ s.mark

theorem toList_format (s : Snippet) : s.format.toList = s.sourceLine ++ '\n' :: s.caretLine := by
  unfold format sourceLine caretLine margin mark
  cases s.label <;> simp

theorem length_margin {s : Snippet} {number : String} (h : number.length ≤ s.gutterWidth) :
    (s.margin number).length = s.gutterWidth + 3 := by
  have hlen : number.toList.length ≤ s.gutterWidth := by rwa [String.length_toList]
  simp [margin, Text.alignRight, List.leftpad]
  omega

/-- Both lines have margins of the same width, however long the line number is. -/
theorem length_margin_eq (s : Snippet) :
    (s.margin (Text.decimal s.lineNumber)).length = (s.margin "").length := by
  rw [length_margin (Nat.le_max_right _ _), length_margin (Nat.zero_le _)]

theorem length_padding (line : List Char) (width : Nat) : (padding line width).length = width := by
  simp only [padding, List.rightpad, List.length_append, List.length_map, List.length_take,
    List.length_replicate]
  omega

theorem mark_point {s : Snippet} {label : String} (hp : s.startColumn = s.endColumn)
    (hl : s.label = some label) : s.mark = '^' :: ' ' :: label.toList := by
  simp [mark, hp, hl]

theorem mem_margin {s : Snippet} {number : String} (h : c ∈ s.margin number) :
    c ∈ number.toList ∨ c = ' ' ∨ c = '|' := by
  simp only [margin, Text.alignRight, List.leftpad, String.toList_ofList, List.mem_append,
    List.mem_replicate, List.mem_cons, List.not_mem_nil, or_false] at h
  rcases h with (⟨-, h⟩ | h) | h | h | h
  · exact .inr (.inl h)
  · exact .inl h
  · exact .inr (.inl h)
  · exact .inr (.inr h)
  · exact .inr (.inl h)

theorem mem_padding {width : Nat} (h : c ∈ padding line width) : c = '\t' ∨ c = ' ' := by
  simp only [padding, List.rightpad, List.mem_append, List.mem_map, List.mem_replicate] at h
  rcases h with ⟨d, -, rfl⟩ | ⟨-, rfl⟩
  · split
    · exact .inl rfl
    · exact .inr rfl
  · exact .inr rfl

/-- What is in front of the mark. -/
theorem mem_indent {s : Snippet} {width : Nat} (h : c ∈ s.margin "" ++ padding line width) :
    c = ' ' ∨ c = '|' ∨ c = '\t' := by
  rcases List.mem_append.1 h with h | h
  · rcases mem_margin h with h | h | h
    · cases h
    · exact .inl h
    · exact .inr (.inl h)
  · rcases mem_padding h with h | h
    · exact .inr (.inr h)
    · exact .inl h

theorem oneLine_trimReturns (h : OneLine line) : OneLine (trimReturns line) := by
  obtain ⟨returns, hcut, -⟩ := eq_trimReturns_append line
  rw [hcut] at h
  exact h.of_append

theorem oneLine_sourceLine {s : Snippet} (h : OneLine s.line.toList) : OneLine s.sourceLine := by
  refine OneLine.append (fun hmem => ?_) h
  rcases mem_margin hmem with hmem | hmem | hmem
  · exact OneLine.decimal _ hmem
  · cases hmem
  · cases hmem

theorem oneLine_caretLine {s : Snippet} (h : OneLine s.mark) : OneLine s.caretLine := by
  refine OneLine.append (fun hmem => ?_) h
  rcases mem_indent hmem with hmem | hmem | hmem
  · cases hmem
  · cases hmem
  · cases hmem

end Diagnostic.Snippet

end ExprLex
