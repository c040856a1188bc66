/-
  ExprLex.Proofs.Cutting — which requests for a snippet are met, and what is drawn for them.

  A line of a text is what stands in it from break to break, and its number is one more than there
  are breaks in front of it (`IsLine`). Splitting the text at its breaks gives just these lines
  (`getElem?_splitOn_iff`), so it has one line more than breaks (`exists_isLine_iff`).

  A request counts line and column from one. The line decides first (`ofSource_of_no_line`), and
  then the column is measured against the whole line (`ofSource_of_isLine`); the returns at its end
  are dropped only afterwards (`Trims`). So a caret may stand further right than the shown line
  reaches, and its indent (`Indents`) goes on in spaces there. The drawing is two lines with margins
  of one width (`lines_format_point`).
-/

import ExprLex.Proofs.Drawing

namespace ExprLex.Diagnostic.Snippet

variable {source : String} {text line shown : List Char} {number column : Nat}

/-! ## The lines of a text -/

/-- The text holds `line` behind `before` and in front of `after`, from break to break. -/
structure Encloses (text before line after : List Char) : Prop where
  cut : text = before ++ (line ++ after)
  oneLine : OneLine line
  begins : before = [] ∨ ∃ earlier, before = earlier ++ ['\n']
  ends : after = [] ∨ ∃ later, after = '\n' :: later

/-- Line `number` of the text; the first line is number one. -/
def IsLine (text : List Char) (number : Nat) (line : List Char) : Prop :=
  ∃ before after, Encloses text before line after ∧ number = before.count '\n' + 1

theorem IsLine.oneLine (h : IsLine text number line) : OneLine line := by
  obtain ⟨before, after, hline, -⟩ := h
  exact hline.oneLine

theorem Encloses.stopsAt {before after : List Char} (h : Encloses text before line after) :
    StopsAt (· ≠ '\n') after := by
  rcases h.ends with rfl | ⟨later, rfl⟩
  · exact stopsAt_nil _
  · exact stopsAt_cons.2 (by decide)

theorem Encloses.lastLine_eq {before after : List Char} (h : Encloses text before line after) :
    lastLine before = [] := by
  rcases h.begins with rfl | ⟨earlier, rfl⟩
  · rfl
  · exact lastLine_snoc_break earlier

theorem Encloses.getElem?_splitOn {before after : List Char}
    (h : Encloses text before line after) :
    (text.splitOn '\n')[before.count '\n']? = some line := by
  rw [h.cut, getElem?_splitOn_behind, h.lastLine_eq, List.nil_append,
    takeWhile_append_of_stopsAt (fun d hd => ?_) h.stopsAt]
  have hne : d ≠ '\n' := fun he => h.oneLine (he ▸ hd)
  simpa using hne

/-- Behind one more line, a line has one more in front of it. -/
theorem Encloses.behind {first before after : List Char} (h : Encloses text before line after) :
    Encloses (first ++ '\n' :: text) (first ++ '\n' :: before) line after where
  cut := by simp [h.cut]
  oneLine := h.oneLine
  begins := by
    rcases h.begins with rfl | ⟨earlier, rfl⟩
    · exact .inr ⟨first, rfl⟩
    · exact .inr ⟨first ++ '\n' :: earlier, by simp⟩
  ends := h.ends

theorem exists_encloses_of_getElem? {row : Nat} (h : (text.splitOn '\n')[row]? = some line) :
    ∃ before after, Encloses text before line after ∧ row = before.count '\n' := by
  -- every step takes the first line and its break away
  induction row generalizing text with
  | zero =>
    obtain ⟨hcut, -, hstop⟩ := cut_where_stops (· ≠ '\n') text
    have hfirst := getElem?_splitOn_zero (show OneLine [] from List.not_mem_nil) text
    rw [List.nil_append, h] at hfirst
    cases hfirst
    exact ⟨[], _, ⟨hcut, .takeWhile text, .inl rfl, eq_nil_or_break hstop⟩, rfl⟩
  | succ row ih =>
    obtain ⟨hcut, -, hstop⟩ := cut_where_stops (· ≠ '\n') text
    have hfirst : OneLine (text.takeWhile (· ≠ '\n')) := .takeWhile text
    generalize text.takeWhile (· ≠ '\n') = first at hcut hfirst
    rcases eq_nil_or_break hstop with hnil | ⟨more, hmore⟩
    · rw [hcut, hnil, List.append_nil, List.splitOn_eq_singleton hfirst] at h
      cases h
    · rw [hcut, hmore, splitOn_cons_line hfirst, List.getElem?_cons_succ] at h
      obtain ⟨before, after, hline, hrow⟩ := ih h
      refine ⟨first ++ '\n' :: before, after, ?_, ?_⟩
      · rw [hcut, hmore]
        exact hline.behind
      · rw [List.count_append, List.count_cons_self, List.count_eq_zero.2 hfirst, Nat.zero_add,
          hrow]

/-- Splitting a text at its breaks gives its lines, in their order. -/
theorem getElem?_splitOn_iff {row : Nat} :
    (text.splitOn '\n')[row]? = some line ↔ IsLine text (row + 1) line := by
  constructor
  · intro h
    obtain ⟨before, after, hline, rfl⟩ := exists_encloses_of_getElem? h
    exact ⟨before, after, hline, rfl⟩
  · rintro ⟨before, after, hline, hrow⟩
    rw [Nat.succ.inj hrow]
    exact hline.getElem?_splitOn

/-- There is one line more than there are breaks. -/
theorem exists_isLine_iff :
    (∃ line, IsLine text number line) ↔ 1 ≤ number ∧ number ≤ text.count '\n' + 1 := by
  constructor
  · rintro ⟨line, before, after, hline, rfl⟩
    refine ⟨Nat.le_add_left 1 _, Nat.succ_le_succ ?_⟩
    rw [hline.cut, List.count_append]
    exact Nat.le_add_right _ _
  · rintro ⟨hfirst, hlast⟩
    obtain ⟨row, rfl⟩ := Nat.exists_eq_add_of_le' hfirst
    rw [← length_splitOn] at hlast
    exact ⟨_, getElem?_splitOn_iff.1 (List.getElem?_eq_getElem hlast)⟩

/-! ## Requests -/

/-- A request for a line that there is comes down to its column. -/
theorem ofSource_of_isLine (h : IsLine source.toList number line) (column : Nat) :
    ofSource source number column =
      if 1 ≤ column ∧ column ≤ line.length + 1
      then .ok (point (String.ofList (trimReturns line)) number column)
      else .error (.invalidColumn number column line.length) := by
  obtain ⟨row, rfl⟩ := Nat.exists_eq_add_of_le' (exists_isLine_iff.1 ⟨line, h⟩).1
  have hline : (lines source)[row]? = some line := getElem?_splitOn_iff.2 h
  simp only [ofSource, if_neg (Nat.succ_ne_zero row), Nat.add_sub_cancel, hline]
  by_cases hc : 1 ≤ column ∧ column ≤ line.length + 1
  · rw [if_pos hc, if_neg (by omega)]
  · rw [if_neg hc, if_pos (by omega)]

/-- A request for a line that there is not fails, whatever the column. -/
theorem ofSource_of_no_line (h : ¬ ∃ line, IsLine source.toList number line) (column : Nat) :
    ofSource source number column =
      .error (.invalidLineNumber number (source.toList.count '\n' + 1)) := by
  have hnone : (if number = 0 then none else (lines source)[number - 1]?) = none := by
    split
    · rfl
    · rename_i hne
      rw [List.getElem?_eq_none_iff, length_lines]
      rw [exists_isLine_iff] at h
      omega
  simp only [ofSource, hnone, length_lines]

/-! ## Drawings -/

/-- What is shown of a line: all but the carriage returns at its end. -/
structure Trims (line shown : List Char) : Prop where
  dropped : ∃ returns, line = shown ++ returns ∧ ∀ d ∈ returns, d = '\r'
  last : shown.getLast? ≠ some '\r'

theorem trims_trimReturns (line : List Char) : Trims line (trimReturns line) where
  dropped := eq_trimReturns_append line
  last := by
    rw [trimReturns, List.getLast?_reverse]
    intro hlast
    have hstops := stopsAt_dropWhile (· = '\r') line.reverse '\r' hlast
    simp at hstops

/-- What is put in front of a caret: a tab under a tab, and a space under all else. -/
structure Indents (shown : List Char) (width : Nat) (indent : List Char) : Prop where
  length_eq : indent.length = width
  at_eq : ∀ i < width, indent[i]? = some (if shown[i]? = some '\t' then '\t' else ' ')

theorem indents_padding (shown : List Char) (width : Nat) :
    Indents shown width (padding shown width) where
  length_eq := length_padding shown width
  at_eq i hi := by
    have hlen : ((shown.take width).map fun c => if c = '\t' then '\t' else ' ').length =
        min width shown.length := by simp
    by_cases hwithin : i < shown.length
    · rw [padding, List.rightpad, List.getElem?_append_left (by omega)]
      simp [hi, hwithin]
    · have hnone : shown[i]? = none := List.getElem?_eq_none (by omega)
      rw [padding, List.rightpad, List.getElem?_append_right (by omega),
        List.getElem?_replicate_of_lt (by omega), hnone]
      rfl

/-- A margin is a number at the right end of its column, and a bar. -/
theorem margin_eq (s : Snippet) (number : String) : s.margin number =
    List.replicate (s.gutterWidth - number.toList.length) ' ' ++ number.toList ++
      [' ', '|', ' '] := by
  rw [margin, Text.alignRight, String.toList_ofList, List.leftpad]

/-- A drawing has two lines. -/
theorem lines_format {s : Snippet} (hline : OneLine s.line.toList) (hmark : OneLine s.mark) :
    lines s.format = [s.sourceLine, s.caretLine] := by
  rw [lines, toList_format, splitOn_cons_line (oneLine_sourceLine hline),
    List.splitOn_eq_singleton (oneLine_caretLine hmark)]

/-- The margins of the drawing of a point are equally wide, and there is one caret. -/
theorem lines_format_point (hline : OneLine shown) (number column : Nat) :
    ∃ digits width, digits = (Text.decimal number).toList ∧ width = max 3 digits.length ∧
      lines (point (String.ofList shown) number column).format =
        [List.replicate (width - digits.length) ' ' ++ digits ++ [' ', '|', ' '] ++ shown,
          List.replicate width ' ' ++ [' ', '|', ' '] ++ padding shown (column - 1) ++ ['^']] := by
  have hshown : (point (String.ofList shown) number column).line.toList = shown :=
    String.toList_ofList
  have hmark : (point (String.ofList shown) number column).mark = ['^'] := by simp [point, mark]
  have hwidth : (point (String.ofList shown) number column).gutterWidth =
      max 3 (Text.decimal number).toList.length := by
    rw [String.length_toList]
    rfl
  refine ⟨_, _, rfl, rfl, ?_⟩
  rw [lines_format (by rwa [hshown]) (by rw [hmark]; decide), sourceLine, caretLine, margin_eq,
    margin_eq, hmark, hshown, hwidth, String.toList_empty, List.length_nil, Nat.sub_zero,
    List.append_nil]
  rfl

/-- A snippet is cut from a text just where the text has the line and the line reaches the column or
ends right in front of it. A missing line is refused whatever the column, and a column by the length
of the whole line. What is drawn is the line without the returns at its end, behind its number, and
one caret behind as many blanks as there are columns in front of it, which are tabs under the tabs
of what is shown. -/
theorem cut_and_drawn (source : String) (number column : Nat) :
    ((∃ line, IsLine source.toList number line) ↔
      1 ≤ number ∧ number ≤ source.toList.count '\n' + 1) ∧
    ((∃ s, ofSource source number column = .ok s) ↔
      ∃ line, IsLine source.toList number line ∧ 1 ≤ column ∧ column ≤ line.length + 1) ∧
    ((¬ ∃ line, IsLine source.toList number line) →
      ofSource source number column =
        .error (.invalidLineNumber number (source.toList.count '\n' + 1))) ∧
    ∀ line, IsLine source.toList number line →
      (¬ (1 ≤ column ∧ column ≤ line.length + 1) →
        ofSource source number column = .error (.invalidColumn number column line.length)) ∧
      ∀ s, ofSource source number column = .ok s →
        ∃ shown indent digits width, Trims line shown ∧ Indents shown (column - 1) indent ∧
          digits = (Text.decimal number).toList ∧ width = max 3 digits.length ∧
          lines s.format =
            [List.replicate (width - digits.length) ' ' ++ digits ++ [' ', '|', ' '] ++ shown,
              List.replicate width ' ' ++ [' ', '|', ' '] ++ indent ++ ['^']] := by
  refine ⟨exists_isLine_iff, ⟨?_, ?_⟩, fun h => ofSource_of_no_line h column,
    fun line h => ⟨?_, ?_⟩⟩
  · rintro ⟨s, hs⟩
    by_cases hline : ∃ line, IsLine source.toList number line
    · obtain ⟨line, hline⟩ := hline
      refine ⟨line, hline, ?_⟩
      by_contra hcolumn
      rw [ofSource_of_isLine hline, if_neg hcolumn] at hs
      cases hs
    · rw [ofSource_of_no_line hline] at hs
      cases hs
  · rintro ⟨line, hline, hcolumn⟩
    exact ⟨_, (ofSource_of_isLine hline column).trans (if_pos hcolumn)⟩
  · intro hcolumn
    exact (ofSource_of_isLine h column).trans (if_neg hcolumn)
  · intro s hs
    rw [ofSource_of_isLine h] at hs
    split at hs
    · cases hs
      obtain ⟨digits, width, hdigits, hwidth, hlines⟩ :=
        lines_format_point (oneLine_trimReturns h.oneLine) number column
      exact ⟨_, _, digits, width, trims_trimReturns line, indents_padding _ _, hdigits, hwidth,
        hlines⟩
    · cases hs

/-- The second of three lines begins with a tab and ends in two returns; the caret stands behind all
of it. -/
theorem cut_and_drawn_returns :
    IsLine "a\n\tb\r\r\nc".toList 2 ['\t', 'b', '\r', '\r'] ∧
    ofSource "a\n\tb\r\r\nc" 4 0 = .error (.invalidLineNumber 4 3) ∧
    ofSource "a\n\tb\r\r\nc" 2 6 = .error (.invalidColumn 2 6 4) ∧
    ∃ s shown indent, ofSource "a\n\tb\r\r\nc" 2 5 = .ok s ∧
      Trims ['\t', 'b', '\r', '\r'] shown ∧ Indents shown 4 indent ∧
      lines s.format = [[' ', ' ', '2', ' ', '|', ' '] ++ shown,
        [' ', ' ', ' ', ' ', '|', ' '] ++ indent ++ ['^']] := by
  have hline : IsLine "a\n\tb\r\r\nc".toList 2 ['\t', 'b', '\r', '\r'] :=
    ⟨['a', '\n'], ['\n', 'c'],
      ⟨by decide, by decide, .inr ⟨['a'], rfl⟩, .inr ⟨['c'], rfl⟩⟩, by decide⟩
  obtain ⟨hexists, -, hnone, -⟩ := cut_and_drawn "a\n\tb\r\r\nc" 4 0
  obtain ⟨-, -, -, hfar⟩ := cut_and_drawn "a\n\tb\r\r\nc" 2 6
  obtain ⟨-, hcut, -, hdrawn⟩ := cut_and_drawn "a\n\tb\r\r\nc" 2 5
  obtain ⟨s, hs⟩ := hcut.2 ⟨_, hline, by decide⟩
  obtain ⟨shown, indent, digits, width, htrims, hindents, rfl, rfl, hlines⟩ :=
    (hdrawn _ hline).2 s hs
  exact ⟨hline, hnone (mt hexists.1 (by decide)), (hfar _ hline).1 (by decide), s, shown, indent,
    hs, htrims, hindents, hlines⟩

end ExprLex.Diagnostic.Snippet
