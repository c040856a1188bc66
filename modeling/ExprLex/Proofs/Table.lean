/-
  ExprLex.Proofs.Table — a table says what its tokens are, whatever their texts hold.

  The line of a token is a row of four cells and a line break, and no cell has a line break of its
  own, so cutting a table at its breaks gives back the rows (`splitOn_table`). The cells of a row are
  told apart by its spaces: the words in front of the text have none, and a column too narrow for its
  word still ends in one. The text is quoted, and undoing the quoting character by character ends at
  the closing quote (`readQuoted_quoted`). So there is a reader of tables (`readTable`) that answers
  what every token showed, wherever the source came from (`table_of_provides`), and two lists of
  tokens with the same table showed the same.
-/

import ExprLex.Proofs.Answering
import ExprLex.Proofs.Drawing
import ExprLex.Proofs.Reading
import ExprLex.Proofs.Safety
import ExprLex.Proofs.Uncommenting

namespace ExprLex

open Text (Reader)

namespace Text

/-! ## Undoing the quotes -/

/-- The character that a letter stands for behind a backslash. -/
def unescape? : Char → Option Char
  | '0' => some '\x00'
  | 't' => some '\t'
  | 'n' => some '\n'
  | 'r' => some '\r'
  | '\\' => some '\\'
  | '"' => some '"'
  | _ => none

mutual

/-- The characters of a quoted text through its closing quote. -/
def readQuoted : Reader (List Char)
  | [] => none
  | '"' :: rest => some ([], rest)
  | '\\' :: 'u' :: '{' :: rest => readCodePoint 0 rest
  | '\\' :: c :: rest => do
    let c ← unescape? c
    let (text, rest) ← readQuoted rest
    return (c :: text, rest)
  | c :: rest => do
    let (text, rest) ← readQuoted rest
    return (c :: text, rest)

/-- The digits of a code point behind those of `n`, its closing brace, and the characters behind it. -/
def readCodePoint (n : Nat) : Reader (List Char)
  | [] => none
  | '}' :: rest => do
    let c ← charAt? n
    let (text, rest) ← readQuoted rest
    return (c :: text, rest)
  | digit :: rest => do
    let d ← digitValue? digit
    readCodePoint (n * 16 + d) rest

end

variable {c : Char} {text rest after : List Char}

theorem readCodePoint_digits {digits : List Char} (hd : ∀ c ∈ digits, ∃ d < 16, c = Nat.digitChar d)
    (n : Nat) (rest : List Char) : readCodePoint n (digits ++ rest) =
      readCodePoint (digits.foldl (fun n c => n * 16 + (digitValue? c).getD 0) n) rest := by
  induction digits generalizing n with
  | nil => rfl
  | cons c digits ih =>
    obtain ⟨⟨d, hlt, rfl⟩, hdigits⟩ := List.forall_mem_cons.1 hd
    have hvalue := digitValue?_digitChar hlt
    have hbrace : d.digitChar ≠ '}' := Nat.digitChar_ne '}' (by decide)
    rw [List.cons_append, List.foldl_cons, ← ih hdigits, hvalue, readCodePoint, hvalue]
    · rfl
    · exact hbrace

/-- A code point in braces stands for its character. -/
theorem readQuoted_codePointEscape (c : Char) (h : readQuoted rest = some (text, after)) :
    readQuoted (codePointEscape c ++ rest) = some (c :: text, after) := by
  have hdigits : readCodePoint 0 (hexadecimal c.toNat ++ '}' :: rest) =
      readCodePoint (ofDigits 16 (hexadecimal c.toNat)) ('}' :: rest) :=
    readCodePoint_digits (fun _ => exists_digit_of_mem (by decide)) 0 _
  rw [hexadecimal, ofDigits_toDigits (by decide) (by decide)] at hdigits
  simp only [codePointEscape, List.cons_append, List.nil_append, List.append_assoc]
  rw [readQuoted, hexadecimal, hdigits, readCodePoint, charAt?_toNat, h]
  rfl

theorem readQuoted_letter {letter : Char} (hc : unescape? letter = some c)
    (h : readQuoted rest = some (text, after)) :
    readQuoted ('\\' :: letter :: rest) = some (c :: text, after) := by
  have hu : letter ≠ 'u' := by
    rintro rfl
    cases hc
  rw [readQuoted, hc, h]
  · rfl
  · exact fun _ hl _ => hu hl

theorem readQuoted_plain (hquote : c ≠ '"') (hslash : c ≠ '\\')
    (h : readQuoted rest = some (text, after)) : readQuoted (c :: rest) = some (c :: text, after) := by
  rw [readQuoted, h]
  · rfl
  · exact hquote
  · exact fun _ hc _ => hslash hc
  · exact fun _ _ hc _ => hslash hc

/-- Whatever the character is, its quoted form stands for it. -/
theorem readQuoted_quotedChar (c : Char) (h : readQuoted rest = some (text, after)) :
    readQuoted (quotedChar '"' c ++ rest) = some (c :: text, after) := by
  unfold quotedChar
  -- the characters that a letter stands for
  iterate 6
    split
    · subst c
      exact readQuoted_letter rfl h
  split
  · exact readQuoted_codePointEscape c h
  · rename_i hslash hquote _
    exact readQuoted_plain hquote hslash h

theorem readQuoted_quoted (s rest : List Char) :
    readQuoted (s.flatMap (quotedChar '"') ++ '"' :: rest) = some (s, rest) := by
  induction s with
  | nil => rfl
  | cons c s ih =>
    rw [List.flatMap_cons, List.append_assoc]
    exact readQuoted_quotedChar c ih

end Text

namespace Listing

/-! ## Rows -/

/-- The line of a token without its line break. -/
def row (t : Token) : List Char :=
  (Text.alignLeft 8 (Text.decimal (t.row + 1) ++ ":" ++ Text.decimal (t.col + 1))).toList ++ ' ' ::
    ((Text.alignLeft 10 t.category.name).toList ++ ' ' ::
      ((Text.alignLeft 26 t.kind.name).toList ++ ' ' :: (Text.quoted t.text).toList))

/-- The lines of the tokens, one behind the other. -/
def table (tokens : List Token) : List Char := tokens.flatMap fun t => row t ++ ['\n']

theorem toList_alignLeft (width : Nat) (s : String) :
    (Text.alignLeft width s).toList = s.toList ++ List.replicate (width - s.toList.length) ' ' := by
  rw [Text.alignLeft, String.toList_ofList, List.rightpad]

theorem tokenLine_of_position {t : Token} (h : Diagnostic.position t.row t.col =
    .ok (Text.decimal (t.row + 1) ++ ":" ++ Text.decimal (t.col + 1))) :
    tokenLine t = .ok (String.ofList (row t ++ ['\n'])) := by
  rw [tokenLine, h]
  refine congrArg Except.ok (String.toList_inj.1 ?_)
  simp [row]

/-- Where there is a position, it counts from one. -/
theorem eq_position {row col : Nat} {position : String}
    (h : Diagnostic.position row col = .ok position) :
    position = Text.decimal (row + 1) ++ ":" ++ Text.decimal (col + 1) := by
  obtain ⟨n, hrow, h⟩ := exists_of_bind_eq_ok h
  obtain ⟨k, hcol, h⟩ := exists_of_bind_eq_ok h
  obtain ⟨rfl, -⟩ := countUp_eq_ok_iff.1 hrow
  obtain ⟨rfl, -⟩ := countUp_eq_ok_iff.1 hcol
  exact (Except.ok.inj h).symm

/-- A line that is drawn at all is the row of its token. -/
theorem eq_row_of_tokenLine {t : Token} {line : String} (h : tokenLine t = .ok line) :
    line.toList = row t ++ ['\n'] := by
  obtain ⟨position, hposition, -⟩ := exists_of_bind_eq_ok h
  rw [tokenLine_of_position (eq_position hposition ▸ hposition)] at h
  rw [← Except.ok.inj h, String.toList_ofList]

theorem flatMap_of_mapM {tokens : List Token} {lines : List String}
    (h : tokens.mapM tokenLine = .ok lines) : lines.flatMap String.toList = table tokens := by
  induction tokens generalizing lines with
  | nil =>
    cases h
    rfl
  | cons t tokens ih =>
    rw [List.mapM_cons] at h
    obtain ⟨line, hline, h⟩ := exists_of_bind_eq_ok h
    obtain ⟨more, hmore, h⟩ := exists_of_bind_eq_ok h
    obtain rfl := Except.ok.inj h
    rw [List.flatMap_cons, eq_row_of_tokenLine hline, ih hmore, table, table, List.flatMap_cons]

/-- A table that is drawn at all is the lines of its tokens. -/
theorem eq_table_of_tokenTable {tokens : List Token} {text : String}
    (h : tokenTable tokens = .ok text) : text.toList = table tokens := by
  obtain ⟨lines, hlines, h⟩ := exists_of_bind_eq_ok h
  rw [← Except.ok.inj h, String.toList_join, flatMap_of_mapM hlines]

theorem tokenTable_of_lines {tokens : List Token}
    (h : ∀ t ∈ tokens, tokenLine t = .ok (String.ofList (row t ++ ['\n']))) :
    tokenTable tokens = .ok (String.ofList (table tokens)) := by
  obtain ⟨lines, hlines⟩ := mapM_ok fun t ht => ⟨_, h t ht⟩
  have htable : tokenTable tokens = .ok (String.join lines) := by
    rw [tokenTable, hlines]
    rfl
  rw [htable, ← eq_table_of_tokenTable htable, String.ofList_toList]

/-! ## Rows are lines -/

theorem oneLine_alignLeft {s : String} (h : OneLine s.toList) (width : Nat) :
    OneLine (Text.alignLeft width s).toList := by
  rw [toList_alignLeft]
  refine h.append fun hmem => ?_
  cases List.eq_of_mem_replicate hmem

/-- A name that can stand in a column. -/
structure IsWord (name : String) : Prop where
  ne_nil : name.toList ≠ []
  space : ' ' ∉ name.toList
  oneLine : OneLine name.toList

theorem isWord_category (category : Category) : IsWord category.name := by
  cases category <;> exact ⟨by decide, by decide, by decide⟩

theorem isWord_kind (k : Kind) : IsWord k.name := by
  have check : ∀ k ∈ Kind.all,
      k.name.toList ≠ [] ∧ ' ' ∉ k.name.toList ∧ OneLine k.name.toList := by decide
  obtain ⟨hne, hspace, hline⟩ := check k k.mem_all
  exact ⟨hne, hspace, hline⟩

theorem oneLine_row (t : Token) : OneLine (row t) := by
  have hplace : OneLine (Text.decimal (t.row + 1) ++ ":" ++ Text.decimal (t.col + 1)).toList := by
    rw [String.toList_append, String.toList_append]
    exact ((OneLine.decimal _).append (by decide)).append (.decimal _)
  have hcategory := oneLine_alignLeft (isWord_category t.category).oneLine 10
  have hkind := oneLine_alignLeft (isWord_kind t.kind).oneLine 26
  have hspace : ' ' ≠ '\n' := by decide
  exact (oneLine_alignLeft hplace 8).append <| .cons hspace <| hcategory.append <|
    .cons hspace <| hkind.append <| .cons hspace (.quoted t.text)

theorem table_cons (t : Token) (tokens : List Token) :
    table (t :: tokens) = row t ++ '\n' :: table tokens := by
  simp [table, List.flatMap_cons]

theorem splitOn_table (tokens : List Token) :
    (table tokens).splitOn '\n' = tokens.map row ++ [[]] := by
  induction tokens with
  | nil => rfl
  | cons t tokens ih =>
    rw [table_cons, splitOn_cons_line (oneLine_row t), ih, List.map_cons, List.cons_append]

/-! ## Reading rows -/

/-- What the line of a token shows; the place is counted from one. -/
structure Cells where
  row : Nat
  col : Nat
  category : Category
  kind : Kind
  text : String
  deriving DecidableEq, Repr

/-- What a token shows. -/
def cells (t : Token) : Cells := ⟨t.row + 1, t.col + 1, t.category, t.kind, t.text⟩

def readNumber : Reader Nat := return Text.ofDigits 10 (← Reader.readSome Char.isDigit)

/-- A name and the spaces behind it. -/
def readName {α : Type} (ofName? : String → Option α) : Reader α := do
  let name ← Reader.readWhile (· ≠ ' ')
  let _ ← Reader.readWhile (· = ' ')
  match ofName? (String.ofList name) with
  | some a => return a
  | none => Reader.refuse

/-- The line of a token without its line break. -/
def readRow : Reader Cells := do
  let row ← readNumber
  Reader.exactly ":".toList
  let col ← readNumber
  let _ ← Reader.readWhile (· = ' ')
  let category ← readName Category.ofName?
  let kind ← readName Kind.ofName?
  Reader.exactly ['"']
  let text ← Text.readQuoted
  return ⟨row, col, category, kind, String.ofList text⟩

/-- A table, cut at its line breaks. -/
def readTable (text : String) : Option (List Cells) :=
  (text.toList.splitOn '\n').dropLast.mapM fun line => readRow.run (String.ofList line)

theorem readNumber_append (n : Nat) {rest : List Char} (hstop : StopsAt Char.isDigit rest) :
    readNumber ((Text.decimal n).toList ++ rest) = some (n, rest) := by
  have hdigits : Reader.readSome Char.isDigit ((Text.decimal n).toList ++ rest) =
      some (Nat.toDigits 10 n, rest) := by
    rw [Text.decimal, String.toList_ofList]
    exact Reader.readSome_append Nat.toDigits_ne_nil Text.isDigit_of_mem_decimal hstop
  rw [readNumber, Reader.bind_of_eq_some hdigits, Text.ofDigits_toDigits (by decide) (by decide)]
  rfl

/-- The spaces that fill a column and the one behind it. -/
theorem readSpaces_append (count : Nat) {rest : List Char} (hstop : StopsAt (· = ' ') rest) :
    Reader.readWhile (· = ' ') (List.replicate count ' ' ++ ' ' :: rest) =
      some (List.replicate count ' ' ++ [' '], rest) := by
  have hrun : ∀ c ∈ List.replicate count ' ' ++ [' '], decide (c = ' ') = true := by
    intro c hc
    rcases List.mem_append.1 hc with hc | hc
    · exact decide_eq_true (List.eq_of_mem_replicate hc)
    · exact decide_eq_true (List.mem_singleton.1 hc)
  have hread := Reader.readWhile_append hrun hstop
  rwa [List.append_assoc] at hread

theorem stopsAt_fill {p : Char → Bool} (hp : p ' ' = false) (count : Nat) (rest : List Char) :
    StopsAt p (List.replicate count ' ' ++ ' ' :: rest) := by
  cases count <;> exact stopsAt_cons.2 hp

theorem readName_append {α : Type} {ofName? : String → Option α} {name : String} {a : α}
    (hname : ofName? name = some a) (hw : IsWord name) (width : Nat) {rest : List Char}
    (hstop : StopsAt (· = ' ') rest) :
    readName ofName? ((Text.alignLeft width name).toList ++ ' ' :: rest) = some (a, rest) := by
  have hword : ∀ c ∈ name.toList, decide (c ≠ ' ') = true := by
    intro c hc
    exact decide_eq_true fun h => hw.space (h ▸ hc)
  have hread := Reader.readWhile_append hword
    (stopsAt_fill (by decide) (width - name.toList.length) rest)
  rw [toList_alignLeft, List.append_assoc, readName, Reader.bind_of_eq_some hread,
    Reader.bind_of_eq_some (readSpaces_append _ hstop), String.ofList_toList, hname]
  rfl

theorem stopsAt_column {name : String} (hw : IsWord name) (width : Nat) (rest : List Char) :
    StopsAt (· = ' ') ((Text.alignLeft width name).toList ++ rest) := by
  have hstop : StopsAt (· = ' ') name.toList := by
    intro d hd
    exact decide_eq_false fun h => hw.space (h ▸ List.mem_of_mem_head? hd)
  rw [toList_alignLeft, List.append_assoc]
  exact hstop.append_of_ne_nil hw.ne_nil _

/-- The row of a token shows its cells. -/
theorem readRow_row (t : Token) : readRow (row t) = some (cells t, []) := by
  have hcategory := isWord_category t.category
  have hkind := isWord_kind t.kind
  have hcolon : ∀ rest, StopsAt Char.isDigit (":".toList ++ rest) := fun _ => stopsAt_cons.2 (by decide)
  have hquote : ∀ rest, StopsAt (· = ' ') (['"'] ++ rest) := fun _ => stopsAt_cons.2 (by decide)
  have hquoted : (Text.quoted t.text).toList =
      ['"'] ++ (t.text.toList.flatMap (Text.quotedChar '"') ++ '"' :: []) := by
    simp [Text.quoted]
  rw [row, toList_alignLeft, String.toList_append, String.toList_append, hquoted]
  simp only [List.append_assoc]
  rw [readRow, Reader.bind_of_eq_some (readNumber_append _ (hcolon _)),
    Reader.bind_of_eq_some (Reader.exactly_append ":".toList _),
    Reader.bind_of_eq_some (readNumber_append _ (stopsAt_fill (by decide) _ _)),
    Reader.bind_of_eq_some (readSpaces_append _ (stopsAt_column hcategory _ _)),
    Reader.bind_of_eq_some (readName_append t.category.ofName?_name hcategory _
      (stopsAt_column hkind _ _)),
    Reader.bind_of_eq_some (readName_append t.kind.ofName?_name hkind _ (hquote _)),
    Reader.bind_of_eq_some (Reader.exactly_append ['"'] _),
    Reader.bind_of_eq_some (Text.readQuoted_quoted _ _), String.ofList_toList]
  rfl

theorem readTable_table (tokens : List Token) :
    readTable (String.ofList (table tokens)) = some (tokens.map cells) := by
  rw [readTable, String.toList_ofList, splitOn_table, List.dropLast_concat]
  induction tokens with
  | nil => rfl
  | cons t tokens ih =>
    rw [List.map_cons, List.mapM_cons, Reader.run, String.toList_ofList, readRow_row, ih]
    rfl

/-- Lists of tokens with the same table show the same cells. -/
theorem forall₂_cells {a b : List Token} {text : String} (ha : tokenTable a = .ok text)
    (hb : tokenTable b = .ok text) : List.Forall₂ (fun s t => cells s = cells t) a b := by
  have hread := readTable_table a
  rw [← eq_table_of_tokenTable ha, eq_table_of_tokenTable hb, readTable_table] at hread
  have hcells : List.Forall₂ (· = ·) (a.map cells) (b.map cells) := by
    rw [List.forall₂_eq_eq_eq]
    exact (Option.some.inj hread).symm
  exact List.forall₂_map_right_iff.1 (List.forall₂_map_left_iff.1 hcells)

theorem count_table (tokens : List Token) : (table tokens).count '\n' = tokens.length := by
  induction tokens with
  | nil => rfl
  | cons t tokens ih =>
    rw [table_cons, List.count_append, List.count_cons_self, ih, List.count_eq_zero.2 (oneLine_row t)]
    simp

/-- What a listing shows of the tokens of a source: all, or those that are no comments. -/
theorem filter_visible {source : String} {settings : LexerSettings} {tokens : List Token}
    (h : tokenize source settings = .ok (.ok tokens)) (strip : Bool) :
    (tokens.filter fun t => !strip || t.isVisible) =
      tokens.filter fun t => !strip || decide (t.kind ≠ .comment) := by
  refine List.filter_congr fun t ht => ?_
  obtain ⟨lexemes, hl, rfl⟩ := exists_lexing_of_tokenize h
  obtain ⟨earlier, l, -, rfl, -⟩ := exists_lexeme_of_mem hl ht
  rw [Lexeme.isVisible_token]
  rfl

/-! ## Tables of runs -/

section
variable {m : Type → Type} [Monad m] [LawfulMonad m] {host : Host m} {input : Tokenize.Input}
  {source : String} {settings : LexerSettings} {tokens : List Token}

theorem tokenLine_of_tokenize (hshort : source.length < counterBound)
    (htokens : tokenize source settings = .ok (.ok tokens)) :
    ∀ t ∈ tokens, tokenLine t = .ok (String.ofList (row t ++ ['\n'])) := by
  intro t ht
  obtain ⟨lexemes, hl, rfl⟩ := exists_lexing_of_tokenize htokens
  exact tokenLine_of_position (position_of_inFront hshort (inFront_of_lexing hl rfl t ht))

/-- The table of a source has the rows of its tokens, or of those that are no comments. -/
theorem tokens_table (hshort : source.length < counterBound)
    (htokens : tokenize source settings = .ok (.ok tokens)) (strip : Bool) :
    Listing.tokens .table strip tokens =
      .ok (String.ofList (table (tokens.filter fun t => !strip || t.kind ≠ .comment))) := by
  rw [← filter_visible htokens]
  exact tokenTable_of_lines fun t ht =>
    tokenLine_of_tokenize hshort htokens t (List.mem_filter.1 ht).1

/-- Wherever the source comes from, its table can be read back, cell by cell. -/
theorem table_of_provides (hshort : source.length < counterBound)
    (hsource : Tokenize.Provides host source input)
    (htokens : tokenize source settings = .ok (.ok tokens)) (strip : Bool) :
    ∃ text, Session.Answers (Tokenize.run host ⟨input, .table, strip, settings⟩) (.tokens text) ∧
      readTable text = some ((tokens.filter fun t => !strip || t.kind ≠ .comment).map cells) :=
  ⟨_, Tokenize.run_answers hsource.readSource htokens (tokens_table hshort htokens strip),
    readTable_table _⟩

/-- The table of a source that comes to tokens has one line for each of them, or for those that are
no comments, which ends at its only line break; leaving out the comments changes no other line. The
line shows the place, the kind and the text of its token so that they can be read back: tables are
equal only if they show the same. -/
theorem table_faithful (hshort : source.length < counterBound)
    (hread : Session.Answers (Tokenize.readSource host input) source)
    (htokens : tokenize source settings = .ok (.ok tokens)) :
    (∀ strip, ∃ text,
      Session.Answers (Tokenize.run host ⟨input, .table, strip, settings⟩) (.tokens text) ∧
      text.toList =
        (tokens.filter fun t => !strip || t.kind ≠ .comment).flatMap (fun t => row t ++ ['\n']) ∧
      text.toList.count '\n' = (tokens.filter fun t => !strip || t.kind ≠ .comment).length) ∧
    (∀ t ∈ tokens, tokenLine t = .ok (String.ofList (row t ++ ['\n'])) ∧ OneLine (row t)) ∧
    ∀ a b text, tokenTable a = .ok text → tokenTable b = .ok text →
      List.Forall₂ (fun s t => s.row = t.row ∧ s.col = t.col ∧ s.kind = t.kind ∧ s.text = t.text)
        a b := by
  have hlines := tokenLine_of_tokenize hshort htokens
  refine ⟨fun strip => ?_, fun t ht => ⟨hlines t ht, oneLine_row t⟩, fun a b text ha hb => ?_⟩
  · refine ⟨_, Tokenize.run_answers hread htokens (tokens_table hshort htokens strip), ?_, ?_⟩
    · rw [String.toList_ofList, table]
    · rw [String.toList_ofList, count_table]
  · refine (forall₂_cells ha hb).imp fun s t h => ?_
    obtain ⟨hrow, hcol, -, hkind, htext⟩ := Cells.mk.inj h
    exact ⟨Nat.succ.inj hrow, Nat.succ.inj hcol, hkind, htext⟩

end

/-- A string with a line break and a quote, and a comment that is left out. -/
theorem table_faithful_comment : ∃ tokens, "\"\n\\\"\" # x".length < counterBound ∧
    Session.Answers (Tokenize.readSource (MemorySystem.host {}) (.expression "\"\n\\\"\" # x"))
      "\"\n\\\"\" # x" ∧
    tokenize "\"\n\\\"\" # x" = .ok (.ok tokens) ∧
    ∃ text, Session.Answers
        (Tokenize.run (MemorySystem.host {}) ⟨.expression "\"\n\\\"\" # x", .table, true, {}⟩)
        (.tokens text) ∧
      text.toList = row ⟨.string, .value, "\n\"", 0, 0, ⟨0, 5, 0, 0⟩⟩ ++ ['\n'] := by
  have hshort : "\"\n\\\"\" # x".length < counterBound := by decide
  have hread := Tokenize.readSource_expression (MemorySystem.host {}) "\"\n\\\"\" # x"
  have htokens : tokenize "\"\n\\\"\" # x" = .ok (.ok
      [⟨.string, .value, "\n\"", 0, 0, ⟨0, 5, 0, 0⟩⟩,
        ⟨.comment, .invisible, " x", 1, 4, ⟨6, 9, 1, 4⟩⟩]) := by
    decide +kernel
  obtain ⟨text, hrun, htext, -⟩ := (table_faithful hshort hread htokens).1 true
  exact ⟨_, hshort, hread, htokens, text, hrun, htext⟩

end Listing

end ExprLex
