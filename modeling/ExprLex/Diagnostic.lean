/-
  ExprLex.Diagnostic — messages about a source text, and the two ways in which lexing fails.

  A diagnostic is printed as a header with its level and code, the position counted from one,
  every snippet, and then the notes and the helps. A code is a series letter and a number of at
  least four digits. Printing a position is the only step that can fail: one more than a full
  counter is no number.

  A snippet is drawn as two lines with gutters of the same width: the source line, and a line of
  carets under the marked columns, which are counted from one. The padding before the carets
  repeats the tabs of the source line, so the carets stay under their columns whatever a tab is
  worth. A snippet cut out of a whole text drops the carriage returns at the end of its line,
  after the column has been checked against the full line.

  A string literal may run into the end of the input, and a place may have no token at all. Both
  failures carry their place, counted from zero, and the whole source, so that a diagnostic can
  show the line. Messages count from one.
-/

import ExprLex.Source
import ExprLex.Text.Quoted

namespace ExprLex.Diagnostic

/-! ## Codes -/

structure Code where
  series : String
  number : Nat
  deriving DecidableEq, Repr

namespace Code

def text (code : Code) : String :=
  code.series ++ Text.alignRight '0' 4 (Text.decimal code.number)

def labelled (code : Code) : String := "DiagnosticCode(" ++ code.text ++ ")"

def unexpectedCharacter : Code := ⟨"E", 1001⟩

def unterminatedString : Code := ⟨"E", 1002⟩

end Code

/-! ## Snippets -/

structure Snippet where
  line : String
  lineNumber : Nat
  startColumn : Nat
  /-- The first column behind the mark. -/
  endColumn : Nat
  label : Option String
  deriving DecidableEq, Repr

/-- A request for a line or a column that the text does not have. -/
inductive SnippetError where
  | invalidLineNumber (line maxLines : Nat)
  | invalidColumn (line column lineLength : Nat)
  deriving DecidableEq, Repr

namespace SnippetError

def message : SnippetError → String
  | .invalidLineNumber line maxLines =>
    "Invalid line number: " ++ Text.decimal line ++ " (source has " ++ Text.decimal maxLines
      ++ " lines)"
  | .invalidColumn line column lineLength =>
    "Invalid column: " ++ Text.decimal column ++ " (line " ++ Text.decimal line ++ " has "
      ++ Text.decimal lineLength ++ " characters)"

def labelled : SnippetError → String
  | .invalidLineNumber line maxLines =>
    "InvalidLineNumber \x7b line: " ++ Text.decimal line ++ ", max_lines: "
      ++ Text.decimal maxLines ++ " \x7d"
  | .invalidColumn line column lineLength =>
    "InvalidColumn \x7b line: " ++ Text.decimal line ++ ", column: " ++ Text.decimal column
      ++ ", line_len: " ++ Text.decimal lineLength ++ " \x7d"

end SnippetError

namespace Snippet

def point (line : String) (lineNumber column : Nat) : Snippet :=
  ⟨line, lineNumber, column, column, none⟩

def withLabel (s : Snippet) (label : String) : Snippet := { s with label := some label }

/-- The lines of a text; a line break ends one line and begins the next. -/
def lines (source : String) : List (List Char) := source.toList.splitOn '\n'

theorem length_splitOn (c : Char) (cs : List Char) : (cs.splitOn c).length = cs.count c + 1 := by
  induction cs with
  | nil => simp
  | cons d cs ih =>
    rw [List.splitOn] at ih ⊢
    rw [List.splitOnP_cons_eq_if_modifyHead, List.count_cons]
    split <;> simp_all

theorem length_lines (source : String) :
    (lines source).length = source.toList.count '\n' + 1 := length_splitOn ..

def trimReturns (line : List Char) : List Char := (line.reverse.dropWhile (· = '\r')).reverse

/-- The snippet for a line and a column of a text. The column may stand one behind the last
character, where a failure at the end of the input lands. -/
def ofSource (source : String) (lineNumber column : Nat) : Except SnippetError Snippet :=
  let all := lines source
  match (if lineNumber = 0 then none else all[lineNumber - 1]?) with
  | none => .error (.invalidLineNumber lineNumber all.length)
  | some line =>
    if column = 0 ∨ column > line.length + 1 then
      .error (.invalidColumn lineNumber column line.length)
    else .ok (point (String.ofList (trimReturns line)) lineNumber column)

/-- What stands before the first caret: the tabs of the line, and spaces for all else. -/
def padding (line : List Char) (width : Nat) : List Char :=
  ((line.take width).map fun c => if c = '\t' then '\t' else ' ').rightpad width ' '

def gutterWidth (s : Snippet) : Nat := max 3 (Text.decimal s.lineNumber).length

/-- The snippet as text, without a line break at its end. -/
def format (s : Snippet) : String :=
  let carets := String.ofList (List.replicate (max 1 (s.endColumn - s.startColumn)) '^')
  Text.alignRight ' ' s.gutterWidth (Text.decimal s.lineNumber) ++ " | " ++ s.line ++ "\n"
    ++ Text.alignRight ' ' s.gutterWidth "" ++ " | "
    ++ String.ofList (padding s.line.toList (s.startColumn - 1)) ++ carets
    ++ (match s.label with
        | some label => " " ++ label
        | none => "")

end Snippet

/-! ## Diagnostics -/

inductive Level where
  | error
  | warning
  | note
  | help
  deriving DecidableEq, Repr

def Level.name : Level → String
  | .error => "error"
  | .warning => "warning"
  | .note => "note"
  | .help => "help"

end ExprLex.Diagnostic

namespace ExprLex

structure Diagnostic where
  level : Diagnostic.Level
  message : String
  span : Span := .dummy
  code : Option Diagnostic.Code := none
  notes : List String := []
  helps : List String := []
  snippets : List Diagnostic.Snippet := []
  deriving DecidableEq, Repr

namespace Diagnostic

def withCode (d : Diagnostic) (code : Code) : Diagnostic := { d with code := some code }

def withSpan (d : Diagnostic) (span : Span) : Diagnostic := { d with span := span }

def addNote (d : Diagnostic) (note : String) : Diagnostic := { d with notes := d.notes ++ [note] }

def addHelp (d : Diagnostic) (help : String) : Diagnostic := { d with helps := d.helps ++ [help] }

def addSnippet (d : Diagnostic) (snippet : Snippet) : Diagnostic :=
  { d with snippets := d.snippets ++ [snippet] }

/-- A row and a column, counted from one. -/
def position (row col : Nat) : Except Fault String := do
  let row ← countUp row
  let col ← countUp col
  return Text.decimal row ++ ":" ++ Text.decimal col

def header (d : Diagnostic) : String :=
  d.level.name ++ (match d.code with
    | some code => "[" ++ code.text ++ "]"
    | none => "") ++ ": " ++ d.message ++ "\n"

def render (d : Diagnostic) : Except Fault String := do
  let place ← position d.span.line d.span.column
  return d.header ++ " --> " ++ place ++ "\n"
    ++ String.join (d.snippets.map fun snippet => snippet.format ++ "\n")
    ++ String.join (d.notes.map fun note => "  = note: " ++ note ++ "\n")
    ++ String.join (d.helps.map fun help => "  = help: " ++ help ++ "\n")

end Diagnostic

/-! ## Failures of lexing -/

inductive LexError where
  /-- A string literal without a closing quote; the place is that of the opening quote. -/
  | unterminatedString (row col : Nat) (source : String)
  /-- No token starts at a place; `character` is the one found there. -/
  | unrecognizedCharacter (row col : Nat) (character : Char) (source : String)
  deriving DecidableEq, Repr

namespace LexError

def row : LexError → Nat
  | .unterminatedString row _ _ => row
  | .unrecognizedCharacter row _ _ _ => row

def col : LexError → Nat
  | .unterminatedString _ col _ => col
  | .unrecognizedCharacter _ col _ _ => col

def source : LexError → String
  | .unterminatedString _ _ source => source
  | .unrecognizedCharacter _ _ _ source => source

def character? : LexError → Option Char
  | .unterminatedString .. => none
  | .unrecognizedCharacter _ _ character _ => some character

def code : LexError → Diagnostic.Code
  | .unterminatedString .. => .unterminatedString
  | .unrecognizedCharacter .. => .unexpectedCharacter

def message : LexError → Except Fault String
  | .unterminatedString row col _ => do
    let place ← Diagnostic.position row col
    return "unterminated string starting at " ++ place
  | .unrecognizedCharacter row col character _ => do
    let place ← Diagnostic.position row col
    return "no token matches the input at " ++ place ++ " starting with "
      ++ Text.quotedCharacter character

def summary : LexError → String
  | .unterminatedString .. => "unterminated string literal"
  | .unrecognizedCharacter _ _ character _ =>
    "no token matches the input starting with `" ++ Text.plainEscape character ++ "`"

def label : LexError → String
  | .unterminatedString .. => "string starts here"
  | .unrecognizedCharacter .. => "no token starts here"

def help : LexError → String
  | .unterminatedString .. => "close the string with an unescaped `\"`"
  | .unrecognizedCharacter .. =>
    "check this character and the ones after it; a number must end at whitespace, an operator or a symbol"

/-- The diagnostic of a failure. It shows the source line whenever the source has the place. -/
def toDiagnostic (e : LexError) : Diagnostic :=
  let bare : Diagnostic :=
    { level := .error, message := e.summary, span := .point e.row e.col, code := some e.code,
      helps := [e.help] }
  match Diagnostic.Snippet.ofSource e.source (e.row + 1) (e.col + 1) with
  | .ok snippet => bare.addSnippet (snippet.withLabel e.label)
  | .error _ => bare

end LexError

end ExprLex
