/-
  ExprLex.Config.Basic — what a configuration file may set, and how it is read.

  A configuration file has the tables `lexer` and `output`; everything it leaves out has its
  default, and unknown keys are ignored. A table of settings may also be written as an array of
  its values in order, of which those beyond the known ones are ignored, and a date counts as a
  table without known keys. A format is its name, or a table whose only key is the name and holds
  nothing.
-/

import ExprLex.Listing
import ExprLex.Toml

namespace ExprLex

/-! ## Settings -/

structure OutputSettings where
  format : Listing.Format := .table
  stripComments : Bool := false
  deriving DecidableEq, Repr

structure Config where
  lexer : LexerSettings := {}
  output : OutputSettings := {}
  deriving DecidableEq, Repr

def singleChar? (s : String) : Option Char :=
  match s.toList with
  | [c] => some c
  | _ => none

/-! ## Reading -/

/-- The value of each of the known keys of a table of settings. -/
def Toml.fields? (keys : List String) : Toml → Option (String → Option Toml)
  | .table _ entries => some (Toml.find? entries)
  | .array items => some (Toml.find? (keys.zip items))
  | .tables elements => some (Toml.find? (keys.zip (elements.map (.table .header))))
  | .dateTime _ => some fun _ => none
  | _ => none

def Toml.orDefault (value : Option Toml) (default : α) (read : Toml → Option α) : Option α :=
  match value with
  | none => some default
  | some value => read value

def Toml.boolean? : Toml → Option Bool
  | .boolean b => some b
  | _ => none

def LexerSettings.whitespaceOfToml? : Toml → Option (List Char)
  | .array items => items.mapM fun item =>
    match item with
    | .string text => singleChar? text
    | _ => none
  | _ => none

def LexerSettings.ofToml? (value : Toml) : Option LexerSettings := do
  let field ← value.fields? ["whitespace"]
  let whitespace ←
    Toml.orDefault (field "whitespace") ({} : LexerSettings).whitespace whitespaceOfToml?
  return { whitespace }

def Listing.Format.ofToml? : Toml → Option Listing.Format
  | .string name => Listing.Format.ofName? name
  | .table _ [(name, .table _ [])] => Listing.Format.ofName? name
  | .table _ [(name, .array [])] => Listing.Format.ofName? name
  | _ => none

def OutputSettings.ofToml? (value : Toml) : Option OutputSettings := do
  let field ← value.fields? ["format", "strip_comments"]
  let format ← Toml.orDefault (field "format") .table Listing.Format.ofToml?
  let stripComments ← Toml.orDefault (field "strip_comments") false Toml.boolean?
  return { format, stripComments }

namespace Config

def ofToml? (entries : Toml.Entries) : Option Config := do
  let lexer ← Toml.orDefault (Toml.find? entries "lexer") {} LexerSettings.ofToml?
  let output ← Toml.orDefault (Toml.find? entries "output") {} OutputSettings.ofToml?
  return { lexer, output }

inductive ParseError where
  | notToml
  | wrongValue
  deriving DecidableEq, Repr

def ParseError.message : ParseError → String
  | notToml => "the text is not a TOML document"
  | wrongValue => "a setting has a value of the wrong kind"

def parse (text : String) : Except ParseError Config :=
  match Toml.parse text with
  | none => .error .notToml
  | some entries =>
    match ofToml? entries with
    | none => .error .wrongValue
    | some config => .ok config

end Config

end ExprLex
