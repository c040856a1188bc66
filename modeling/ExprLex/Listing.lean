/-
  ExprLex.Listing — token streams and the catalog of token kinds as text.

  A table has a line per token: its position counted from one, its category, its kind and its
  quoted text, the first three in columns. Quoting leaves no line break in a text, so lines and
  tokens correspond. The JSON form is an array of objects with every field of the token.

  The kinds are listed in the order in which they are tried, or only those of the value category.
  A table numbers them from one and shows a dash where the text of a kind is not fixed; the JSON
  form has null there.
-/

import ExprLex.Catalog
import ExprLex.Json

namespace ExprLex.Listing

/-! ## Formats -/

inductive Format where
  | table
  | json
  deriving DecidableEq, Repr

namespace Format

def name : Format → String
  | table => "table"
  | json => "json"

/-- The format of a name, which must be written exactly so. -/
def ofName? (s : String) : Option Format := [table, json].find? fun f => f.name = s

end Format

end ExprLex.Listing

namespace ExprLex

/-! ## Documents -/

def Span.toJson (s : Span) : Json :=
  .ofMembers [("start", .ofNat s.start), ("end", .ofNat s.stop), ("line", .ofNat s.line),
    ("column", .ofNat s.column)]

def Token.toJson (t : Token) : Json :=
  .ofMembers [("kind", .ofText t.kind.name), ("category", .ofText t.category.name),
    ("text", .ofText t.text), ("row", .ofNat t.row), ("col", .ofNat t.col),
    ("span", t.span.toJson)]

def Kind.toJson (k : Kind) : Json :=
  .ofMembers [("kind", .ofText k.name), ("category", .ofText k.category.name),
    ("representation", match k.representation? with
      | some text => .ofText text
      | none => .null)]

namespace Listing

def tokenLine (t : Token) : Except Fault String := do
  let position ← Diagnostic.position t.row t.col
  return Text.alignLeft 8 position ++ " " ++ Text.alignLeft 10 t.category.name ++ " "
    ++ Text.alignLeft 26 t.kind.name ++ " " ++ Text.quoted t.text ++ "\n"

def tokenTable (tokens : List Token) : Except Fault String := do
  return String.join (← tokens.mapM tokenLine)

def document (items : List Json) : String := (Json.array items).pretty ++ "\n"

/-- A listing of tokens, on request without the ones a parser skips. -/
def tokens (format : Format) (stripComments : Bool) (all : List Token) : Except Fault String :=
  let shown := all.filter fun t => !stripComments || t.isVisible
  match format with
  | .table => tokenTable shown
  | .json => return document (shown.map Token.toJson)

def kindLine (number : Nat) (k : Kind) : String :=
  Text.alignRight ' ' 2 (Text.decimal number) ++ "  " ++ Text.alignLeft 10 k.category.name ++ " "
    ++ Text.alignLeft 26 k.name ++ " " ++ k.representation?.getD "-" ++ "\n"

def kinds (format : Format) (valuesOnly : Bool) : String :=
  let shown := if valuesOnly then Kind.values else Kind.trialOrder
  match format with
  | .table => String.join (shown.mapIdx fun index k => kindLine (index + 1) k)
  | .json => document (shown.map Kind.toJson)

end Listing

end ExprLex
