/-
  ExprLex.Token — the closed set of token kinds, and tokens.

  There are forty-two kinds in six categories. `Kind.all` lists the kinds in declaration order,
  and a kind's index is its place in that list; `Category.all` lists the categories in the order
  in which they are tried at a place of the source.

  A token carries its text in normal form: a fixed spelling in its canonical case, a string
  without quotes and with its escapes resolved, a fraction with a leading zero, a comment without
  its mark. The span still covers every byte of the source that was read for it.
-/

import ExprLex.Source
import ExprLex.Text.Quoted

namespace ExprLex

/-! ## Categories -/

/-- What a token is used for. -/
inductive Category where
  | literal
  | keyword
  | value
  | operator
  | symbol
  /-- Tokens that a parser skips. -/
  | invisible
  deriving DecidableEq, Repr

namespace Category

/-- The categories, the first one tried first. -/
def all : List Category := [.literal, .keyword, .value, .operator, .symbol, .invisible]

def name : Category → String
  | .literal => "LITERAL"
  | .keyword => "KEYWORD"
  | .value => "VALUE"
  | .operator => "OPERATOR"
  | .symbol => "SYMBOL"
  | .invisible => "INVISIBLE"

end Category

/-! ## Kinds -/

inductive Kind where
  | trueWord
  | falseWord
  | nullWord
  | identifier
  | long
  | double
  | string
  | exponent
  | multiplication
  | division
  | modulo
  | plus
  | minus
  | greaterThan
  | greaterThanOrEqual
  | lessThan
  | lessThanOrEqual
  | valueEquals
  | valueNotEquals
  | valueEqualsExact
  | valueNotEqualsExact
  | concatenate
  | notWord
  | andWord
  | orWord
  | ifWord
  | thenWord
  | elseWord
  | arrow
  | thinArrow
  | assign
  | nullCoalesce
  | parenthesisOpen
  | optionalParenthesisOpen
  | parenthesisClose
  | comma
  | dot
  | optionalDot
  | bracketOpen
  | optionalBracketOpen
  | bracketClose
  | comment
  deriving DecidableEq, Repr

namespace Kind

/-- Every kind once, in declaration order. -/
def all : List Kind := [
  trueWord, falseWord, nullWord, identifier, long, double, string,
  exponent, multiplication, division, modulo, plus, minus, greaterThan, greaterThanOrEqual,
  lessThan, lessThanOrEqual, valueEquals, valueNotEquals, valueEqualsExact, valueNotEqualsExact,
  concatenate, notWord, andWord, orWord, ifWord, thenWord, elseWord, arrow, thinArrow, assign,
  nullCoalesce, parenthesisOpen, optionalParenthesisOpen, parenthesisClose, comma, dot,
  optionalDot, bracketOpen, optionalBracketOpen, bracketClose, comment]

theorem mem_all (k : Kind) : k ∈ all := by cases k <;> decide

def name : Kind → String
  | trueWord => "TRUE"
  | falseWord => "FALSE"
  | nullWord => "NULL"
  | identifier => "IDENTIFIER"
  | long => "LONG"
  | double => "DOUBLE"
  | string => "STRING"
  | exponent => "EXPONENT"
  | multiplication => "MULTIPLICATION"
  | division => "DIVISION"
  | modulo => "MODULO"
  | plus => "PLUS"
  | minus => "MINUS"
  | greaterThan => "GREATER_THAN"
  | greaterThanOrEqual => "GREATER_THAN_OR_EQUAL"
  | lessThan => "LESS_THAN"
  | lessThanOrEqual => "LESS_THAN_OR_EQUAL"
  | valueEquals => "VALUE_EQUALS"
  | valueNotEquals => "VALUE_NOT_EQUALS"
  | valueEqualsExact => "VALUE_EQUALS_EXACT"
  | valueNotEqualsExact => "VALUE_NOT_EQUALS_EXACT"
  | concatenate => "CONCATENATE"
  | notWord => "BOOL_NOT"
  | andWord => "BOOL_AND"
  | orWord => "BOOL_OR"
  | ifWord => "KW_IF"
  | thenWord => "KW_THEN"
  | elseWord => "KW_ELSE"
  | arrow => "ARROW"
  | thinArrow => "THIN_ARROW"
  | assign => "ASSIGN"
  | nullCoalesce => "NULL_COALESCE"
  | parenthesisOpen => "PARENTHESIS_OPEN"
  | optionalParenthesisOpen => "OPTIONAL_PARENTHESIS_OPEN"
  | parenthesisClose => "PARENTHESIS_CLOSE"
  | comma => "COMMA"
  | dot => "DOT"
  | optionalDot => "OPTIONAL_DOT"
  | bracketOpen => "BRACKET_OPEN"
  | optionalBracketOpen => "OPTIONAL_BRACKET_OPEN"
  | bracketClose => "BRACKET_CLOSE"
  | comment => "COMMENT"

def ofName? (s : String) : Option Kind := all.find? fun k => k.name = s

theorem ofName?_name (k : Kind) : ofName? k.name = some k := by cases k <;> decide

def index (k : Kind) : Nat := all.idxOf k

def category : Kind → Category
  | trueWord | falseWord | nullWord => .literal
  | notWord | andWord | orWord | ifWord | thenWord | elseWord => .keyword
  | identifier | long | double | string => .value
  | exponent | multiplication | division | modulo | plus | minus | greaterThan
  | greaterThanOrEqual | lessThan | lessThanOrEqual | valueEquals | valueNotEquals
  | valueEqualsExact | valueNotEqualsExact | concatenate | arrow | thinArrow | assign
  | nullCoalesce => .operator
  | parenthesisOpen | optionalParenthesisOpen | parenthesisClose | comma | dot | optionalDot
  | bracketOpen | optionalBracketOpen | bracketClose => .symbol
  | comment => .invisible

def isNumeric : Kind → Bool
  | long | double => true
  | _ => false

/-- The kinds in the order in which they are tried: one category after the other, and declaration
order inside a category. A reserved word is so tried before it could be read as an identifier. -/
def trialOrder : List Kind :=
  Category.all.flatMap fun category => all.filter fun k => k.category = category

def nonNumeric : List Kind := all.filter fun k => !k.isNumeric

def values : List Kind := all.filter fun k => k.category = .value

end Kind

/-! ## Tokens -/

structure Token where
  kind : Kind
  category : Category
  text : String
  row : Nat
  col : Nat
  span : Span
  deriving DecidableEq, Repr

namespace Token

def isVisible (t : Token) : Bool := t.category ≠ .invisible

/-- The token on one line, its place counted from zero. -/
def display (t : Token) : String :=
  t.kind.name ++ "(" ++ Text.quoted t.text ++ ") at " ++ Text.decimal t.row ++ ":"
    ++ Text.decimal t.col

end Token

end ExprLex
