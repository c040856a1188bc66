/-
  ExprLex.Catalog — how each kind of token is read.

  Every kind has one rule: a fixed spelling, or one of the five shapes whose text varies. The
  numbers look ahead for the other kinds, and no other kind looks ahead, so the kinds that may
  follow a number are built without the numbers.
-/

import ExprLex.Recognizer

namespace ExprLex

inductive Rule where
  /-- A fixed spelling that no character of the class may follow. -/
  | spelling (text : String) (notBefore : Option CharClass)
  | identifier
  | long
  | double
  | string
  | comment
  deriving DecidableEq, Repr

namespace Rule

def representation? : Rule → Option String
  | spelling text _ => some text
  | _ => none

def display : Rule → String
  | spelling text notBefore =>
    "Sequence \x7b spelling: " ++ Text.quoted text ++ ", reject_next: "
      ++ (if notBefore.isSome then "true" else "false") ++ " \x7d"
  | _ => "Function"

/-- The recognizer of a rule; only the numbers use the followers. -/
def read (followers : List Recognizer.Follower) : Rule → Scan Reading
  | spelling text notBefore => Recognizer.spelling text notBefore
  | identifier => Recognizer.identifier
  | long => Recognizer.long followers
  | double => Recognizer.double followers
  | string => Recognizer.stringLiteral
  | comment => Recognizer.comment

end Rule

namespace Kind

def rule : Kind → Rule
  | trueWord => .spelling "true" (some .wordPart)
  | falseWord => .spelling "false" (some .wordPart)
  | nullWord => .spelling "null" (some .wordPart)
  | identifier => .identifier
  | long => .long
  | double => .double
  | string => .string
  | exponent => .spelling "^" none
  | multiplication => .spelling "*" none
  | division => .spelling "/" none
  | modulo => .spelling "%" none
  | plus => .spelling "+" none
  | minus => .spelling "-" (some .greaterSign)
  | greaterThan => .spelling ">" (some .equalsSign)
  | greaterThanOrEqual => .spelling ">=" none
  | lessThan => .spelling "<" (some .equalsSign)
  | lessThanOrEqual => .spelling "<=" none
  | valueEquals => .spelling "==" (some .equalsSign)
  | valueNotEquals => .spelling "!=" (some .equalsSign)
  | valueEqualsExact => .spelling "===" none
  | valueNotEqualsExact => .spelling "!==" none
  | concatenate => .spelling "&" none
  | notWord => .spelling "not" (some .wordPart)
  | andWord => .spelling "and" (some .wordPart)
  | orWord => .spelling "or" (some .wordPart)
  | ifWord => .spelling "if" (some .wordPart)
  | thenWord => .spelling "then" (some .wordPart)
  | elseWord => .spelling "else" (some .wordPart)
  | arrow => .spelling "=>" none
  | thinArrow => .spelling "->" none
  | assign => .spelling "=" (some .equalsSign)
  | nullCoalesce => .spelling "??" none
  | parenthesisOpen => .spelling "(" none
  | optionalParenthesisOpen => .spelling "?(" none
  | parenthesisClose => .spelling ")" none
  | comma => .spelling "," none
  | dot => .spelling "." (some .digit)
  | optionalDot => .spelling "?." (some .digit)
  | bracketOpen => .spelling "[" none
  | optionalBracketOpen => .spelling "?[" none
  | bracketClose => .spelling "]" none
  | comment => .comment

def representation? (k : Kind) : Option String := k.rule.representation?

/-- The kinds that may follow the digits of a number, in declaration order. -/
def followers : List Recognizer.Follower :=
  nonNumeric.map fun k => (k, attempt (k.rule.read []))

def recognize (k : Kind) : Scan Reading := attempt (k.rule.read followers)

end Kind

end ExprLex
