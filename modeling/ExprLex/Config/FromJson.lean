/-
  ExprLex.Config.FromJson — lexer settings as JSON.

  The settings are an object, whose unknown members are ignored if their names are text, or an
  array of its values in order. The whitespace set is an array of strings of one character each.
  A set that is left out has its default; one that is given twice is refused, as is a null.
-/

import ExprLex.Config.Basic
import ExprLex.Json

namespace ExprLex.LexerSettings

def whitespaceOfJson? : Json → Option (List Char)
  | .array items => items.mapM fun item =>
    match item with
    | .string codePoints => (Json.text? codePoints).bind singleChar?
    | _ => none
  | _ => none

/-- Reads the members of the settings object in order; `found` is the set read so far. -/
def ofMembers? (found : Option (List Char)) :
    List (List Nat × Json) → Option LexerSettings
  | [] => some (match found with
    | some whitespace => { whitespace }
    | none => {})
  | (name, value) :: more => do
    if (← Json.text? name) = "whitespace" then
      if found.isSome then none
      else ofMembers? (some (← whitespaceOfJson? value)) more
    else ofMembers? found more

def ofJson? : Json → Option LexerSettings
  | .object members => ofMembers? none members
  | .array [] => some {}
  | .array [whitespace] => (whitespaceOfJson? whitespace).map fun whitespace => { whitespace }
  | _ => none

def parseJson? (text : String) : Option LexerSettings := (Json.parse text).bind ofJson?

end ExprLex.LexerSettings
