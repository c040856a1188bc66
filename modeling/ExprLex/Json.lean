/-
  ExprLex.Json — JSON documents as trees, as indented text, and from text.

  A string is kept as its code points, because a document may escape one half of a surrogate pair
  alone; such a string has no text. An object keeps its members in order, repeated names too. A
  document can be held as a value if every string has a text, every number fits double precision,
  and brackets are nested less than 128 deep.

  As text, every item and every member stands on a line of its own, two spaces further in than its
  brackets; empty brackets stay on one line. Strings escape the quote, the backslash and the
  control characters below the space, and hold everything else as it is.

  The reader accepts exactly the JSON grammar: blanks are the space, the tab and the two line
  ends; numbers have no leading zeros; strings hold no bare control characters; nothing follows a
  trailing comma or the document. An escaped surrogate pair is read as one character.
-/

import ExprLex.Text.Number
import ExprLex.Text.Reader

namespace ExprLex

open Text (Reader)

/-! ## Trees -/

inductive Json where
  | null
  | bool (b : Bool)
  | number (n : Text.Scientific)
  | string (codePoints : List Nat)
  | array (items : List Json)
  | object (members : List (List Nat × Json))
  deriving Repr

namespace Json

def ofText (s : String) : Json := .string (s.toList.map Char.toNat)

def ofNat (n : Nat) : Json := .number { digits := n }

def ofMembers (members : List (String × Json)) : Json :=
  .object (members.map fun (name, value) => (name.toList.map Char.toNat, value))

/-- The text of a string, if each of its code points is a character. -/
def text? (codePoints : List Nat) : Option String :=
  (codePoints.mapM Text.charAt?).map String.ofList

mutual

def depth : Json → Nat
  | array items => 1 + itemsDepth items
  | object members => 1 + membersDepth members
  | _ => 0

def itemsDepth : List Json → Nat
  | [] => 0
  | item :: more => max (depth item) (itemsDepth more)

def membersDepth : List (List Nat × Json) → Nat
  | [] => 0
  | (_, value) :: more => max (depth value) (membersDepth more)

end

mutual

/-- Whether every string has a text and every number fits double precision. -/
def isRepresentable : Json → Bool
  | number n => !n.exceedsDouble
  | string codePoints => (text? codePoints).isSome
  | array items => itemsRepresentable items
  | object members => membersRepresentable members
  | _ => true

def itemsRepresentable : List Json → Bool
  | [] => true
  | item :: more => isRepresentable item && itemsRepresentable more

def membersRepresentable : List (List Nat × Json) → Bool
  | [] => true
  | (name, value) :: more =>
    (text? name).isSome && isRepresentable value && membersRepresentable more

end

def depthLimit : Nat := 127

def isValue (j : Json) : Bool := j.isRepresentable && j.depth ≤ depthLimit

/-! ## Layout -/

def fourDigits (n : Nat) : List Char := (Nat.toDigits 16 n).leftpad 4 '0'

def writeCodePoint (n : Nat) : List Char :=
  if n = '"'.toNat then ['\\', '"']
  else if n = '\\'.toNat then ['\\', '\\']
  else if n = 8 then ['\\', 'b']
  else if n = 9 then ['\\', 't']
  else if n = 10 then ['\\', 'n']
  else if n = 12 then ['\\', 'f']
  else if n = 13 then ['\\', 'r']
  else if n < 0x20 then '\\' :: 'u' :: fourDigits n
  else
    match Text.charAt? n with
    | some c => [c]
    | none => '\\' :: 'u' :: fourDigits n

def writeString (codePoints : List Nat) : List Char :=
  ['"'] ++ codePoints.flatMap writeCodePoint ++ ['"']

mutual

/-- A document whose first line is already indented; `margin` goes before its other lines. -/
def write (margin : List Char) : Json → List Char
  | null => "null".toList
  | bool true => "true".toList
  | bool false => "false".toList
  | number n => n.text
  | string codePoints => writeString codePoints
  | array [] => ['[', ']']
  | array (item :: more) =>
    let inner := margin ++ [' ', ' ']
    ['[', '\n'] ++ inner ++ write inner item ++ writeItems inner more ++ ['\n'] ++ margin ++ [']']
  | object [] => ['{', '}']
  | object ((name, value) :: more) =>
    let inner := margin ++ [' ', ' ']
    ['{', '\n'] ++ inner ++ writeString name ++ [':', ' '] ++ write inner value
      ++ writeMembers inner more ++ ['\n'] ++ margin ++ ['}']

/-- The items behind the first one. -/
def writeItems (margin : List Char) : List Json → List Char
  | [] => []
  | item :: more => [',', '\n'] ++ margin ++ write margin item ++ writeItems margin more

def writeMembers (margin : List Char) : List (List Nat × Json) → List Char
  | [] => []
  | (name, value) :: more =>
    [',', '\n'] ++ margin ++ writeString name ++ [':', ' '] ++ write margin value
      ++ writeMembers margin more

end

def pretty (j : Json) : String := String.ofList (write [] j)

/-! ## Reading -/

def skipBlanks : Reader Unit := do
  let _ ← Reader.readWhile fun c => c = ' ' || c = '\t' || c = '\n' || c = '\r'

def escapeOf? : Char → Option Nat
  | '"' => some '"'.toNat
  | '\\' => some '\\'.toNat
  | '/' => some '/'.toNat
  | 'b' => some 8
  | 'f' => some 12
  | 'n' => some 10
  | 'r' => some 13
  | 't' => some 9
  | _ => none

/-- The code units of a string through its closing quote, and the text behind it. -/
def readUnits : List Char → Option (List Nat × List Char)
  | [] => none
  | '"' :: rest => some ([], rest)
  | '\\' :: 'u' :: a :: b :: c :: d :: rest =>
    if [a, b, c, d].all Text.isHexDigit then
      (readUnits rest).map fun (units, rest) => (Text.ofDigits 16 [a, b, c, d] :: units, rest)
    else none
  | '\\' :: c :: rest => do
    let unit ← escapeOf? c
    (readUnits rest).map fun (units, rest) => (unit :: units, rest)
  | c :: rest =>
    if c.toNat < 0x20 then none
    else (readUnits rest).map fun (units, rest) => (c.toNat :: units, rest)

/-- Joins each high surrogate with a low one right after it. -/
def joinSurrogates : List Nat → List Nat
  | high :: low :: rest =>
    if 0xd800 ≤ high ∧ high < 0xdc00 ∧ 0xdc00 ≤ low ∧ low < 0xe000 then
      (0x10000 + (high - 0xd800) * 0x400 + (low - 0xdc00)) :: joinSurrogates rest
    else high :: joinSurrogates (low :: rest)
  | units => units

def readString : Reader (List Nat) := fun cs =>
  (readUnits cs).map fun (units, rest) => (joinSurrogates units, rest)

/-- The whole part of a number: a zero alone, or digits that begin with another digit. -/
def readWhole : Reader (List Char) := do
  if ← Reader.accept ['0'] then return ['0'] else Reader.readSome Char.isDigit

def readFraction : Reader (List Char) := do
  if ← Reader.accept ['.'] then Reader.readSome Char.isDigit else return []

def readExponent : Reader Int := do
  match ← Reader.peek with
  | some 'e' | some 'E' =>
    let _ ← Reader.next
    let negative ← Reader.accept ['-']
    if !negative then let _ ← Reader.accept ['+']
    let n := Text.ofDigits 10 (← Reader.readSome Char.isDigit)
    return if negative then -n else n
  | _ => return 0

def readNumber : Reader Text.Scientific := do
  let negative ← Reader.accept ['-']
  let whole ← readWhole
  let fraction ← readFraction
  let exponent ← readExponent
  return { negative, digits := Text.ofDigits 10 (whole ++ fraction),
           exponent := exponent - fraction.length }

mutual

/-- A document, its outer blanks left out; `fuel` bounds the nesting and the number of items. -/
def readValue : Nat → Reader Json
  | 0 => Reader.refuse
  | fuel + 1 => do
    match ← Reader.peek with
    | some '"' => Reader.exactly ['"']; return .string (← readString)
    | some '[' =>
      Reader.exactly ['[']; skipBlanks
      if ← Reader.accept [']'] then return .array [] else return .array (← readItems fuel)
    | some '{' =>
      Reader.exactly ['{']; skipBlanks
      if ← Reader.accept ['}'] then return .object [] else return .object (← readMembers fuel)
    | some 'n' => Reader.exactly "null".toList; return .null
    | some 't' => Reader.exactly "true".toList; return .bool true
    | some 'f' => Reader.exactly "false".toList; return .bool false
    | _ => return .number (← readNumber)

/-- The items of an array that is not empty, through its closing bracket. -/
def readItems : Nat → Reader (List Json)
  | 0 => Reader.refuse
  | fuel + 1 => do
    let item ← readValue fuel
    skipBlanks
    if ← Reader.accept [','] then
      skipBlanks
      return item :: (← readItems fuel)
    else
      Reader.exactly [']']
      return [item]

def readMembers : Nat → Reader (List (List Nat × Json))
  | 0 => Reader.refuse
  | fuel + 1 => do
    Reader.exactly ['"']
    let name ← readString
    skipBlanks
    Reader.exactly [':']
    skipBlanks
    let value ← readValue fuel
    skipBlanks
    if ← Reader.accept [','] then
      skipBlanks
      return (name, value) :: (← readMembers fuel)
    else
      Reader.exactly ['}']
      return [(name, value)]

end

/-- The document that a text holds. Each level and each item takes a character, so that twice the
length of the text is more than enough fuel. -/
def parse (text : String) : Option Json :=
  let document : Reader Json := do
    skipBlanks
    let value ← readValue (2 * text.length + 1)
    skipBlanks
    return value
  document.run text

end Json

end ExprLex
