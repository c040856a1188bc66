/-
  ExprLex.Toml — TOML documents as trees, how they may be built, and from text.

  A table remembers how it came to be, because that decides how it may grow. A header defines a
  table once; the tables on the way to it are implied and may be defined by a header later. A
  dotted key makes tables that only further dotted keys of the same table extend; headers may
  still add tables below them. An inline table never grows. A header in double brackets adds an
  element to an array of tables, and every path through that array leads to its newest element.

  Basic strings stand in double quotes and have escapes; literal strings stand in apostrophes and
  have none. Either kind may be written over several lines between triple quotes: a line break
  right after the opening is dropped, up to two quotes may stand before the closing, and in a
  basic string a backslash at the end of a line swallows the blanks and line breaks after it. No
  string holds a control character other than the tab. A key is bare or a string of one line.

  A value that is not a string, an array or a table is one run of letters, digits and signs, and
  is read as a whole: a boolean, an integer of 64 bits, a float, a date, a time or both. Single
  underscores may stand between digits. Whole numbers have no leading zeros. A date must exist in
  the calendar, and a float must not be too large for double precision.

  A document is a sequence of lines: blank ones and comments, headers, and keys with their values.
  A header makes its table the one that the following keys go to. Brackets in values may be
  nested less than 80 deep, and keys have fewer than 80 parts; line breaks and comments may stand
  in arrays but not in inline tables.
-/

import ExprLex.Text.Number
import ExprLex.Text.Reader

namespace ExprLex

open Text (Reader ofDigits)

/-! ## Trees -/

/-- How a table came to be. -/
inductive Toml.Origin where
  | header
  /-- On the way to a table that a header defines. -/
  | implied
  | dotted
  | inline
  deriving DecidableEq, Repr

inductive Toml where
  | string (text : String)
  | integer (n : Int)
  | float (text : String)
  | boolean (b : Bool)
  | dateTime (text : String)
  | array (items : List Toml)
  | table (origin : Toml.Origin) (entries : List (String × Toml))
  /-- An array of tables made by headers. -/
  | tables (elements : List (List (String × Toml)))
  deriving Repr

namespace Toml

abbrev Entries := List (String × Toml)

def find? (entries : Entries) (key : String) : Option Toml := entries.lookup key

/-- The entries with another value for a key that has one. -/
def replace (entries : Entries) (key : String) (value : Toml) : Entries :=
  entries.map fun entry => if entry.1 = key then (key, value) else entry

/-- Changes the table that a path leads to, making tables that are not there yet. A path of a
dotted key (`dotted`) may not enter a table that a header has defined; no path enters an inline
table or a value of another kind. -/
def within (dotted : Bool) (change : Origin → Entries → Option Entries) :
    List String → Origin → Entries → Option Entries
  | [], origin, entries => change origin entries
  | key :: path, _, entries =>
    match find? entries key with
    | none => do
      let origin := if dotted then Origin.dotted else .implied
      let inner ← within dotted change path origin []
      return entries ++ [(key, .table origin inner)]
    | some (.table origin inner) =>
      if origin = .inline ∨ (dotted ∧ origin = .header) then none
      else do
        let inner ← within dotted change path origin inner
        return replace entries key (.table origin inner)
    | some (.tables elements) =>
      match elements.getLast? with
      | none => none
      | some newest => do
        let newest ← within dotted change path .header newest
        return replace entries key (.tables (elements.dropLast ++ [newest]))
    | some _ => none

/-- Adds a value under a key that is new. The tables of a dotted key take dotted keys only, and
no other table takes them from outside. -/
def addEntry (isDotted : Bool) (key : String) (value : Toml) (origin : Origin)
    (entries : Entries) : Option Entries :=
  if (origin == .dotted) != isDotted then none
  else if (find? entries key).isSome then none
  else some (entries ++ [(key, value)])

/-- Adds a value to a table under a dotted key: the parts before the last, and the last. -/
def addDotted (path : List String) (key : String) (value : Toml) (origin : Origin)
    (entries : Entries) : Option Entries :=
  within true (addEntry (!path.isEmpty) key value) path origin entries

def defineTable (path : List String) (key : String) (root : Entries) : Option Entries :=
  let define (_ : Origin) (entries : Entries) : Option Entries :=
    match find? entries key with
    | none => some (entries ++ [(key, .table .header [])])
    | some (.table .implied inner) => some (replace entries key (.table .header inner))
    | some _ => none
  within false define path .header root

def addElement (path : List String) (key : String) (root : Entries) : Option Entries :=
  let add (_ : Origin) (entries : Entries) : Option Entries :=
    match find? entries key with
    | none => some (entries ++ [(key, .tables [[]])])
    | some (.tables elements) => some (replace entries key (.tables (elements ++ [[]])))
    | some _ => none
  within false add path .header root

/-! ## Strings and keys -/

def isBlank (c : Char) : Bool := c = ' ' || c = '\t'

/-- Characters that may stand in a string or a comment as they are. -/
def isPlain (c : Char) : Bool := c = '\t' || (0x20 ≤ c.toNat && c.toNat ≠ 0x7f)

def startsLine : List Char → Bool
  | '\n' :: _ => true
  | '\r' :: '\n' :: _ => true
  | _ => false

def escapeOf? : Char → Option Char
  | 'b' => some '\x08'
  | 't' => some '\t'
  | 'n' => some '\n'
  | 'f' => some '\x0c'
  | 'r' => some '\r'
  | '"' => some '"'
  | '\\' => some '\\'
  | _ => none

def escapedChar? (digits : List Char) : Option Char :=
  if digits.all Text.isHexDigit then Text.charAt? (Text.ofDigits 16 digits) else none

/-- A basic string on one line, behind its opening quote, and the text behind it. -/
def basicBody : List Char → Option (List Char × List Char)
  | [] => none
  | '"' :: rest => some ([], rest)
  | '\\' :: 'u' :: a :: b :: c :: d :: rest => do
    let char ← escapedChar? [a, b, c, d]
    let (text, rest) ← basicBody rest
    return (char :: text, rest)
  | '\\' :: 'U' :: a :: b :: c :: d :: e :: f :: g :: h :: rest => do
    let char ← escapedChar? [a, b, c, d, e, f, g, h]
    let (text, rest) ← basicBody rest
    return (char :: text, rest)
  | '\\' :: c :: rest => do
    let char ← escapeOf? c
    let (text, rest) ← basicBody rest
    return (char :: text, rest)
  | c :: rest =>
    if isPlain c then do
      let (text, rest) ← basicBody rest
      return (c :: text, rest)
    else none

/-- A basic string over several lines, behind its opening. While `skipping`, blanks and line
breaks are dropped. -/
def basicLines (skipping : Bool) : List Char → Option (List Char × List Char)
  | [] => none
  | '"' :: '"' :: '"' :: '"' :: '"' :: rest => some (['"', '"'], rest)
  | '"' :: '"' :: '"' :: '"' :: rest => some (['"'], rest)
  | '"' :: '"' :: '"' :: rest => some ([], rest)
  | '\\' :: 'u' :: a :: b :: c :: d :: rest => do
    let char ← escapedChar? [a, b, c, d]
    let (text, rest) ← basicLines false rest
    return (char :: text, rest)
  | '\\' :: 'U' :: a :: b :: c :: d :: e :: f :: g :: h :: rest => do
    let char ← escapedChar? [a, b, c, d, e, f, g, h]
    let (text, rest) ← basicLines false rest
    return (char :: text, rest)
  | '\\' :: c :: rest =>
    if startsLine ((c :: rest).dropWhile isBlank) then basicLines true (c :: rest)
    else do
      let char ← escapeOf? c
      let (text, rest) ← basicLines false rest
      return (char :: text, rest)
  | '\r' :: '\n' :: rest =>
    if skipping then basicLines true rest
    else do
      let (text, rest) ← basicLines false rest
      return ('\n' :: text, rest)
  | c :: rest =>
    if skipping && (isBlank c || c = '\n') then basicLines true rest
    else if isPlain c || c = '\n' then do
      let (text, rest) ← basicLines false rest
      return (c :: text, rest)
    else none

def literalBody : List Char → Option (List Char × List Char)
  | [] => none
  | '\'' :: rest => some ([], rest)
  | c :: rest =>
    if isPlain c then do
      let (text, rest) ← literalBody rest
      return (c :: text, rest)
    else none

def literalLines : List Char → Option (List Char × List Char)
  | [] => none
  | '\'' :: '\'' :: '\'' :: '\'' :: '\'' :: rest => some (['\'', '\''], rest)
  | '\'' :: '\'' :: '\'' :: '\'' :: rest => some (['\''], rest)
  | '\'' :: '\'' :: '\'' :: rest => some ([], rest)
  | '\r' :: '\n' :: rest => do
    let (text, rest) ← literalLines rest
    return ('\n' :: text, rest)
  | c :: rest =>
    if isPlain c || c = '\n' then do
      let (text, rest) ← literalLines rest
      return (c :: text, rest)
    else none

def dropLineBreak : List Char → List Char
  | '\n' :: rest => rest
  | '\r' :: '\n' :: rest => rest
  | cs => cs

def readString : Reader String := fun cs =>
  let found := match cs with
    | '"' :: '"' :: '"' :: rest => basicLines false (dropLineBreak rest)
    | '"' :: rest => basicBody rest
    | '\'' :: '\'' :: '\'' :: rest => literalLines (dropLineBreak rest)
    | '\'' :: rest => literalBody rest
    | _ => none
  found.map fun (text, rest) => (String.ofList text, rest)

def isKeyPart (c : Char) : Bool := c.isAlphanum || c = '_' || c = '-'

def readKeyPart : Reader String := do
  match ← Reader.peek with
  | some '"' => Reader.exactly ['"']; return String.ofList (← basicBody)
  | some '\'' => Reader.exactly ['\'']; return String.ofList (← literalBody)
  | _ => return String.ofList (← Reader.readSome isKeyPart)

def skipBlanks : Reader Unit := do
  let _ ← Reader.readWhile isBlank

/-! ## Unquoted values -/

/-- The digits of a run, its underscores taken out. -/
def digitGroups? (isDigit : Char → Bool) (cs : List Char) : Option (List Char) :=
  let groups := cs.splitOn '_'
  if groups.all fun group => !group.isEmpty && group.all isDigit then some groups.flatten else none

def splitSign : List Char → Bool × List Char
  | '+' :: cs => (false, cs)
  | '-' :: cs => (true, cs)
  | cs => (false, cs)

def wholeDigits? (cs : List Char) : Option (List Char) := do
  let digits ← digitGroups? Char.isDigit cs
  if digits.length > 1 && digits.head? = some '0' then none else some digits

/-- An integer that fits 64 bits. -/
def integer? (cs : List Char) : Option Int := do
  let n ← match cs with
    | '0' :: 'x' :: cs => (digitGroups? Text.isHexDigit cs).map fun ds => Int.ofNat (ofDigits 16 ds)
    | '0' :: 'o' :: cs =>
      (digitGroups? (fun c => '0' ≤ c && c ≤ '7') cs).map fun ds => Int.ofNat (ofDigits 8 ds)
    | '0' :: 'b' :: cs =>
      (digitGroups? (fun c => c = '0' || c = '1') cs).map fun ds => Int.ofNat (ofDigits 2 ds)
    | cs =>
      let (negative, cs) := splitSign cs
      (wholeDigits? cs).map fun ds => if negative then -(ofDigits 10 ds) else ofDigits 10 ds
  if -9223372036854775808 ≤ n ∧ n ≤ 9223372036854775807 then some n else none

def exponent? (cs : List Char) : Option Int := do
  let (negative, cs) := splitSign cs
  let digits ← digitGroups? Char.isDigit cs
  return if negative then -(ofDigits 10 digits) else ofDigits 10 digits

def decimal? (cs : List Char) : Option Text.Scientific := do
  let (negative, cs) := splitSign cs
  let isExponent (c : Char) : Bool := c = 'e' || c = 'E'
  let mantissa := cs.takeWhile fun c => !isExponent c
  let exponent ← match cs.dropWhile fun c => !isExponent c with
    | [] => if mantissa.contains '.' then some 0 else none
    | _ :: tail => exponent? tail
  let whole ← wholeDigits? (mantissa.takeWhile (· ≠ '.'))
  let fraction ← match mantissa.dropWhile (· ≠ '.') with
    | [] => some []
    | _ :: tail => digitGroups? Char.isDigit tail
  return { negative, digits := ofDigits 10 (whole ++ fraction),
           exponent := exponent - fraction.length }

def isFloat (cs : List Char) : Bool :=
  let (_, bare) := splitSign cs
  if bare = ['i', 'n', 'f'] ∨ bare = ['n', 'a', 'n'] then true
  else
    match decimal? cs with
    | some n => n.negative || !n.exceedsDouble
    | none => false

def daysIn (year month : Nat) : Nat :=
  if month = 2 then
    if year % 4 = 0 ∧ (year % 100 ≠ 0 ∨ year % 400 = 0) then 29 else 28
  else if month = 4 ∨ month = 6 ∨ month = 9 ∨ month = 11 then 30
  else 31

def fixedNumber (width : Nat) : Reader Nat := do
  let digits ← Reader.take width
  if digits.all Char.isDigit then return ofDigits 10 digits else Reader.refuse

def readDate : Reader Unit := do
  let year ← fixedNumber 4
  Reader.exactly ['-']
  let month ← fixedNumber 2
  Reader.exactly ['-']
  let day ← fixedNumber 2
  if 1 ≤ month ∧ month ≤ 12 ∧ 1 ≤ day ∧ day ≤ daysIn year month then return else Reader.refuse

def readTime : Reader Unit := do
  let hour ← fixedNumber 2
  Reader.exactly [':']
  let minute ← fixedNumber 2
  Reader.exactly [':']
  let second ← fixedNumber 2
  if ← Reader.accept ['.'] then
    let _ ← Reader.readSome Char.isDigit
  if hour ≤ 23 ∧ minute ≤ 59 ∧ second ≤ 60 then return else Reader.refuse

def readOffset : Reader Unit := do
  match ← Reader.next with
  | 'Z' | 'z' => return
  | '+' | '-' =>
    let hour ← fixedNumber 2
    Reader.exactly [':']
    let minute ← fixedNumber 2
    if hour ≤ 23 ∧ minute ≤ 59 then return else Reader.refuse
  | _ => Reader.refuse

/-- A date with a time and perhaps an offset behind it, or either alone. -/
def readDateTime : Reader Unit := do
  match ← Reader.optional readDate with
  | none => readTime
  | some _ =>
    if ← Reader.atEnd then return
    match ← Reader.next with
    | 'T' | 't' | ' ' =>
      readTime
      if ← Reader.atEnd then return else readOffset
    | _ => Reader.refuse

def scalar? (cs : List Char) : Option Toml :=
  let text := String.ofList cs
  if text = "true" then some (.boolean true)
  else if text = "false" then some (.boolean false)
  else if (readDateTime.run text).isSome then some (.dateTime text)
  else if isFloat cs then some (.float text)
  else (integer? cs).map .integer

def isScalarPart (c : Char) : Bool :=
  c.isAlphanum || c = '+' || c = '-' || c = '_' || c = '.' || c = ':'

/-- An unquoted value. A space belongs to it if a date stands before and a digit behind it. -/
def readScalar : Reader Toml := do
  let run ← Reader.readSome isScalarPart
  let isDate := (readDate.run (String.ofList run)).isSome
  let run ← match ← get with
    | ' ' :: c :: rest =>
      if isDate && c.isDigit then
        set (c :: rest)
        let time ← Reader.readWhile isScalarPart
        pure (run ++ ' ' :: time)
      else pure run
    | _ => pure run
  match scalar? run with
  | some value => return value
  | none => Reader.refuse

/-! ## Documents -/

/-- The bound on nested brackets and on the parts of a key. -/
def nestingLimit : Nat := 80

def readLineBreak : Reader Unit := Reader.orElse (Reader.exactly ['\n']) (Reader.exactly ['\r', '\n'])

def skipComment : Reader Unit := do
  if ← Reader.accept ['#'] then
    let _ ← Reader.readWhile isPlain

/-- The end of a line: blanks, a comment, and a line break unless the document ends. -/
def endLine : Reader Unit := do
  skipBlanks
  skipComment
  if ← Reader.atEnd then return else readLineBreak

/-- Skips blanks, line breaks and comments, as they may stand in arrays. -/
def skipSpace : Nat → Reader Unit
  | 0 => return
  | fuel + 1 => do
    skipBlanks
    match ← Reader.peek with
    | some '#' => skipComment; readLineBreak; skipSpace fuel
    | some '\n' | some '\r' => readLineBreak; skipSpace fuel
    | _ => return

def readKeyTail : Nat → Reader (List String)
  | 0 => return []
  | fuel + 1 => do
    skipBlanks
    if ← Reader.accept ['.'] then
      skipBlanks
      let part ← readKeyPart
      return part :: (← readKeyTail fuel)
    else return []

/-- A key: the parts before the last one, and the last one. -/
def readKey : Reader (List String × String) := do
  let first ← readKeyPart
  let parts := first :: (← readKeyTail nestingLimit)
  if parts.length ≥ nestingLimit then Reader.refuse
  else return (parts.dropLast, parts.getLastD first)

mutual

/-- A value; `fuel` bounds the items of brackets and `room` the brackets in brackets. -/
def readValue : Nat → Nat → Reader Toml
  | 0, _ => Reader.refuse
  | fuel + 1, room => do
    match ← Reader.peek with
    | some '"' | some '\'' => return .string (← readString)
    | some '[' =>
      Reader.exactly ['[']
      if room = 0 then Reader.refuse else return .array (← readItems fuel (room - 1))
    | some '{' =>
      Reader.exactly ['{']
      if room = 0 then Reader.refuse
      else
        skipBlanks
        if ← Reader.accept ['}'] then return .table .inline []
        else return .table .inline (← readPairs fuel (room - 1) [])
    | _ => readScalar

def readItems : Nat → Nat → Reader (List Toml)
  | 0, _ => Reader.refuse
  | fuel + 1, room => do
    skipSpace (← get).length
    if ← Reader.accept [']'] then return []
    else
      let item ← readValue fuel room
      skipSpace (← get).length
      if ← Reader.accept [','] then return item :: (← readItems fuel room)
      else
        Reader.exactly [']']
        return [item]

/-- The pairs of an inline table that is not empty, through its closing brace, added to the
entries read so far. -/
def readPairs : Nat → Nat → Entries → Reader Entries
  | 0, _, _ => Reader.refuse
  | fuel + 1, room, entries => do
    skipBlanks
    let (path, key) ← readKey
    skipBlanks
    Reader.exactly ['=']
    skipBlanks
    let value ← readValue fuel room
    let entries ← addDotted path key value .inline entries
    skipBlanks
    if ← Reader.accept [','] then readPairs fuel room entries
    else
      Reader.exactly ['}']
      return entries

end

/-- A document being read: its entries, and the path of the table that keys go to. -/
structure Draft where
  root : Entries := []
  current : List String := []

/-- A header line: a key in brackets defines a table, one in two brackets adds an element. -/
def readHeader (draft : Draft) : Reader Draft := do
  Reader.exactly ['[']
  let isElement ← Reader.accept ['[']
  skipBlanks
  let (path, key) ← readKey
  skipBlanks
  Reader.exactly (if isElement then [']', ']'] else [']'])
  let root ← if isElement then addElement path key draft.root else defineTable path key draft.root
  return { root, current := path ++ [key] }

def readPair (draft : Draft) : Reader Draft := do
  let (path, key) ← readKey
  skipBlanks
  Reader.exactly ['=']
  skipBlanks
  let value ← readValue (2 * (← get).length + 1) (nestingLimit - 1)
  let root ← within false (addDotted path key value) draft.current .header draft.root
  return { draft with root }

/-- The lines of a document; each takes at least one character. -/
def readLines : Nat → Draft → Reader Draft
  | 0, draft => return draft
  | fuel + 1, draft => do
    skipBlanks
    if ← Reader.atEnd then return draft
    else
      let draft ← match ← Reader.peek with
        | some '[' => readHeader draft
        | some '#' | some '\n' | some '\r' => pure draft
        | _ => readPair draft
      endLine
      readLines fuel draft

/-- The entries of a document, which may begin with a byte order mark. -/
def parse (text : String) : Option Entries :=
  let document : Reader Entries := do
    let _ ← Reader.accept ['\ufeff']
    return (← readLines (text.length + 1) {}).root
  document.run text

end Toml

end ExprLex
