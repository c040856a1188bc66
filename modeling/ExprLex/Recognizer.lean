/-
  ExprLex.Recognizer — trying to read a token.

  A recognizer is a scan that answers a `Reading`: the text it matched, that it did not match, or
  a failure that ends the run; and the verdicts of the lookaheads it made. `attempt` puts a
  recognizer under a checkpoint, so that only a match moves the cursor.

  Operators, symbols and reserved words are spellings, matched without regard to the case of
  ASCII letters. A spelling may name a class of characters that must not come next: that is how a
  word ends at a word boundary and how `>` leaves `>=` alone. An identifier is an ASCII letter and
  the letters, digits and underscores after it. A comment is a hash and everything up to the line
  break, which stays unread.

  The escapes of a string literal are resolved against the text read so far and not against the
  source. A backslash at the end of that text escapes the next character unless another backslash
  stands before it: an escaped quote becomes a quote, an escaped `s` an apostrophe, and before
  anything else the backslash stays. Of two backslashes at the end one is dropped, and the next
  character is read as it stands. An unescaped quote closes the literal; a line break does not.

  A whole number is a run of digits; a fraction is digits, a dot and digits, or a dot and digits,
  which reads as a zero before the dot. Signs are operators. A run of digits counts only if it
  ends well: at the end of the input, at a separator, or where some other kind of token would
  match. That question is the lookahead: it tries the candidates one by one and goes back after
  each, so it never moves the cursor, but a string that is never closed still ends the run.
-/

import ExprLex.Cursor
import ExprLex.Diagnostic
import ExprLex.Token

namespace ExprLex

/-! ## Readings -/

inductive Outcome where
  | matched (text : String)
  | mismatch
  | failed (error : LexError)
  deriving DecidableEq, Repr

/-- Whether some kind of token may follow a number, and where that was asked. -/
inductive Lookahead where
  | accepted (kind : Kind) (row col : Nat)
  | rejected (row col : Nat)
  deriving DecidableEq, Repr

structure Reading where
  outcome : Outcome
  lookaheads : List Lookahead := []
  deriving DecidableEq, Repr

namespace Reading

def matched (text : List Char) (seen : List Lookahead := []) : Reading :=
  ⟨.matched (String.ofList text), seen⟩

def mismatch (seen : List Lookahead := []) : Reading := ⟨.mismatch, seen⟩

def failed (error : LexError) (seen : List Lookahead := []) : Reading := ⟨.failed error, seen⟩

def isMatch (r : Reading) : Bool :=
  match r.outcome with
  | .matched _ => true
  | _ => false

end Reading

/-- Runs a recognizer where there is something to read; the cursor moves only if it matches. -/
def attempt (recognizer : Scan Reading) : Scan Reading := do
  if (← get).hasNext then
    let taken ← Scan.checkpoint
    let reading ← recognizer
    Scan.release taken reading.isMatch
    return reading
  else return .mismatch

/-! ## Spellings -/

/-- Classes of ASCII characters that may bar a match. -/
inductive CharClass where
  | equalsSign
  | greaterSign
  | digit
  | wordPart
  deriving DecidableEq, Repr

def isWordPart (c : Char) : Bool := c.isAlphanum || c = '_'

def CharClass.contains : CharClass → Char → Bool
  | .equalsSign, c => c = '='
  | .greaterSign, c => c = '>'
  | .digit, c => c.isDigit
  | .wordPart, c => isWordPart c

namespace Recognizer

/-- Reads the expected characters in any case, up to the first that differs. -/
def expect : List Char → Scan Bool
  | [] => return true
  | expected :: more => do
    match ← Scan.next with
    | some found => if found.toLower = expected.toLower then expect more else return false
    | none => return false

/-- Reads a spelling that no character of the class `notBefore` follows. -/
def spelling (text : String) (notBefore : Option CharClass) : Scan Reading := do
  if ← expect text.toList then
    match notBefore, ← Scan.peek with
    | some barred, some c => return if barred.contains c then .mismatch else .matched text.toList
    | _, _ => return .matched text.toList
  else return .mismatch

/-! ## Words and comments -/

def identifier : Scan Reading := do
  match ← Scan.next with
  | some first =>
    if first.isAlpha then
      let more ← Scan.readWhile isWordPart
      return .matched (first :: more)
    else return .mismatch
  | none => return .mismatch

/-- Reads a comment; its text leaves the hash out. -/
def comment : Scan Reading := do
  match ← Scan.next with
  | some '#' =>
    let text ← Scan.readWhile (· ≠ '\n')
    return .matched text
  | _ => return .mismatch

/-! ## String literals -/

/-- What becomes of the text of a literal with one more character. -/
inductive LiteralStep where
  | more (text : List Char)
  | closed (text : List Char)
  deriving DecidableEq, Repr

/-- A character read as it stands; `text` has its newest character first. -/
def pushPlain (text : List Char) (c : Char) : LiteralStep :=
  if c = '"' then .closed text else .more (c :: text)

/-- One more character of a literal; `text` has its newest character first. -/
def pushLiteral (text : List Char) (c : Char) : LiteralStep :=
  match text with
  | '\\' :: '\\' :: older => pushPlain ('\\' :: older) c
  | '\\' :: older =>
    if c = '"' then .more ('"' :: older)
    else if c = 's' then .more ('\'' :: older)
    else .more (c :: text)
  | _ => pushPlain text c

/-- Reads on in a literal whose text so far is `text`, newest first, after `count` characters:
the whole text and the number of characters through the closing quote, if there is one. -/
def literalBody (text : List Char) (count : Nat) : List Char → Option (List Char × Nat)
  | [] => none
  | c :: rest =>
    match pushLiteral text c with
    | .closed text => some (text.reverse, count + 1)
    | .more text => literalBody text (count + 1) rest

/-- A closed literal takes at least its closing quote and at most what there is. -/
theorem lt_and_le_of_literalBody {text out rest : List Char} {count total : Nat}
    (h : literalBody text count rest = some (out, total)) :
    count < total ∧ total ≤ count + rest.length := by
  induction rest generalizing text count with
  | nil => simp [literalBody] at h
  | cons c rest ih =>
    unfold literalBody at h
    split at h
    · obtain ⟨-, rfl⟩ := Prod.mk.inj (Option.some.inj h)
      simp
    · have := ih h
      simp only [List.length_cons]
      omega

/-- Reads a string literal; its text leaves the quotes out. A literal that is never closed is
reported at its opening quote. -/
def stringLiteral : Scan Reading := do
  let opening ← get
  match ← Scan.next with
  | some '"' =>
    let rest := (← get).place.rest
    match literalBody [] 0 rest with
    | some (text, count) =>
      Scan.skip count
      return .matched text
    | none =>
      Scan.skip rest.length
      return .failed (.unterminatedString opening.place.row opening.place.col opening.source)
  | _ => return .mismatch

/-! ## Numbers -/

abbrev Follower := Kind × Scan Reading

def wouldFollow : List Follower → Scan (Except LexError Lookahead)
  | [] => do
    let here := (← get).place
    return .ok (.rejected here.row here.col)
  | (kind, trial) :: more => do
    match (← Scan.speculate trial).outcome with
    | .matched _ =>
      let here := (← get).place
      return .ok (.accepted kind here.row here.col)
    | .failed error => return .error error
    | .mismatch => wouldFollow more

inductive DigitRun where
  /-- At least one digit, and a good end. -/
  | read (digits : List Char) (seen : List Lookahead)
  /-- No digit, or a character behind the digits that nothing starts with. -/
  | refused (seen : List Lookahead)
  /-- There was nothing left to read. -/
  | exhausted
  | failed (error : LexError)

def DigitRun.ofDigits (digits : List Char) : DigitRun :=
  if digits.isEmpty then .refused [] else .read digits []

/-- Whether digits that were read may end before `c`, which is unread. With `dotEnds`, a dot is a
good end. -/
def endDigits (followers : List Follower) (dotEnds : Bool) (digits : List Char) (c : Char) :
    Scan DigitRun := do
  if (← get).settings.isSeparator c || (dotEnds && c = '.') then return .ofDigits digits
  else if digits.isEmpty then return .refused []
  else
    match ← wouldFollow followers with
    | .error error => return .failed error
    | .ok (.accepted kind row col) => return .read digits [.accepted kind row col]
    | .ok (.rejected row col) => return .refused [.rejected row col]

/-- Reads a run of digits and leaves the character that ends it unread. -/
def digitRun (followers : List Follower) (dotEnds : Bool) : Scan DigitRun := do
  if !(← get).hasNext then return .exhausted
  let digits ← Scan.readWhile Char.isDigit
  match ← Scan.next with
  | none => return .ofDigits digits
  | some c =>
    Scan.undo
    endDigits followers dotEnds digits c

def long (followers : List Follower) : Scan Reading := do
  match ← digitRun followers false with
  | .read digits seen => return .matched digits seen
  | .refused seen => return .mismatch seen
  | .exhausted => return .mismatch
  | .failed error => return .failed error

/-- Reads the digits behind the dot of a fraction; `whole` is the text before them. -/
def fraction (followers : List Follower) (whole : List Char) (seen : List Lookahead) :
    Scan Reading := do
  match ← digitRun followers false with
  | .read digits more => return .matched (whole ++ digits) (seen ++ more)
  | .refused more => return .mismatch (seen ++ more)
  | .exhausted => return .mismatch seen
  | .failed error => return .failed error seen

def double (followers : List Follower) : Scan Reading := do
  if (← Scan.peek) = some '.' then
    let _ ← Scan.next
    fraction followers ['0', '.'] []
  else
    match ← digitRun followers true with
    | .read digits seen =>
      match ← Scan.next with
      | some '.' => fraction followers (digits ++ ['.']) seen
      | _ => return .mismatch seen
    | .refused seen => return .mismatch seen
    | .exhausted => return .mismatch
    | .failed error => return .failed error

end Recognizer

end ExprLex
