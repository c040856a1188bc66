/-
  ExprLex.Text.Reader — reading a document from the front.

  A reader takes characters from the front of a text and answers a value, or refuses the text.
  There is no going back but through `optional`, which leaves the text alone when what it tries
  is not there.
-/

namespace ExprLex.Text

abbrev Reader := StateT (List Char) Option

namespace Reader

def refuse : Reader α := fun _ => none

def peek : Reader (Option Char) := return (← get).head?

def atEnd : Reader Bool := return (← get).isEmpty

def next : Reader Char
  | [] => none
  | c :: rest => some (c, rest)

def exactly : List Char → Reader Unit
  | [] => return
  | expected :: more => do
    let c ← next
    if c = expected then exactly more else refuse

def readWhile (p : Char → Bool) : Reader (List Char) := fun cs =>
  some (cs.takeWhile p, cs.dropWhile p)

/-- A run of at least one character. -/
def readSome (p : Char → Bool) : Reader (List Char) := do
  let run ← readWhile p
  if run.isEmpty then refuse else return run

/-- What a reader reads, if it accepts the text in front. -/
def optional (r : Reader α) : Reader (Option α) := fun cs =>
  match r cs with
  | some (a, rest) => some (some a, rest)
  | none => some (none, cs)

/-- Takes the given characters if they are in front; says whether they were. -/
def accept (expected : List Char) : Reader Bool := return (← optional (exactly expected)).isSome

def orElse (first second : Reader α) : Reader α := fun cs =>
  match first cs with
  | some found => some found
  | none => second cs

def take : Nat → Reader (List Char)
  | 0 => return []
  | n + 1 => do
    let c ← next
    return c :: (← take n)

def run (r : Reader α) (text : String) : Option α :=
  match r text.toList with
  | some (a, []) => some a
  | _ => none

end Reader

end ExprLex.Text
