/-
  ExprLex.Script — sequences of cursor operations.

  A script drives one cursor step by step and notes after each step its answer and where the
  cursor stands. A bracket runs an inner script between taking a checkpoint and releasing it. A
  step that breaks a rule answers the fault and changes nothing; when a release is refused, the
  cursor stays where the inner script left it.
-/

import ExprLex.Catalog

namespace ExprLex.Script

inductive Command where
  | next
  | peek
  | hasNext
  | rawText
  | undo
  | save
  | restore
  | discard
  | isWhitespace (c : Char)
  | recognize (kind : Kind)
  /-- Runs the inner commands under a checkpoint and keeps or drops it. -/
  | checkpoint (keep : Bool) (inner : List Command)
  | speculate (inner : List Command)

inductive Answer where
  | nothing
  | char (c : Option Char)
  | flag (b : Bool)
  | text (s : String)
  | outcome (outcome : Outcome)
  | fault (fault : Fault)
  deriving DecidableEq, Repr

structure Mark where
  offset : Nat
  row : Nat
  col : Nat
  depth : Nat
  deriving DecidableEq, Repr

def Mark.ofCursor (c : Cursor) : Mark := ⟨c.place.offset, c.place.row, c.place.col, c.depth⟩

inductive StepRecord where
  | plain (answer : Answer) (mark : Mark)
  /-- A bracket: where it was entered, and what the inner commands did. -/
  | bracket (answer : Answer) (mark entered : Mark) (inner : List StepRecord)

/-- Runs a scan for its answer; a fault leaves the cursor as it was. -/
def perform (scan : Scan α) (answer : α → Answer) (c : Cursor) : StepRecord × Cursor :=
  match scan c with
  | .ok (a, after) => (.plain (answer a) (.ofCursor after), after)
  | .error fault => (.plain (.fault fault) (.ofCursor c), c)

def bracket (keep : Bool) (inner : Cursor → List StepRecord × Cursor) (c : Cursor) :
    StepRecord × Cursor :=
  match Scan.checkpoint c with
  | .error fault => (.plain (.fault fault) (.ofCursor c), c)
  | .ok (taken, entered) =>
    let (records, reached) := inner entered
    match Scan.release taken keep reached with
    | .ok (_, after) => (.bracket .nothing (.ofCursor after) (.ofCursor entered) records, after)
    | .error fault => (.bracket (.fault fault) (.ofCursor reached) (.ofCursor entered) records, reached)

mutual

def run : Command → Cursor → StepRecord × Cursor
  | .next, c => perform Scan.next .char c
  | .peek, c => perform Scan.peek .char c
  | .hasNext, c => (.plain (.flag c.hasNext) (.ofCursor c), c)
  | .rawText, c => (.plain (.text c.source) (.ofCursor c), c)
  | .undo, c => perform Scan.undo (fun _ => .nothing) c
  | .save, c => perform Scan.save (fun _ => .nothing) c
  | .restore, c => perform Scan.restore .flag c
  | .discard, c => perform Scan.discard .flag c
  | .isWhitespace char, c => (.plain (.flag (c.settings.isWhitespace char)) (.ofCursor c), c)
  | .recognize kind, c => perform kind.recognize (fun reading => .outcome reading.outcome) c
  | .checkpoint keep inner, c => bracket keep (runAll inner) c
  | .speculate inner, c => bracket false (runAll inner) c

def runAll : List Command → Cursor → List StepRecord × Cursor
  | [], c => ([], c)
  | command :: more, c =>
    let (record, c) := run command c
    let (records, c) := runAll more c
    (record :: records, c)

end

/-- What each of the kinds makes of the place of a cursor. Every trial begins at that place, which
is saved before it and restored after it. -/
def survey : List Kind → Cursor → List (Kind × StepRecord) × Cursor
  | [], c => ([], c)
  | kind :: more, c =>
    let (_, c) := run .save c
    let (record, c) := run (.recognize kind) c
    let (_, c) := run .restore c
    let (records, c) := survey more c
    ((kind, record) :: records, c)

end ExprLex.Script
