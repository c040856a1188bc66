/-
  ExprLex.Cursor — reading a source text with the means to go back.

  A cursor stands at a place. It remembers the place before its last step, which one `undo` takes
  back, and it keeps a stack of saved places for reading on trial. Saving and restoring forget the
  remembered place, so that an undo never reaches across them. What comes next is cut out of the
  source at the byte where the cursor stands, and a byte inside a character cannot be cut at.

  A scan is a computation on a cursor that ends in a value or a fault. `checkpoint` and `release`
  bracket a scan: a release is refused unless the stack is as deep as the checkpoint left it; a
  kept release stays where the scan ended, any other goes back. `speculate` always goes back.
-/

import ExprLex.Source

namespace ExprLex

structure Cursor where
  source : String
  settings : LexerSettings
  place : Place
  /-- The place before the last step, if it may still be undone. -/
  last : Option Place := none
  /-- The saved places, the newest first. -/
  saved : List Place := []
  deriving DecidableEq, Repr

namespace Cursor

def ofSource (source : String) (settings : LexerSettings := {}) : Cursor :=
  { source, settings, place := .ofSource source }

/-- Whether the byte where the cursor stands begins a character of the source or ends it. -/
def onBoundary (c : Cursor) : Bool := String.Pos.Raw.isValid c.source ⟨c.place.offset⟩

def hasNext (c : Cursor) : Bool := !c.place.rest.isEmpty

def depth (c : Cursor) : Nat := c.saved.length

end Cursor

abbrev Scan := StateT Cursor (Except Fault)

namespace Scan

def peek : Scan (Option Char) := fun c =>
  if c.onBoundary then .ok (c.place.rest.head?, c) else .error (.offBoundary c.place.offset)

theorem peek_of_onBoundary {c : Cursor} (hb : c.onBoundary) :
    peek c = .ok (c.place.rest.head?, c) := by simp [peek, hb]

/-- Reads a character and remembers the place before it. At the end of the input nothing changes. -/
def next : Scan (Option Char) := fun c => do
  let _ ← peek c
  match c.place.rest with
  | [] => return (none, c)
  | char :: rest =>
    let place ← c.place.past char rest
    return (some char, { c with place, last := some c.place })

theorem next_of_rest_nil {c : Cursor} (hb : c.onBoundary) (h : c.place.rest = []) :
    next c = .ok (none, c) := by
  simp only [next, peek_of_onBoundary hb, h]
  rfl

theorem next_of_rest_cons {c : Cursor} {char : Char} {rest : List Char} (hb : c.onBoundary)
    (h : c.place.rest = char :: rest) :
    next c = (c.place.past char rest).map fun place =>
      (some char, { c with place, last := some c.place }) := by
  simp only [next, peek_of_onBoundary hb, h]
  cases c.place.past char rest <;> rfl

def undo : Scan Unit := fun c =>
  match c.last with
  | none => .error .undoWithoutNext
  | some place => .ok ((), { c with place, last := none })

theorem undo_of_last {c : Cursor} {place : Place} (h : c.last = some place) :
    undo c = .ok ((), { c with place, last := none }) := by simp [undo, h]

def save : Scan Unit := fun c => .ok ((), { c with last := none, saved := c.place :: c.saved })

/-- Goes back to the newest saved place and drops it; says whether there was one. -/
def restore : Scan Bool := fun c =>
  match c.saved with
  | [] => .ok (false, { c with last := none })
  | place :: saved => .ok (true, { c with place, last := none, saved })

def discard : Scan Bool := fun c =>
  match c.saved with
  | [] => .ok (false, c)
  | _ :: saved => .ok (true, { c with saved })

/-- Saves the place and answers the depth at which it must be released. -/
def checkpoint : Scan Nat := do
  save
  return (← get).depth

/-- Ends what `checkpoint` began: keeps the place reached, or goes back to the saved one. -/
def release (taken : Nat) (keep : Bool) : Scan Unit := do
  let found := (← get).depth
  if found = taken then
    let _ ← if keep then discard else restore
  else throw (.checkpointDepth found taken)

def speculate (trial : Scan α) : Scan α := do
  let taken ← checkpoint
  let answer ← trial
  release taken false
  return answer

/-- Reads `n` characters, or as many as there are. -/
def skip : Nat → Scan Unit
  | 0 => return
  | n + 1 => do
    let _ ← next
    skip n

/-- Reads the characters up to the first one without the property, which it looks at and leaves. -/
def readWhile (p : Char → Bool) : Scan (List Char) := do
  let run := (← get).place.rest.takeWhile p
  skip run.length
  let _ ← peek
  return run

end Scan

end ExprLex
