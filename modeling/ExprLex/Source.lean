/-
  ExprLex.Source — places and spans of a source text, and what stops a run outright.

  A place knows what is left to read and how much has been read: the bytes, the line breaks, and
  the characters since the last line break. Stepping over a character is the only way to move
  on, so the three counts never come apart. A span names the bytes from `start` up to `stop` and
  the row and column of its first character, all counted from zero. Nothing forces a span to fit a
  text: cutting it out of one answers nothing when it runs backwards, past the end, or through
  the middle of a character.

  Rows and columns are counted in 32 bits and every step of a counter is checked; undoing needs
  a step to undo; a checkpoint is released at the depth at which it was taken; the source is cut
  between characters only. A run that breaks one of these rules ends with a `Fault` and not with
  a wrong answer.

  Of the settings only the set of characters that separate tokens can be changed. The line break
  is not part of the set: it separates tokens whatever the set holds.
-/

import ExprLex.Text.Number

namespace ExprLex

/-! ## Faults and counters -/

inductive Fault where
  | addOverflow
  | subOverflow
  | undoWithoutNext
  /-- A release found `found` saved places where taking the checkpoint had left `taken`. -/
  | checkpointDepth (found taken : Nat)
  /-- The source was cut at a byte inside a character. -/
  | offBoundary (offset : Nat)
  deriving DecidableEq, Repr

def Fault.message : Fault → String
  | .addOverflow => "attempt to add with overflow"
  | .subOverflow => "attempt to subtract with overflow"
  | .undoWithoutNext => "undo() without a preceding next()"
  | .checkpointDepth found taken =>
    "assertion `left == right` failed: checkpoints must be released in reverse order\n  left: "
      ++ Text.decimal found ++ "\n right: " ++ Text.decimal taken
  | .offBoundary offset => "byte index " ++ Text.decimal offset ++ " is not a char boundary"

def counterBound : Nat := 4294967296

/-- One more on a row or column counter, unless the counter is full. -/
def countUp (n : Nat) : Except Fault Nat :=
  if n + 1 < counterBound then .ok (n + 1) else .error .addOverflow

theorem countUp_eq_ok_iff {n m : Nat} : countUp n = .ok m ↔ m = n + 1 ∧ n + 1 < counterBound := by
  unfold countUp
  split <;> simp [*, eq_comm]

/-! ## Settings -/

/-- The characters that separate tokens, in the order in which they were given. -/
structure LexerSettings where
  whitespace : List Char := [' ', '\t']
  deriving DecidableEq, Repr

def LexerSettings.isWhitespace (s : LexerSettings) (c : Char) : Bool := s.whitespace.contains c

/-- Whether a character stands between tokens: the whitespace set and the line break. -/
def LexerSettings.isSeparator (s : LexerSettings) (c : Char) : Bool :=
  s.isWhitespace c || c = '\n'

/-! ## Places -/

structure Place where
  rest : List Char
  offset : Nat
  row : Nat
  col : Nat
  deriving DecidableEq, Repr

namespace Place

def ofSource (source : String) : Place := ⟨source.toList, 0, 0, 0⟩

/-- The place behind `c`, which leaves `rest` to read. -/
def past (p : Place) (c : Char) (rest : List Char) : Except Fault Place :=
  if c = '\n' then do
    let row ← countUp p.row
    return ⟨rest, p.offset + c.utf8Size, row, 0⟩
  else do
    let col ← countUp p.col
    return ⟨rest, p.offset + c.utf8Size, p.row, col⟩

end Place

/-! ## Spans -/

structure Span where
  start : Nat
  stop : Nat
  line : Nat
  column : Nat
  deriving DecidableEq, Repr

/-- Cuts a text after exactly `n` bytes, if a character ends there. -/
def splitAtByte : List Char → Nat → Option (List Char × List Char)
  | cs, 0 => some ([], cs)
  | [], _ + 1 => none
  | c :: cs, n + 1 =>
    if c.utf8Size ≤ n + 1 then
      (splitAtByte cs (n + 1 - c.utf8Size)).map fun (before, after) => (c :: before, after)
    else none

def byteLength : List Char → Nat
  | [] => 0
  | c :: cs => c.utf8Size + byteLength cs

@[simp] theorem byteLength_nil : byteLength [] = 0 := rfl

@[simp] theorem byteLength_cons (c : Char) (cs : List Char) :
    byteLength (c :: cs) = c.utf8Size + byteLength cs := rfl

@[simp] theorem byteLength_append (cs ds : List Char) :
    byteLength (cs ++ ds) = byteLength cs + byteLength ds := by
  induction cs with
  | nil => simp
  | cons c cs ih => simp [ih, Nat.add_assoc]

/-- A cut of a text loses nothing and falls where the first part ends. -/
theorem append_of_splitAtByte {cs before after : List Char} {n : Nat}
    (h : splitAtByte cs n = some (before, after)) : cs = before ++ after ∧ byteLength before = n := by
  fun_induction splitAtByte cs n generalizing before after with
  | case1 => simp_all
  | case2 => simp at h
  | case3 c cs n hc ih =>
    obtain ⟨⟨b, a⟩, hba, hp⟩ := Option.map_eq_some_iff.1 h
    obtain ⟨rfl, rfl⟩ := Prod.mk.inj hp
    obtain ⟨rfl, hb⟩ := ih hba
    exact ⟨rfl, by rw [byteLength_cons, hb]; omega⟩
  | case4 => simp at h

theorem splitAtByte_append (before after : List Char) :
    splitAtByte (before ++ after) (byteLength before) = some (before, after) := by
  induction before with
  | nil => cases after <;> rfl
  | cons c cs ih =>
    have hc := c.utf8Size_pos
    obtain ⟨n, hn⟩ : ∃ n, byteLength (c :: cs) = n + 1 := ⟨byteLength (c :: cs) - 1, by simp; omega⟩
    have hle : c.utf8Size ≤ n + 1 := by rw [← hn]; simp
    have hsub : n + 1 - c.utf8Size = byteLength cs := by rw [← hn]; simp
    simp [hn, splitAtByte, hle, hsub, ih]

/-- The cuts of a text are its decompositions, each at the bytes of its first part. -/
theorem splitAtByte_eq_some_iff {cs before after : List Char} {n : Nat} :
    splitAtByte cs n = some (before, after) ↔ cs = before ++ after ∧ byteLength before = n :=
  ⟨append_of_splitAtByte, fun ⟨h, hn⟩ => by rw [h, ← hn, splitAtByte_append]⟩

namespace Span

def dummy : Span := ⟨0, 0, 0, 0⟩

def point (line column : Nat) : Span := ⟨0, 0, line, column⟩

def isEmpty (s : Span) : Bool := s.start = s.stop

/-- The number of bytes; a span that runs backwards has none. -/
def length (s : Span) : Except Fault Nat :=
  if s.start ≤ s.stop then .ok (s.stop - s.start) else .error .subOverflow

/-- Whether a byte offset lies in the span; the end is outside. -/
def contains (s : Span) (offset : Nat) : Bool := s.start ≤ offset && offset < s.stop

def sourceText (s : Span) (source : String) : Option String :=
  if s.start ≤ s.stop then do
    let (_, tail) ← splitAtByte source.toList s.start
    let (inside, _) ← splitAtByte tail (s.stop - s.start)
    some (String.ofList inside)
  else none

end Span

end ExprLex
