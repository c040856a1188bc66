/-
  ExprLex.Proofs.Escaping — writing the text of a string literal back.

  A literal resolves its escapes against the text read so far, so not every text has one: behind a
  backslash of the text stands neither a backslash nor a quote (`Tame`, newest character first). The
  text of every literal is tame, since reading keeps its text tame up to one backslash too many at
  the end (`Underway`). That one is also what a backslash leaves that is written as two, so a tame
  text with a backslash before each of its quotes and backslashes is the body of a literal with that
  text (`isBody_escaped`).
-/

import ExprLex.Proofs.Slices
import Mathlib.Data.List.Chain

namespace ExprLex

open Recognizer

/-- `newer` may stand behind `older` in the text of a literal. -/
def MayFollow (newer older : Char) : Prop := older = '\\' → newer ≠ '\\' ∧ newer ≠ '"'

/-- A text that a literal can have, newest character first. -/
def Tame (text : List Char) : Prop := text.IsChain MayFollow

/-- A text on the way to a tame one: a backslash at its end may be there twice. -/
def Underway (text : List Char) : Prop :=
  Tame text ∨ ∃ older, text = '\\' :: '\\' :: older ∧ Tame ('\\' :: older)

variable {text older newer out : List Char} {c : Char}

theorem tame_cons_iff : Tame (c :: text) ↔ (∀ d ∈ text.head?, MayFollow c d) ∧ Tame text :=
  List.isChain_cons

theorem tame_cons (hb : c ≠ '\\') (hq : c ≠ '"') (h : Tame text) : Tame (c :: text) :=
  tame_cons_iff.2 ⟨fun _ _ _ => ⟨hb, hq⟩, h⟩

theorem tame_cons_of_head (hh : text.head? ≠ some '\\') (h : Tame text) : Tame (c :: text) := by
  refine tame_cons_iff.2 ⟨fun d hd he => ?_, h⟩
  subst he
  exact absurd hd hh

theorem head_of_tame_backslash (h : Tame ('\\' :: older)) : older.head? ≠ some '\\' := by
  intro he
  exact ((tame_cons_iff.1 h).1 _ he rfl).1 rfl

/-! ## One more character -/

theorem pushLiteral_backslashes : pushLiteral ('\\' :: '\\' :: older) c = pushPlain ('\\' :: older) c :=
  rfl

theorem pushLiteral_backslash (h : older.head? ≠ some '\\') :
    pushLiteral ('\\' :: older) c =
      if c = '"' then .more ('"' :: older)
      else if c = 's' then .more ('\'' :: older)
      else .more (c :: '\\' :: older) := by
  cases older with
  | nil => rfl
  | cons d older =>
    have hd : d ≠ '\\' := by simpa using h
    unfold pushLiteral
    split
    · simp_all
    · simp_all
    · simp_all

theorem pushLiteral_plain (h : text.head? ≠ some '\\') : pushLiteral text c = pushPlain text c := by
  unfold pushLiteral
  split
  · simp at h
  · simp at h
  · rfl

/-- A text in front of which no backslash stands, and one more character as it is. -/
theorem underway_of_pushPlain (hh : text.head? ≠ some '\\') (h : Tame text)
    (hp : pushPlain text c = .more newer) : Underway newer := by
  unfold pushPlain at hp
  split at hp
  · cases hp
  · cases hp
    exact .inl (tame_cons_of_head hh h)

theorem closed_of_pushPlain (hp : pushPlain text c = .closed out) : out = text := by
  unfold pushPlain at hp
  split at hp
  · cases hp
    rfl
  · cases hp

/-- A backslash more, or a character that may follow one. -/
theorem underway_cons_backslash (hq : c ≠ '"') (h : Tame ('\\' :: older)) :
    Underway (c :: '\\' :: older) := by
  by_cases hb : c = '\\'
  · subst hb
    exact .inr ⟨older, rfl, h⟩
  · exact .inl (tame_cons hb hq h)

theorem underway_of_more (h : Underway text) (hp : pushLiteral text c = .more newer) :
    Underway newer := by
  rcases h with h | ⟨older, rfl, h⟩
  · by_cases hh : text.head? = some '\\'
    · obtain ⟨older, rfl⟩ := List.head?_eq_some_iff.1 hh
      have holder := head_of_tame_backslash h
      have htame := (tame_cons_iff.1 h).2
      rw [pushLiteral_backslash holder] at hp
      split at hp
      · cases hp
        exact .inl (tame_cons_of_head holder htame)
      · rename_i hq
        split at hp
        · cases hp
          exact .inl (tame_cons_of_head holder htame)
        · cases hp
          exact underway_cons_backslash hq h
    · rw [pushLiteral_plain hh] at hp
      exact underway_of_pushPlain hh h hp
  · rw [pushLiteral_backslashes] at hp
    unfold pushPlain at hp
    split at hp
    · cases hp
    · rename_i hq
      cases hp
      exact underway_cons_backslash hq h

theorem tame_of_closed (h : Underway text) (hp : pushLiteral text c = .closed out) : Tame out := by
  rcases h with h | ⟨older, rfl, h⟩
  · by_cases hh : text.head? = some '\\'
    · obtain ⟨older, rfl⟩ := List.head?_eq_some_iff.1 hh
      rw [pushLiteral_backslash (head_of_tame_backslash h)] at hp
      repeat' split at hp
      all_goals cases hp
    · rw [pushLiteral_plain hh] at hp
      rwa [closed_of_pushPlain hp]
  · rw [pushLiteral_backslashes] at hp
    rwa [closed_of_pushPlain hp]

/-! ## Whole literals -/

/-- The text of every literal is tame. -/
theorem tame_of_literalBody {read : List Char} {count total : Nat} (h : Underway text)
    (hread : literalBody text count read = some (out, total)) : Tame out.reverse := by
  induction read generalizing text count with
  | nil => cases hread
  | cons c read ih =>
    unfold literalBody at hread
    split at hread
    · rename_i closed hstep
      cases hread
      rw [List.reverse_reverse]
      exact tame_of_closed h hstep
    · rename_i newer hstep
      exact ih (underway_of_more h hstep) hread

/-- The text with a backslash before each quote and each backslash. -/
def escaped (text : List Char) : List Char :=
  text.flatMap fun c => if c = '"' ∨ c = '\\' then ['\\', c] else [c]

/-- What reading an escaped text leaves: a backslash at its end is there twice. -/
def pending : List Char → List Char
  | '\\' :: older => '\\' :: '\\' :: older
  | text => text

theorem pending_of_head (h : text.head? ≠ some '\\') : pending text = text := by
  unfold pending
  split
  · simp at h
  · rfl

theorem literalBody_of_more (h : pushLiteral text c = .more newer) (count : Nat) (rest : List Char) :
    literalBody text count (c :: rest) = literalBody newer (count + 1) rest := by
  simp only [literalBody, h]

/-- One character of an escaped text. -/
theorem literalBody_escape (h : Tame (c :: text)) (count : Nat) (rest : List Char) :
    literalBody (pending text) count (escaped [c] ++ rest) =
      literalBody (pending (c :: text)) (count + (escaped [c]).length) rest := by
  by_cases hh : text.head? = some '\\'
  · obtain ⟨older, rfl⟩ := List.head?_eq_some_iff.1 hh
    obtain ⟨hb, hq⟩ := (tame_cons_iff.1 h).1 _ rfl rfl
    have hmore : pushLiteral ('\\' :: '\\' :: older) c = .more (c :: '\\' :: older) := if_neg hq
    have hpending : pending (c :: '\\' :: older) = c :: '\\' :: older :=
      pending_of_head (by simpa using hb)
    rw [hpending]
    simpa [escaped, hb, hq, pending] using literalBody_of_more hmore count rest
  rw [pending_of_head hh]
  have hplain : ∀ {d : Char}, d ≠ '"' → pushLiteral text d = .more (d :: text) := by
    intro d hd
    rw [pushLiteral_plain hh]
    exact if_neg hd
  by_cases hspecial : c = '"' ∨ c = '\\'
  · -- the backslash in front is read as it stands and then escapes the character
    have hescape : pushLiteral ('\\' :: text) c = .more (pending (c :: text)) := by
      rw [pushLiteral_backslash hh]
      rcases hspecial with rfl | rfl <;> rfl
    have hbackslash : pushLiteral text '\\' = .more ('\\' :: text) := hplain (by decide)
    simpa [escaped, hspecial, Nat.add_assoc] using
      (literalBody_of_more hbackslash count (c :: rest)).trans
        (literalBody_of_more hescape (count + 1) rest)
  · obtain ⟨hq, hb⟩ := not_or.1 hspecial
    rw [pending_of_head (by simpa using hb)]
    simpa [escaped, hq, hb] using literalBody_of_more (hplain hq) count rest

/-- Closing leaves the text as it was meant. -/
theorem literalBody_close (h : Tame text) (count : Nat) (rest : List Char) :
    literalBody (pending text) count ('"' :: rest) = some (text.reverse, count + 1) := by
  by_cases hh : text.head? = some '\\'
  · obtain ⟨older, rfl⟩ := List.head?_eq_some_iff.1 hh
    rfl
  · rw [pending_of_head hh]
    simp [literalBody, pushLiteral_plain hh, pushPlain]

theorem literalBody_escaped {t : List Char} (h : Tame (t.reverse ++ text)) (count : Nat)
    (rest : List Char) :
    literalBody (pending text) count (escaped t ++ '"' :: rest) =
      some (text.reverse ++ t, count + (escaped t).length + 1) := by
  induction t generalizing text count with
  | nil => simpa [escaped] using literalBody_close h count rest
  | cons c t ih =>
    have hrest : Tame (t.reverse ++ c :: text) := by simpa using h
    have hcons : Tame (c :: text) := hrest.right_of_append
    have hsplit : escaped (c :: t) = escaped [c] ++ escaped t := by simp [escaped]
    rw [hsplit, List.append_assoc, literalBody_escape hcons, ih hrest]
    simp [Nat.add_assoc]

/-- A tame text, escaped and closed, is the body of a literal with that text. -/
theorem isBody_of_tame {t : List Char} (h : Tame t.reverse) :
    Verdict.IsBody (escaped t ++ ['"']) t := by
  have htame : Tame (t.reverse ++ []) := by simpa using h
  have hread := literalBody_escaped htame 0 []
  rw [pending_of_head (by simp)] at hread
  simpa [Verdict.IsBody] using hread

/-- The text of a literal, escaped and closed, is the body of a literal with the same text. -/
theorem isBody_escaped {read t : List Char} (h : Verdict.IsBody read t) :
    Verdict.IsBody (escaped t ++ ['"']) t :=
  isBody_of_tame (tame_of_literalBody (.inl .nil) h)

end ExprLex
