/-
  ExprLex.Proofs.Rewinding — what a cursor remembers agrees with where it stands.

  A cursor has three pieces of state that every operation must keep together: its place, the one
  place that an undo goes back to, and the stack of saved places. `Cursor.Coherent` says what they
  have to do with each other: each of them is a true place of the source, the remembered place is
  one character behind the cursor, the saved places rise towards the top of the stack, and neither
  the cursor nor an undo of it is ever in front of one of them.

  A property that the five primitive operations keep (`Closed`) is kept by every scan built from
  them, and so by whole scripts, the bodies of brackets included, whether a bracket is released in
  order or not. Coherence is such a property, so it holds wherever a script passes (`Visits`).
-/

import ExprLex.Proofs.TrialOrder
import ExprLex.Script

namespace ExprLex

variable {source : String} {α β : Type} {P : Cursor → Prop}

/-! ## Properties that scans keep -/

namespace Scan

/-- Where a scan answers, the property is passed on to the cursor it leaves. -/
def Keeps (P : Cursor → Prop) (x : Scan α) : Prop :=
  ∀ ⦃c a c'⦄, P c → x c = .ok (a, c') → P c'

namespace Keeps

theorem pure (a : α) : Keeps P (Pure.pure a : Scan α) := by
  intro c a' c' hc h
  cases h
  exact hc

theorem get : Keeps P (MonadState.get : Scan Cursor) := by
  intro c a c' hc h
  cases h
  exact hc

theorem throw (fault : Fault) : Keeps P (MonadExcept.throw fault : Scan α) := by
  intro c a c' hc h
  cases h

theorem bind {x : Scan α} {f : α → Scan β} (hx : Keeps P x) (hf : ∀ a, Keeps P (f a)) :
    Keeps P (x >>= f) := by
  intro c b c' hc h
  obtain ⟨a, c₁, hfirst, hrest⟩ := exists_of_bind h
  exact hf a (hx hc hfirst) hrest

theorem ite {p : Prop} [Decidable p] {x y : Scan α} (hx : Keeps P x) (hy : Keeps P y) :
    Keeps P (if p then x else y) := by
  split
  · exact hx
  · exact hy

/-- Looking ahead moves nothing. -/
theorem peek : Keeps P peek := by
  intro c a c' hc h
  unfold Scan.peek at h
  split at h
  · cases h
    exact hc
  · cases h

end Keeps

/-- A step that answers is the end of the input, or it goes past the next character. -/
theorem next_cases {c c' : Cursor} {a : Option Char} (h : next c = .ok (a, c')) :
    a = none ∧ c' = c ∨
      ∃ char rest place, c.place.rest = char :: rest ∧ c.place.past char rest = .ok place ∧
        a = some char ∧ c' = { c with place, last := some c.place } := by
  unfold next at h
  cases hpeek : peek c with
  | error fault =>
    rw [hpeek] at h
    cases h
  | ok r =>
    rw [hpeek] at h
    cases hrest : c.place.rest with
    | nil =>
      simp only [hrest] at h
      cases h
      exact .inl ⟨rfl, rfl⟩
    | cons char rest =>
      simp only [hrest] at h
      cases hpast : c.place.past char rest with
      | error fault =>
        rw [hpast] at h
        cases h
      | ok place =>
        rw [hpast] at h
        cases h
        exact .inr ⟨char, rest, place, rfl, hpast, rfl, rfl⟩

theorem next_saved {saved : List Place} : Keeps (fun c => c.saved = saved) next := by
  intro c a c' hc h
  rcases next_cases h with ⟨-, rfl⟩ | ⟨_, _, _, -, -, -, rfl⟩
  · exact hc
  · exact hc

theorem undo_saved {saved : List Place} : Keeps (fun c => c.saved = saved) undo := by
  intro c a c' hc h
  unfold undo at h
  split at h
  · cases h
  · cases h
    exact hc

/-- The operations that change a cursor keep the property. -/
structure Closed (P : Cursor → Prop) : Prop where
  next : Keeps P next
  undo : Keeps P undo
  save : Keeps P save
  restore : Keeps P restore
  discard : Keeps P discard

namespace Closed

variable (h : Closed P)
include h

theorem skip (n : Nat) : Keeps P (skip n) := by
  induction n with
  | zero => exact .pure ()
  | succ n ih => exact h.next.bind fun _ => ih

theorem readWhile (p : Char → Bool) : Keeps P (readWhile p) :=
  Keeps.get.bind fun c => (h.skip (c.place.rest.takeWhile p).length).bind fun _ =>
    Keeps.peek.bind fun _ => .pure _

theorem checkpoint : Keeps P checkpoint := h.save.bind fun _ => Keeps.get.bind fun _ => .pure _

/-- A release that is refused answers a fault, so it leaves nothing to keep. -/
theorem release (taken : Nat) (keep : Bool) : Keeps P (release taken keep) := by
  refine Keeps.get.bind fun c => Keeps.ite ?_ (.throw _)
  exact (h.discard.bind fun _ => .pure _).ite (h.restore.bind fun _ => .pure _)

theorem speculate {x : Scan α} (hx : Keeps P x) : Keeps P (speculate x) :=
  h.checkpoint.bind fun taken => hx.bind fun _ => (h.release taken false).bind fun _ => .pure _

theorem attempt {x : Scan Reading} (hx : Keeps P x) : Keeps P (attempt x) := by
  refine Keeps.get.bind fun c => Keeps.ite ?_ (.pure _)
  exact h.checkpoint.bind fun taken => hx.bind fun reading =>
    (h.release taken reading.isMatch).bind fun _ => .pure _

end Closed

end Scan

namespace Recognizer

open Scan

variable {followers : List Follower}

section
variable (h : Closed P)
include h

theorem expect_keeps (text : List Char) : Keeps P (expect text) := by
  induction text with
  | nil => exact .pure true
  | cons expected more ih =>
    refine h.next.bind fun found => ?_
    cases found with
    | none => exact .pure false
    | some found => exact ih.ite (.pure false)

theorem spelling_keeps (text : String) (notBefore : Option CharClass) :
    Keeps P (spelling text notBefore) := by
  refine (expect_keeps h text.toList).bind fun found => Keeps.ite ?_ (.pure _)
  cases notBefore with
  | none => exact Keeps.peek.bind fun _ => .pure _
  | some barred =>
    refine Keeps.peek.bind fun c => ?_
    cases c <;> exact .pure _

theorem identifier_keeps : Keeps P identifier := by
  refine h.next.bind fun first => ?_
  cases first with
  | none => exact .pure _
  | some first => exact ((h.readWhile isWordPart).bind fun _ => .pure _).ite (.pure _)

theorem comment_keeps : Keeps P comment := by
  refine h.next.bind fun first => ?_
  split
  · exact (h.readWhile _).bind fun _ => .pure _
  · exact .pure _

theorem stringLiteral_keeps : Keeps P stringLiteral := by
  refine Keeps.get.bind fun opening => h.next.bind fun first => ?_
  split
  · refine Keeps.get.bind fun c => ?_
    dsimp only
    split
    · exact (h.skip _).bind fun _ => .pure _
    · exact (h.skip _).bind fun _ => .pure _
  · exact .pure _

end

/-! The numbers keep what their lookahead keeps. -/

section
variable (h : Closed P) (hf : ∀ f ∈ followers, Keeps P f.2)
include h hf

theorem wouldFollow_keeps : Keeps P (wouldFollow followers) := by
  induction followers with
  | nil => exact Keeps.get.bind fun _ => .pure _
  | cons f more ih =>
    obtain ⟨hhead, hmore⟩ := List.forall_mem_cons.1 hf
    refine (h.speculate hhead).bind fun reading => ?_
    split
    · exact Keeps.get.bind fun _ => .pure _
    · exact .pure _
    · exact ih hmore

theorem endDigits_keeps (dotEnds : Bool) (digits : List Char) (c : Char) :
    Keeps P (endDigits followers dotEnds digits c) := by
  refine Keeps.get.bind fun _ => Keeps.ite (.pure _) (Keeps.ite (.pure _) ?_)
  refine (wouldFollow_keeps h hf).bind fun verdict => ?_
  split <;> exact .pure _

theorem digitRun_keeps (dotEnds : Bool) : Keeps P (digitRun followers dotEnds) := by
  refine Keeps.get.bind fun _ => Keeps.ite (.pure _) ?_
  refine (h.readWhile Char.isDigit).bind fun digits => h.next.bind fun c => ?_
  cases c with
  | none => exact .pure _
  | some c => exact h.undo.bind fun _ => endDigits_keeps h hf dotEnds digits c

theorem long_keeps : Keeps P (long followers) := by
  refine (digitRun_keeps h hf false).bind fun run => ?_
  cases run <;> exact .pure _

theorem fraction_keeps (whole : List Char) (seen : List Lookahead) :
    Keeps P (fraction followers whole seen) := by
  refine (digitRun_keeps h hf false).bind fun run => ?_
  cases run <;> exact .pure _

theorem double_keeps : Keeps P (double followers) := by
  refine Keeps.peek.bind fun c => Keeps.ite (h.next.bind fun _ => fraction_keeps h hf _ _) ?_
  refine (digitRun_keeps h hf true).bind fun run => ?_
  cases run with
  | read digits seen =>
    refine h.next.bind fun c => ?_
    split
    · exact fraction_keeps h hf _ _
    · exact .pure _
  | _ => exact .pure _

end

end Recognizer

theorem Rule.read_keeps (h : Scan.Closed P) {followers : List Recognizer.Follower}
    (hf : ∀ f ∈ followers, Scan.Keeps P f.2) (rule : Rule) :
    Scan.Keeps P (rule.read followers) := by
  cases rule with
  | spelling text notBefore => exact Recognizer.spelling_keeps h text notBefore
  | identifier => exact Recognizer.identifier_keeps h
  | long => exact Recognizer.long_keeps h hf
  | double => exact Recognizer.double_keeps h hf
  | string => exact Recognizer.stringLiteral_keeps h
  | comment => exact Recognizer.comment_keeps h

theorem Kind.recognize_keeps (h : Scan.Closed P) (k : Kind) : Scan.Keeps P k.recognize := by
  have hf : ∀ f ∈ Kind.followers, Scan.Keeps P f.2 := by
    intro f hmem
    obtain ⟨j, -, rfl⟩ := List.mem_map.1 hmem
    exact h.attempt (Rule.read_keeps h (fun _ hnone => by cases hnone) j.rule)
  exact h.attempt (Rule.read_keeps h hf k.rule)

/-! ## Scripts -/

namespace Script

variable {c : Cursor}

theorem perform_keeps {x : Scan α} (hx : Scan.Keeps P x) (answer : α → Answer) (hc : P c) :
    P (perform x answer c).2 := by
  unfold perform
  cases hrun : x c with
  | error fault => exact hc
  | ok r => exact hx hc hrun

theorem bracket_keeps (h : Scan.Closed P) {body : Cursor → List StepRecord × Cursor}
    (hbody : ∀ c, P c → P (body c).2) (keep : Bool) (hc : P c) :
    P (bracket keep body c).2 := by
  unfold bracket
  cases hopen : Scan.checkpoint c with
  | error fault => exact hc
  | ok r =>
    have hreached := hbody r.2 (h.checkpoint hc hopen)
    dsimp only
    cases hclose : Scan.release r.1 keep (body r.2).2 with
    | error fault => exact hreached
    | ok s => exact h.release r.1 keep hreached hclose

mutual

theorem run_keeps (h : Scan.Closed P) : ∀ (command : Command) (c : Cursor), P c → P (run command c).2
  | .next, _, hc => perform_keeps h.next _ hc
  | .peek, _, hc => perform_keeps .peek _ hc
  | .hasNext, _, hc => hc
  | .rawText, _, hc => hc
  | .undo, _, hc => perform_keeps h.undo _ hc
  | .save, _, hc => perform_keeps h.save _ hc
  | .restore, _, hc => perform_keeps h.restore _ hc
  | .discard, _, hc => perform_keeps h.discard _ hc
  | .isWhitespace _, _, hc => hc
  | .recognize kind, _, hc => perform_keeps (Kind.recognize_keeps h kind) _ hc
  | .checkpoint keep inner, _, hc => bracket_keeps h (runAll_keeps h inner) keep hc
  | .speculate inner, _, hc => bracket_keeps h (runAll_keeps h inner) false hc

theorem runAll_keeps (h : Scan.Closed P) :
    ∀ (commands : List Command) (c : Cursor), P c → P (runAll commands c).2
  | [], _, hc => hc
  | command :: more, c, hc => runAll_keeps h more _ (run_keeps h command c hc)

end

/-- The cursors that a script passes: in front of a command, behind the last one, and the same in
the body of a bracket. -/
inductive Visits : List Command → Cursor → Cursor → Prop where
  | here (commands c) : Visits commands c c
  | later {command more c d} (h : Visits more (run command c).2 d) : Visits (command :: more) c d
  | inCheckpoint {keep inner more c taken entered d}
    (hopen : Scan.checkpoint c = .ok (taken, entered)) (h : Visits inner entered d) :
    Visits (.checkpoint keep inner :: more) c d
  | inSpeculate {inner more c taken entered d}
    (hopen : Scan.checkpoint c = .ok (taken, entered)) (h : Visits inner entered d) :
    Visits (.speculate inner :: more) c d

theorem Visits.keeps (h : Scan.Closed P) {commands : List Command} {d : Cursor}
    (hvisit : Visits commands c d) (hc : P c) : P d := by
  induction hvisit with
  | here => exact hc
  | later _ ih => exact ih (run_keeps h _ _ hc)
  | inCheckpoint hopen _ ih => exact ih (h.checkpoint hc hopen)
  | inSpeculate hopen _ ih => exact ih (h.checkpoint hc hopen)

theorem runAll_moves_keeps (hnext : Scan.Keeps P Scan.next) (hundo : Scan.Keeps P Scan.undo)
    {moves : List Command} (h : ∀ m ∈ moves, m = .next ∨ m = .undo) (hc : P c) :
    P (runAll moves c).2 := by
  induction moves generalizing c with
  | nil => exact hc
  | cons m moves ih =>
    obtain ⟨hm, hmoves⟩ := List.forall_mem_cons.1 h
    refine ih hmoves ?_
    rcases hm with rfl | rfl
    · exact perform_keeps hnext _ hc
    · exact perform_keeps hundo _ hc

/-- Steps and undoings leave the saved places alone. -/
theorem saved_runAll_moves {moves : List Command} (h : ∀ m ∈ moves, m = .next ∨ m = .undo) :
    (runAll moves c).2.saved = c.saved := by
  refine runAll_moves_keeps (P := fun d => d.saved = c.saved) ?_ ?_ h rfl
  · exact Scan.next_saved
  · exact Scan.undo_saved

end Script

/-! ## Coherence -/

/-- A place of a text with the counts that the text gives it. -/
def Place.TrueIn (text : List Char) (p : Place) : Prop :=
  ∃ before, splitAtByte text p.offset = some (before, p.rest) ∧
    p.row = before.count '\n' ∧ p.col = (lastLine before).length

theorem Place.trueIn_behind (before rest : List Char) :
    TrueIn (before ++ rest) (behind before rest) :=
  ⟨before, splitAtByte_append before rest, rfl, rfl⟩

theorem Place.TrueIn.exists_behind {text : List Char} {p : Place} (h : p.TrueIn text) :
    ∃ before rest, text = before ++ rest ∧ p = behind before rest := by
  obtain ⟨before, hcut, hrow, hcol⟩ := h
  obtain ⟨htext, hoffset⟩ := append_of_splitAtByte hcut
  refine ⟨before, p.rest, htext, ?_⟩
  cases p
  cases hrow
  cases hcol
  cases hoffset
  rfl

/-- A step from a true place leads to one behind it. -/
theorem Place.TrueIn.past {text rest : List Char} {p q : Place} {char : Char} (h : p.TrueIn text)
    (hrest : p.rest = char :: rest) (hpast : p.past char rest = .ok q) :
    q.TrueIn text ∧ rest = q.rest ∧ p.offset ≤ q.offset := by
  obtain ⟨before, rest', htext, rfl⟩ := h.exists_behind
  obtain rfl : rest' = char :: rest := hrest
  rcases Place.past_behind before char rest with hstep | ⟨hfull, -⟩
  · obtain rfl : behind (before ++ [char]) rest = q := Except.ok.inj (hstep.symm.trans hpast)
    refine ⟨?_, rfl, by simp⟩
    have hafter : text = (before ++ [char]) ++ rest := by simp [htext]
    rw [hafter]
    exact trueIn_behind (before ++ [char]) rest
  · rw [hfull] at hpast
    cases hpast

namespace Cursor

/-- The place, the remembered place and the saved places of a cursor fit each other and a source. -/
structure Coherent (source : String) (c : Cursor) : Prop where
  source_eq : c.source = source
  place_true : c.place.TrueIn source.toList
  saved_true : ∀ p ∈ c.saved, p.TrueIn source.toList
  last_true : ∀ l, c.last = some l → l.TrueIn source.toList
  /-- The cursor is one character past the remembered place. -/
  last_step : ∀ l, c.last = some l →
    ∃ char, l.rest = char :: c.place.rest ∧ l.past char c.place.rest = .ok c.place
  /-- The saved places, the newest first, fall towards the bottom of the stack. -/
  saved_rise : c.saved.Pairwise fun newer older => older.offset ≤ newer.offset
  saved_le_place : ∀ p ∈ c.saved, p.offset ≤ c.place.offset
  saved_le_last : ∀ p ∈ c.saved, ∀ l, c.last = some l → p.offset ≤ l.offset

variable {c : Cursor} {settings : LexerSettings} {place : Place} {saved : List Place}

theorem coherent_ofSource : (ofSource source settings).Coherent source where
  source_eq := rfl
  place_true := Place.trueIn_behind [] source.toList
  saved_true := by simp [ofSource]
  last_true := by simp [ofSource]
  last_step := by simp [ofSource]
  saved_rise := .nil
  saved_le_place := by simp [ofSource]
  saved_le_last := by simp [ofSource]

namespace Coherent

/-- A coherent cursor stands where the source is cut. -/
theorem exists_standsAt (hc : c.Coherent source) :
    ∃ before rest, source.toList = before ++ rest ∧ c.StandsAt before rest := by
  obtain ⟨before, rest, htext, hplace⟩ := hc.place_true.exists_behind
  exact ⟨before, rest, htext, by rw [hc.source_eq, htext], hplace⟩

/-- A cursor with nothing to undo is coherent if its saved places are. -/
theorem of_last_none (hplace : place.TrueIn source.toList)
    (hsaved : ∀ p ∈ saved, p.TrueIn source.toList ∧ p.offset ≤ place.offset)
    (hrise : saved.Pairwise fun newer older => older.offset ≤ newer.offset) :
    Coherent source ⟨source, settings, place, none, saved⟩ where
  source_eq := rfl
  place_true := hplace
  saved_true p hp := (hsaved p hp).1
  last_true := by simp
  last_step := by simp
  saved_rise := hrise
  saved_le_place p hp := (hsaved p hp).2
  saved_le_last := by simp

theorem next_keeps : Scan.Keeps (Coherent source) Scan.next := by
  intro c a c' hc hrun
  rcases Scan.next_cases hrun with ⟨-, rfl⟩ | ⟨char, rest, place, hrest, hpast, -, rfl⟩
  · exact hc
  · obtain ⟨htrue, rfl, hle⟩ := hc.place_true.past hrest hpast
    constructor
    · exact hc.source_eq
    · exact htrue
    · exact hc.saved_true
    · rintro l ⟨⟩
      exact hc.place_true
    · rintro l ⟨⟩
      exact ⟨char, hrest, hpast⟩
    · exact hc.saved_rise
    · intro p hp
      exact Nat.le_trans (hc.saved_le_place p hp) hle
    · rintro p hp l ⟨⟩
      exact hc.saved_le_place p hp

theorem undo_keeps : Scan.Keeps (Coherent source) Scan.undo := by
  intro c a c' hc hrun
  unfold Scan.undo at hrun
  split at hrun
  · cases hrun
  · rename_i l hl
    cases hrun
    rw [hc.source_eq]
    refine of_last_none (hc.last_true l hl) ?_ hc.saved_rise
    exact fun p hp => ⟨hc.saved_true p hp, hc.saved_le_last p hp l hl⟩

theorem save_keeps : Scan.Keeps (Coherent source) Scan.save := by
  intro c a c' hc hrun
  cases hrun
  rw [hc.source_eq]
  refine of_last_none hc.place_true ?_ (List.pairwise_cons.2 ⟨hc.saved_le_place, hc.saved_rise⟩)
  refine List.forall_mem_cons.2 ⟨⟨hc.place_true, Nat.le_refl _⟩, fun p hp => ?_⟩
  exact ⟨hc.saved_true p hp, hc.saved_le_place p hp⟩

theorem restore_keeps : Scan.Keeps (Coherent source) Scan.restore := by
  intro c a c' hc hrun
  have htrue := hc.saved_true
  have hrise := hc.saved_rise
  unfold Scan.restore at hrun
  split at hrun
  · rename_i hs
    cases hrun
    rw [hc.source_eq, hs]
    exact of_last_none hc.place_true (by simp) .nil
  · rename_i top saved hs
    cases hrun
    rw [hs] at htrue hrise
    obtain ⟨htop, hsaved⟩ := List.forall_mem_cons.1 htrue
    obtain ⟨hle, hrise⟩ := List.pairwise_cons.1 hrise
    rw [hc.source_eq]
    exact of_last_none htop (fun p hp => ⟨hsaved p hp, hle p hp⟩) hrise

/-- Dropping a saved place leaves the others in order, and the step behind it may be undone. -/
theorem discard_keeps : Scan.Keeps (Coherent source) Scan.discard := by
  intro c a c' hc hrun
  unfold Scan.discard at hrun
  split at hrun
  · cases hrun
    exact hc
  · rename_i top saved hs
    cases hrun
    have hmem : ∀ p ∈ saved, p ∈ c.saved := fun p hp => hs ▸ List.mem_cons_of_mem top hp
    have hrise := hc.saved_rise
    rw [hs] at hrise
    exact
      { hc with
        saved_true := fun p hp => hc.saved_true p (hmem p hp)
        saved_rise := (List.pairwise_cons.1 hrise).2
        saved_le_place := fun p hp => hc.saved_le_place p (hmem p hp)
        saved_le_last := fun p hp => hc.saved_le_last p (hmem p hp) }

theorem closed : Scan.Closed (Coherent source) :=
  ⟨next_keeps, undo_keeps, save_keeps, restore_keeps, discard_keeps⟩

/-- Undoing the last step and taking it again gives the same character and the same cursor. -/
theorem undo_next (hc : c.Coherent source) (hl : c.last = some place) :
    ∃ char, place.rest = char :: c.place.rest ∧
      (do Scan.undo; Scan.next) c = .ok (some char, c) := by
  obtain ⟨char, hrest, hpast⟩ := hc.last_step place hl
  refine ⟨char, hrest, ?_⟩
  have hundo : Scan.undo c = .ok ((), { c with place, last := none }) := Scan.undo_of_last hl
  obtain ⟨before, rest, -, hat⟩ := (undo_keeps hc hundo).exists_standsAt
  have hb : { c with place, last := none : Cursor }.onBoundary = true := by
    rw [hat.eq_behind]
    exact onBoundary_behind none hat.1
  show (Scan.undo c >>= fun r => Scan.next r.2) = _
  rw [hundo]
  show Scan.next { c with place, last := none } = _
  rw [Scan.next_of_rest_cons hb hrest]
  simp only [hpast, ← hl]
  rfl

/-- On a short source every step and every recognizer answers. -/
theorem recognize_ok (hc : c.Coherent source) (hshort : source.length < counterBound) (k : Kind) :
    ∃ r, k.recognize c = .ok r := by
  obtain ⟨before, rest, -, hat⟩ := hc.exists_standsAt
  rw [← hc.source_eq] at hshort
  obtain ⟨seen, stop, hrun, -⟩ := recognize_of_short hshort hat k
  exact ⟨_, hrun⟩

theorem next_ok (hc : c.Coherent source) (hshort : source.length < counterBound) :
    ∃ r, Scan.next c = .ok r := by
  obtain ⟨before, rest, -, hat⟩ := hc.exists_standsAt
  rw [← hc.source_eq] at hshort
  rw [hat.eq_behind]
  cases rest with
  | nil => exact ⟨_, (Scan.next_settles_nil c.last hat.1).ok_of_short hshort⟩
  | cons char rest => exact ⟨_, (Scan.next_settles_cons c.last hat.1).ok_of_short hshort⟩

theorem peek_ok (hc : c.Coherent source) : ∃ r, Scan.peek c = .ok r := by
  obtain ⟨before, rest, -, hat⟩ := hc.exists_standsAt
  rw [hat.eq_behind]
  exact ⟨_, Scan.peek_of_onBoundary (onBoundary_behind c.last hat.1)⟩

theorem keeps_saved (hc : c.Coherent source) {moves : List Script.Command}
    (h : ∀ m ∈ moves, m = .next ∨ m = .undo) :
    (Script.runAll moves c).2.saved = c.saved ∧
      ∀ p ∈ c.saved, p.offset ≤ (Script.runAll moves c).2.place.offset := by
  have hsaved := Script.saved_runAll_moves (c := c) h
  have hafter := Script.runAll_keeps closed moves c hc
  refine ⟨hsaved, fun p hp => hafter.saved_le_place p ?_⟩
  rwa [hsaved]

end Coherent

end Cursor

/-- Wherever a script passes, the three pieces of a cursor's state are true to the source and agree:
undoing a step and taking it again changes nothing, and no sequence of steps and undoings leads in
front of a saved place. On a source of fewer characters than a counter has values the cursor also
answers every look, every step and every recognizer from there. -/
theorem visits_coherent {settings : LexerSettings} {commands : List Script.Command} {c : Cursor}
    (hshort : source.length < counterBound)
    (h : Script.Visits commands (.ofSource source settings) c) :
    c.Coherent source ∧
      (∀ l, c.last = some l → ∃ char, l.rest = char :: c.place.rest ∧
        (do Scan.undo; Scan.next) c = .ok (some char, c)) ∧
      (∀ moves : List Script.Command, (∀ m ∈ moves, m = .next ∨ m = .undo) →
        (Script.runAll moves c).2.saved = c.saved ∧
          ∀ p ∈ c.saved, p.offset ≤ (Script.runAll moves c).2.place.offset) ∧
      (∃ r, Scan.peek c = .ok r) ∧ (∃ r, Scan.next c = .ok r) ∧
      ∀ k : Kind, ∃ r, k.recognize c = .ok r := by
  have hc : c.Coherent source := h.keeps Cursor.Coherent.closed Cursor.coherent_ofSource
  refine ⟨hc, fun l hl => hc.undo_next hl, fun moves hmoves => hc.keeps_saved hmoves, ?_, ?_, ?_⟩
  · exact hc.peek_ok
  · exact hc.next_ok hshort
  · exact fun k => hc.recognize_ok hshort k

/-- In a bracket with a save of its own, one step past it. -/
theorem visits_coherent_in_bracket :
    ∃ c, Script.Visits [.next, .checkpoint true [.next, .save, .next, .discard]]
        (.ofSource "é\n\"x") c ∧
      c.place = ⟨['x'], 4, 1, 1⟩ ∧ c.last = some ⟨['"', 'x'], 3, 1, 0⟩ ∧
      c.saved = [⟨['"', 'x'], 3, 1, 0⟩, ⟨['\n', '"', 'x'], 2, 0, 1⟩] ∧
      c.Coherent "é\n\"x" ∧ (do Scan.undo; Scan.next) c = .ok (some '"', c) ∧
      (Script.runAll [.undo, .undo, .next] c).2.saved = c.saved := by
  have hshort : "é\n\"x".length < counterBound := by decide
  have hvisit := Script.Visits.here [.discard]
    (Script.runAll [.next, .save, .next] (Scan.atCheckpoint (Script.run .next (.ofSource "é\n\"x")).2)).2
  have hvisits : Script.Visits [.next, .checkpoint true [.next, .save, .next, .discard]]
      (.ofSource "é\n\"x") _ := .later (.inCheckpoint rfl (.later (.later (.later hvisit))))
  have hlast : (Script.runAll [.next, .save, .next]
      (Scan.atCheckpoint (Script.run .next (.ofSource "é\n\"x")).2)).2.last =
        some ⟨['"', 'x'], 3, 1, 0⟩ := by decide +kernel
  obtain ⟨hc, hundo, hmoves, -⟩ := visits_coherent hshort hvisits
  obtain ⟨char, hrest, hback⟩ := hundo _ hlast
  obtain rfl : '"' = char := (List.cons.inj hrest).1
  refine ⟨_, hvisits, by decide +kernel, hlast, by decide +kernel, hc, hback, ?_⟩
  exact (hmoves [.undo, .undo, .next] (by simp)).1

end ExprLex
