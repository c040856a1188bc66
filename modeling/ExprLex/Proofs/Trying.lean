/-
  ExprLex.Proofs.Trying — a trial of a kind counts as a whole or leaves no trace.

  A recognizer reads, undoes and looks ahead on the one cursor, and may be left in the middle. What
  its checkpoint makes of that is `Atomic`: the saved places are those of before, a match has moved
  the cursor forward inside the source, and anything else has not moved it. The verdict on the text
  says which of the two it is (`recognize_atomic`).

  The lookahead of the numbers is a chain of such trials, each taken back. It may be asked of any
  kinds (`Kind.candidate`), the numbers included, which look ahead in their turn. The first kind to
  respond decides, and the cursor stays (`wouldFollow_settles_candidates`).
-/

import ExprLex.Proofs.Rewinding
import Mathlib.Control.Monad.Basic

namespace ExprLex

open Recognizer

variable {source : String} {settings : LexerSettings} {c : Cursor} {before text : List Char}

/-! ## One trial -/

/-- What a trial that answers `reading` makes of the cursor `c`. -/
structure Atomic (c : Cursor) (reading : Reading) (stop : Cursor) : Prop where
  source_eq : stop.source = c.source
  settings_eq : stop.settings = c.settings
  saved_eq : stop.saved = c.saved
  /-- Without a match the cursor is where it was. -/
  stays : reading.isMatch = false → stop.place = c.place
  /-- A match takes at least one character, also where its text is empty. -/
  advances : reading.isMatch = true → c.place.offset < stop.place.offset
  inside : stop.place.offset ≤ c.source.utf8ByteSize

theorem Cursor.StandsAt.offset_le (h : c.StandsAt before text) :
    c.place.offset ≤ c.source.utf8ByteSize := by
  rw [h.2, ← byteLength_toList, h.1, byteLength_append, Place.behind_offset]
  exact Nat.le_add_right _ _

/-- A trial that does not match may drop what could be undone, and nothing else. -/
theorem atomic_of_unmatched {reading : Reading} (h : c.StandsAt before text)
    (hm : reading.isMatch = false) (last : Option Place) :
    Atomic c reading (c.behind before text last) where
  source_eq := rfl
  settings_eq := rfl
  saved_eq := rfl
  stays _ := h.2.symm
  advances hmatch := by
    rw [hm] at hmatch
    cases hmatch
  inside := by
    have hle := h.offset_le
    rwa [h.2] at hle

theorem atomic_of_matched {reading : Reading} {slice more : List Char}
    (h : c.StandsAt before (slice ++ more)) (hm : reading.isMatch = true) (hne : slice ≠ [])
    (last : Option Place) : Atomic c reading (c.behind (before ++ slice) more last) where
  source_eq := rfl
  settings_eq := rfl
  saved_eq := rfl
  stays hmiss := by
    rw [hm] at hmiss
    cases hmiss
  advances _ := by
    have hpos := byteLength_pos hne
    simp only [h.2, Cursor.behind_place, Place.behind_offset, byteLength_append]
    omega
  inside := by
    have hbehind : (c.behind (before ++ slice) more last).StandsAt (before ++ slice) more :=
      ⟨by rw [Cursor.behind_source, h.1, List.append_assoc], rfl⟩
    exact hbehind.offset_le

/-- Every kind is tried as a whole, wherever the cursor stands and whatever it has saved. -/
theorem recognize_atomic (h : c.StandsAt before text) (k : Kind) :
    ∃ seen stop, Settles c.source (k.recognize c)
        (⟨(k.verdict c.settings text).outcome c.source before, seen⟩, stop) ∧
      Atomic c ⟨(k.verdict c.settings text).outcome c.source before, seen⟩ stop := by
  by_cases hv : ∃ t slice more, k.verdict c.settings text = .matched t slice more
  · obtain ⟨t, slice, more, hv⟩ := hv
    obtain ⟨seen, last', hrun⟩ := recognize_matched c.last h.1 hv
    obtain ⟨rfl, hne⟩ := cut_of_verdict hv
    rw [← h.eq_behind] at hrun
    rw [hv]
    exact ⟨seen, _, hrun, atomic_of_matched h rfl hne last'⟩
  · have hmiss : ∀ seen, (⟨(k.verdict c.settings text).outcome c.source before, seen⟩ :
        Reading).isMatch = false :=
      fun seen => Bool.eq_false_iff.2 (mt (isMatch_outcome c.source before _ seen).1 hv)
    by_cases hne : text = []
    · subst hne
      have hend : c.hasNext = false := by rw [Cursor.hasNext, h.2]; rfl
      have hstays := atomic_of_unmatched h (hmiss []) c.last
      rw [← h.eq_behind] at hstays
      exact ⟨[], c, Scan.attempt_settles_end hend, hstays⟩
    · obtain ⟨seen, hrun⟩ := recognize_unmatched c.last h.1 hne hv
      rw [← h.eq_behind] at hrun
      exact ⟨seen, _, hrun, atomic_of_unmatched h (hmiss seen) none⟩

/-! ## The lookahead over any kinds -/

/-- A kind as something that may follow. -/
def Kind.candidate (k : Kind) : Follower := (k, k.recognize)

/-- The numbers ask the kinds of the trials, with all that these may look ahead for themselves. -/
theorem followers_eq_candidates : Kind.followers = Kind.nonNumeric.map Kind.candidate := by
  unfold Kind.followers
  refine List.map_congr_left fun k hk => ?_
  obtain ⟨hl, hd⟩ := Kind.rule_of_not_numeric (not_numeric_of_mem hk)
  unfold Kind.candidate Kind.recognize
  generalize k.rule = rule at hl hd ⊢
  cases rule with
  | long => exact absurd rfl hl
  | double => exact absurd rfl hd
  | _ => rfl

/-- How the lookahead over some kinds ends behind `before` and in front of `text`. -/
inductive Foretells (settings : LexerSettings) (source : String) (before text : List Char)
    (kinds : List Kind) : Except LexError Lookahead → Prop
  | accepted {k : Kind} {t slice more : List Char} (hk : firstHit settings kinds text = some k)
    (hv : k.verdict settings text = .matched t slice more) :
    Foretells settings source before text kinds
      (.ok (.accepted k (before.count '\n') (lastLine before).length))
  | rejected (hnone : firstHit settings kinds text = none) :
    Foretells settings source before text kinds
      (.ok (.rejected (before.count '\n') (lastLine before).length))
  | unterminated {k : Kind} {skipped : List Char} (hk : firstHit settings kinds text = some k)
    (hv : k.verdict settings text = .unterminated skipped) :
    Foretells settings source before text kinds
      (.error (unterminatedBehind source (before ++ skipped)))

/-- Trying a candidate and going back leaves nothing but its answer. -/
theorem candidate_settles (k : Kind) (last : Option Place) (h : c.source.toList = before ++ text) :
    ∃ seen, Settles c.source (Scan.speculate k.candidate.2 (c.behind before text last))
      (⟨(k.verdict c.settings text).outcome c.source before, seen⟩, c.behind before text none) := by
  have hat : (Scan.atCheckpoint (c.behind before text last)).StandsAt before text := ⟨h, rfl⟩
  obtain ⟨seen, stop, hrun, hatomic⟩ := recognize_atomic hat k
  exact ⟨seen, Scan.speculate_settles hrun hatomic.source_eq hatomic.settings_eq hatomic.saved_eq⟩

/-- A candidate that does not respond leaves the answer to the others. -/
theorem Foretells.cons_miss {k : Kind} {kinds : List Kind} {answer : Except LexError Lookahead}
    (hk : ¬ (k.verdict settings text).isHit = true)
    (h : Foretells settings source before text kinds answer) :
    Foretells settings source before text (k :: kinds) answer := by
  cases h with
  | accepted hj hv => exact .accepted ((firstHit_cons_miss hk).trans hj) hv
  | rejected hnone => exact .rejected ((firstHit_cons_miss hk).trans hnone)
  | unterminated hj hv => exact .unterminated ((firstHit_cons_miss hk).trans hj) hv

theorem wouldFollow_settles_candidates (kinds : List Kind) (last : Option Place)
    (h : c.source.toList = before ++ text) :
    ∃ answer last', Settles c.source
        (wouldFollow (kinds.map Kind.candidate) (c.behind before text last))
        (answer, c.behind before text last') ∧
      Foretells c.settings c.source before text kinds answer := by
  induction kinds generalizing last with
  | nil => exact ⟨_, last, Scan.get_settles.scan_bind Scan.pure_settles, .rejected rfl⟩
  | cons k kinds ih =>
    obtain ⟨seen, htrial⟩ := candidate_settles k last h
    cases hv : k.verdict c.settings text with
    | matched t slice more =>
      rw [hv] at htrial
      exact ⟨_, none, htrial.scan_bind (Scan.get_settles.scan_bind Scan.pure_settles),
        .accepted (firstHit_cons_hit (Verdict.isHit_of_matched hv)) hv⟩
    | mismatch =>
      rw [hv] at htrial
      obtain ⟨answer, last', hrest, hends⟩ := ih none
      exact ⟨answer, last', htrial.scan_bind hrest, hends.cons_miss (by simp [hv])⟩
    | unterminated skipped =>
      rw [hv] at htrial
      exact ⟨_, none, htrial.scan_bind Scan.pure_settles,
        .unterminated (firstHit_cons_hit (by rw [hv]; rfl)) hv⟩

/-- The three ways in which asking whether one of the kinds may follow ends, by what the kinds
answer where the cursor stands. -/
inductive Follows (c : Cursor) (kinds : List Kind) : Except LexError Lookahead → Prop
  | accepted {k : Kind} {place : Place} (hk : k ∈ kinds) (hm : k.MatchesTo c place) :
    Follows c kinds (.ok (.accepted k c.place.row c.place.col))
  | rejected (hnone : ∀ k ∈ kinds, ¬ k.RespondsAt c) :
    Follows c kinds (.ok (.rejected c.place.row c.place.col))
  | unterminated {k : Kind} {row col : Nat} (hk : k ∈ kinds)
    (hf : k.FailsWith c (.unterminatedString row col c.source)) :
    Follows c kinds (.error (.unterminatedString row col c.source))

theorem follows_of_foretells {kinds : List Kind} {answer : Except LexError Lookahead}
    (hshort : c.source.length < counterBound) (h : c.StandsAt before text)
    (hends : Foretells c.settings c.source before text kinds answer) : Follows c kinds answer := by
  have hrow : before.count '\n' = c.place.row := by rw [h.2, Place.behind_row]
  have hcol : (lastLine before).length = c.place.col := by rw [h.2, Place.behind_col]
  cases hends with
  | accepted hk hv =>
    rw [hrow, hcol]
    exact .accepted (List.mem_of_find?_eq_some hk) (matchesTo_of_matched hshort h hv)
  | rejected hnone =>
    rw [hrow, hcol]
    refine .rejected fun k hk hresponds => ?_
    exact List.find?_eq_none.1 hnone k hk (isHit_of_respondsAt hshort h hresponds)
  | unterminated hk hv =>
    exact .unterminated (List.mem_of_find?_eq_some hk) (failsWith_of_unterminated hshort h hv)

/-- Wherever a script passes, every kind is tried as a whole: the saved places stay, a match moves
the cursor forward inside the source, and a mismatch or a failure does not move it. The lookahead
over any kinds stays with its saved places where it is, whichever way it ends. -/
theorem trials_atomic {commands : List Script.Command} (hshort : source.length < counterBound)
    (h : Script.Visits commands (.ofSource source settings) c) :
    (∀ k : Kind, ∃ reading stop, k.recognize c = .ok (reading, stop) ∧ Atomic c reading stop) ∧
      ∀ kinds : List Kind, ∃ answer stop,
        wouldFollow (kinds.map Kind.candidate) c = .ok (answer, stop) ∧
          stop.place = c.place ∧ stop.saved = c.saved ∧ Follows c kinds answer := by
  have hc : c.Coherent source := h.keeps Cursor.Coherent.closed Cursor.coherent_ofSource
  obtain ⟨before, text, -, hat⟩ := hc.exists_standsAt
  rw [← hc.source_eq] at hshort
  constructor
  · intro k
    obtain ⟨seen, stop, hrun, hatomic⟩ := recognize_atomic hat k
    exact ⟨_, stop, hrun.ok_of_short hshort, hatomic⟩
  · intro kinds
    obtain ⟨answer, last', hrun, hends⟩ := wouldFollow_settles_candidates kinds c.last hat.1
    rw [← hat.eq_behind] at hrun
    exact ⟨answer, _, hrun.ok_of_short hshort, hat.2.symm, rfl,
      follows_of_foretells hshort hat hends⟩

/-- In a bracket with a save of its own, in front of digits that a literal follows which is never
closed. -/
theorem trials_atomic_in_bracket :
    ∃ c, Script.Visits [.next, .checkpoint true [.next, .save, .next, .discard]]
        (.ofSource "é\n12\"x") c ∧
      c.place = ⟨['2', '"', 'x'], 4, 1, 1⟩ ∧
      c.saved = [⟨['1', '2', '"', 'x'], 3, 1, 0⟩, ⟨['\n', '1', '2', '"', 'x'], 2, 0, 1⟩] ∧
      (∃ reading stop, Kind.long.recognize c = .ok (reading, stop) ∧
        reading.outcome = .failed (.unterminatedString 1 2 "é\n12\"x") ∧
        stop.place = c.place ∧ stop.saved = c.saved) ∧
      ∃ stop, wouldFollow ([.identifier, .double].map Kind.candidate) c =
          .ok (.error (.unterminatedString 1 2 "é\n12\"x"), stop) ∧
        stop.place = c.place ∧ stop.saved = c.saved := by
  have hshort : "é\n12\"x".length < counterBound := by decide
  obtain ⟨c, hc, hvisits⟩ : ∃ c, c = (Script.run .next (Script.run .save (Script.run .next
      (Scan.atCheckpoint (Script.run .next (.ofSource "é\n12\"x")).2)).2).2).2 ∧
      Script.Visits [.next, .checkpoint true [.next, .save, .next, .discard]]
        (.ofSource "é\n12\"x") c :=
    ⟨_, rfl, .later (.inCheckpoint rfl (.later (.later (.later (.here [.discard] _)))))⟩
  obtain ⟨htrials, hfollows⟩ := trials_atomic hshort hvisits
  obtain ⟨reading, stop, hrun, hatomic⟩ := htrials .long
  obtain ⟨answer, stop', hask, hstays, hsaved, -⟩ := hfollows [.identifier, .double]
  have hfails : (Kind.long.recognize c).map (fun r => r.1.outcome) =
      .ok (.failed (.unterminatedString 1 2 "é\n12\"x")) := by
    rw [hc]
    decide +kernel
  have hpasses : (wouldFollow ([.identifier, .double].map Kind.candidate) c).map Prod.fst =
      .ok (.error (.unterminatedString 1 2 "é\n12\"x")) := by
    rw [hc]
    decide +kernel
  rw [hrun] at hfails
  have houtcome : reading.outcome = .failed (.unterminatedString 1 2 "é\n12\"x") :=
    Except.ok.inj hfails
  rw [hask] at hpasses
  rw [show answer = _ from Except.ok.inj hpasses] at hask
  have hplace : c.place = ⟨['2', '"', 'x'], 4, 1, 1⟩ := by
    rw [hc]
    decide +kernel
  have hstack : c.saved =
      [⟨['1', '2', '"', 'x'], 3, 1, 0⟩, ⟨['\n', '1', '2', '"', 'x'], 2, 0, 1⟩] := by
    rw [hc]
    decide +kernel
  refine ⟨c, hvisits, hplace, hstack, ?_, ?_⟩
  · exact ⟨reading, stop, hrun, houtcome, hatomic.stays (by rw [Reading.isMatch, houtcome]),
      hatomic.saved_eq⟩
  · exact ⟨stop', hask, hstays, hsaved⟩

end ExprLex
