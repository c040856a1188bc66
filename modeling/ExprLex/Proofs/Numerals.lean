/-
  ExprLex.Proofs.Numerals — the lookahead and the two kinds of number.

  The lookahead answers `followEnd` and stays where it is, whatever list of other kinds it tries
  (`wouldFollow_settles`); a run of digits then ends as `digitsEnd` says (`digitRun_settles`), and
  whole numbers and fractions answer their verdicts. With the other rules that makes every kind
  answer its verdict under a checkpoint: a match moves the cursor behind the slice
  (`recognize_matched`), anything else leaves it where it was (`recognize_unmatched`).
-/

import ExprLex.Proofs.Recognition

namespace ExprLex

open Recognizer

variable {source : String} {c : Cursor} {before text : List Char}

/-! ## The lookahead -/

/-- A kind as the lookahead tries it. -/
def Kind.follower (k : Kind) : Follower := (k, attempt (k.rule.read []))

theorem followEnd_cons_hit {k : Kind} {kinds : List Kind}
    (h : (k.rule.plainVerdict text).isHit = true) :
    followEnd (k :: kinds) text = followEnd [k] text := by
  simp [followEnd, h]

theorem followEnd_cons_miss {k : Kind} {kinds : List Kind}
    (h : k.rule.plainVerdict text = .mismatch) : followEnd (k :: kinds) text = followEnd kinds text := by
  simp [followEnd, h]

/-- How the lookahead puts it that a number behind `before` ends so. -/
inductive Foresees (source : String) (before : List Char) :
    DigitsEnd → Except LexError Lookahead → Prop
  | good (k : Kind) (row col : Nat) : Foresees source before .good (.ok (.accepted k row col))
  | bad (row col : Nat) : Foresees source before .bad (.ok (.rejected row col))
  | unterminated :
    Foresees source before .unterminated (.error (unterminatedBehind source before))

/-- Trying a follower leaves nothing but its answer, also at the end of the input. -/
theorem follower_settles {k : Kind} (hk : k.isNumeric = false) (last : Option Place)
    (h : c.source.toList = before ++ text) :
    ∃ seen, Settles c.source (Scan.speculate k.follower.2 (c.behind before text last))
      (⟨(k.rule.plainVerdict text).outcome c.source before, seen⟩, c.behind before text none) := by
  obtain ⟨hl, hd⟩ := Kind.rule_of_not_numeric hk
  by_cases hne : text = []
  · subst hne
    rw [k.plainVerdict_nil]
    exact ⟨[], Scan.speculate_settles (Scan.attempt_settles_end rfl) rfl rfl rfl⟩
  · exact (read_judges_plain [] hl hd).speculate_attempt last h hne

/-- The lookahead answers `followEnd` and leaves nothing but its answer. -/
theorem wouldFollow_settles (kinds : List Kind) (hk : ∀ k ∈ kinds, k.isNumeric = false)
    (last : Option Place) (hlast : kinds = [] → last = none) (h : c.source.toList = before ++ text) :
    ∃ answer,
      Settles c.source (wouldFollow (kinds.map Kind.follower) (c.behind before text last))
        (answer, c.behind before text none) ∧
      Foresees c.source before (followEnd kinds text) answer := by
  induction kinds generalizing last with
  | nil =>
    rw [hlast rfl]
    exact ⟨_, Scan.get_settles.scan_bind Scan.pure_settles, .bad _ _⟩
  | cons k kinds ih =>
    obtain ⟨seen, htrial⟩ := follower_settles (hk k List.mem_cons_self) last h
    cases hv : k.rule.plainVerdict text with
    | matched t slice more =>
      rw [hv] at htrial
      have hend : followEnd (k :: kinds) text = .good := by
        rw [followEnd_cons_hit (by rw [hv]; rfl)]
        simp [followEnd, hv]
      rw [hend]
      exact ⟨_, htrial.scan_bind (Scan.get_settles.scan_bind Scan.pure_settles), .good k _ _⟩
    | mismatch =>
      rw [hv] at htrial
      obtain ⟨answer, hrest, hsee⟩ := ih (fun k' h' => hk k' (List.mem_cons_of_mem k h')) none fun _ => rfl
      rw [followEnd_cons_miss hv]
      exact ⟨answer, htrial.scan_bind hrest, hsee⟩
    | unterminated skipped =>
      rw [hv, (open_of_plainVerdict hv).1] at htrial
      have hend : followEnd (k :: kinds) text = .unterminated := by
        rw [followEnd_cons_hit (by rw [hv]; rfl)]
        simp [followEnd, hv]
      simp only [Verdict.outcome, List.append_nil] at htrial
      rw [hend]
      exact ⟨_, htrial.scan_bind Scan.pure_settles, .unterminated⟩

/-! ## Runs of digits -/

/-- How reading `digits` behind `before` puts it that they end so. -/
inductive Reports (source : String) (before digits : List Char) : DigitsEnd → DigitRun → Prop
  | good (seen : List Lookahead) : Reports source before digits .good (.read digits seen)
  | refused (seen : List Lookahead) : Reports source before digits .bad (.refused seen)
  | exhausted : Reports source before digits .bad .exhausted
  | unterminated : Reports source before digits .unterminated
      (.failed (unterminatedBehind source (before ++ digits)))

theorem reports_ofDigits (source : String) (before digits : List Char) :
    Reports source before digits (if digits = [] then .bad else .good) (DigitRun.ofDigits digits) := by
  cases digits with
  | nil => exact .refused []
  | cons d digits => exact .good []

theorem endDigits_settles (dotEnds : Bool) (digits : List Char) (last : Option Place) {d : Char}
    {after : List Char} (h : c.source.toList = (before ++ digits) ++ d :: after) :
    ∃ run last',
      Settles c.source
        (endDigits Kind.followers dotEnds digits d (c.behind (before ++ digits) (d :: after) last))
        (run, c.behind (before ++ digits) (d :: after) last') ∧
      Reports c.source before digits
        (if digits = [] then .bad else endBefore c.settings dotEnds (d :: after)) run := by
  by_cases hsep : (c.settings.isSeparator d || (dotEnds && d = '.')) = true
  · refine ⟨_, last, Scan.get_settles.scan_bind (Settles.scan_if_pos hsep Scan.pure_settles), ?_⟩
    simp only [endBefore, hsep, if_true]
    exact reports_ofDigits c.source before digits
  cases digits with
  | nil =>
    exact ⟨_, last, Scan.get_settles.scan_bind
      (Settles.scan_if_neg hsep (Settles.scan_if_pos rfl Scan.pure_settles)), .refused []⟩
  | cons e digits =>
    obtain ⟨answer, hrun, hsee⟩ := wouldFollow_settles Kind.nonNumeric (fun _ => not_numeric_of_mem)
      last (fun hnil => absurd hnil (by decide)) h
    have hempty : ¬ (e :: digits).isEmpty = true := Bool.false_ne_true
    simp only [endBefore, hsep, if_false, reduceCtorEq, Bool.false_eq_true]
    generalize followEnd Kind.nonNumeric (d :: after) = ending at hsee ⊢
    cases hsee with
    | good k row col =>
      exact ⟨_, none, Scan.get_settles.scan_bind (Settles.scan_if_neg hsep
        (Settles.scan_if_neg hempty (hrun.scan_bind Scan.pure_settles))), .good _⟩
    | bad row col =>
      exact ⟨_, none, Scan.get_settles.scan_bind (Settles.scan_if_neg hsep
        (Settles.scan_if_neg hempty (hrun.scan_bind Scan.pure_settles))), .refused _⟩
    | unterminated =>
      exact ⟨_, none, Scan.get_settles.scan_bind (Settles.scan_if_neg hsep
        (Settles.scan_if_neg hempty (hrun.scan_bind Scan.pure_settles))), .unterminated⟩

/-- A run of digits is read to its end, whatever the end is. -/
theorem digitRun_settles (dotEnds : Bool) (last : Option Place)
    (h : c.source.toList = before ++ text) :
    ∃ run last',
      Settles c.source (digitRun Kind.followers dotEnds (c.behind before text last))
        (run, c.behind (before ++ text.takeWhile Char.isDigit) (text.dropWhile Char.isDigit) last') ∧
      Reports c.source before (text.takeWhile Char.isDigit)
        (digitsEnd c.settings dotEnds text) run := by
  by_cases hne : text = []
  · subst hne
    refine ⟨_, last, Scan.get_settles.scan_bind (Settles.scan_if_pos rfl ?_), .exhausted⟩
    simpa using Scan.pure_settles
  have hnext : ¬ (!(c.behind before text last).hasNext) = true := by
    simp [Cursor.hasNext_behind last hne]
  obtain ⟨last', hread⟩ := Scan.readWhile_settles last Char.isDigit h
  have hs : c.source.toList =
      (before ++ text.takeWhile Char.isDigit) ++ text.dropWhile Char.isDigit := by
    rw [List.append_assoc, List.takeWhile_append_dropWhile, h]
  unfold digitsEnd
  cases haf : text.dropWhile Char.isDigit with
  | nil =>
    rw [haf] at hread hs
    exact ⟨_, last', Scan.get_settles.scan_bind (Settles.scan_if_neg hnext (hread.scan_bind
      ((Scan.next_settles_nil last' hs).scan_bind Scan.pure_settles))), reports_ofDigits _ _ _⟩
  | cons d after =>
    rw [haf] at hread hs
    obtain ⟨run, last'', hrun, hrep⟩ := endDigits_settles dotEnds _ none hs
    exact ⟨run, last'', Scan.get_settles.scan_bind (Settles.scan_if_neg hnext (hread.scan_bind
      ((Scan.next_settles_cons last' hs).scan_bind (Scan.undo_settles_next.scan_bind hrun)))), hrep⟩

/-! ## Numbers -/

theorem long_judges : Judges (long Kind.followers) Verdict.ofLong := by
  intro c before text last h
  obtain ⟨run, last', hrun, hrep⟩ := digitRun_settles false last h
  unfold Verdict.ofLong
  generalize digitsEnd c.settings false text = ending at hrep ⊢
  cases hrep with
  | good seen => exact .of_matched rfl (hrun.scan_bind Scan.pure_settles)
  | refused seen => exact .of_mismatch rfl (hrun.scan_bind Scan.pure_settles)
  | exhausted => exact .of_mismatch rfl (hrun.scan_bind Scan.pure_settles)
  | unterminated => exact .of_unterminated rfl (hrun.scan_bind Scan.pure_settles)

/-- The digits behind the dot, once `x` has read `whole` and goes on with the fraction. -/
theorem fraction_answers {x : Scan Reading} {lead whole : List Char} {seen : List Lookahead}
    {start last : Option Place} (h : c.source.toList = before ++ whole ++ text)
    (hx : ∀ b, Settles c.source
      (fraction Kind.followers (lead ++ whole) seen (c.behind (before ++ whole) text last)) b →
      Settles c.source (x (c.behind before (whole ++ text) start)) b) :
    Answers x c before (whole ++ text) start (Verdict.ofFraction c.settings lead whole text) := by
  obtain ⟨run, last', hrun, hrep⟩ := digitRun_settles false last h
  unfold Verdict.ofFraction
  rw [List.append_assoc] at hrun
  generalize digitsEnd c.settings false text = ending at hrep ⊢
  cases hrep with
  | good more => exact .of_matched rfl (hx _ (hrun.scan_bind Scan.pure_settles))
  | refused more => exact .of_mismatch rfl (hx _ (hrun.scan_bind Scan.pure_settles))
  | exhausted => exact .of_mismatch rfl (hx _ (hrun.scan_bind Scan.pure_settles))
  | unterminated =>
    have hplace := List.append_assoc before whole (text.takeWhile Char.isDigit)
    exact .of_unterminated rfl (hx _ (hrun.scan_bind (Scan.pure_settles_eq (by rw [hplace]; rfl))))

theorem double_judges : Judges (double Kind.followers) Verdict.ofDouble := by
  intro c before text last h
  have hpeek := Scan.peek_settles last h
  unfold Verdict.ofDouble
  by_cases hdot : text.head? = some '.'
  · rw [if_pos hdot]
    obtain ⟨after, rfl⟩ := List.head?_eq_some_iff.1 hdot
    have hs : c.source.toList = before ++ ['.'] ++ after := by simpa using h
    exact fraction_answers hs fun b hb => hpeek.scan_bind (Settles.scan_if_pos rfl
      ((Scan.next_settles_cons last h).scan_bind hb))
  rw [if_neg hdot]
  obtain ⟨run, last', hrun, hrep⟩ := digitRun_settles true last h
  have hcut : text.takeWhile Char.isDigit ++ text.dropWhile Char.isDigit = text :=
    List.takeWhile_append_dropWhile
  generalize digitsEnd c.settings true text = ending at hrep ⊢
  generalize text.takeWhile Char.isDigit = digits at hrun hrep hcut ⊢
  generalize text.dropWhile Char.isDigit = after at hrun hcut ⊢
  cases hrep with
  | good seen =>
    have hs : c.source.toList = (before ++ digits) ++ after := by
      rw [List.append_assoc, hcut, h]
    cases after with
    | nil =>
      exact .of_mismatch rfl (hpeek.scan_bind (Settles.scan_if_neg hdot (hrun.scan_bind
        ((Scan.next_settles_nil last' hs).scan_bind Scan.pure_settles))))
    | cons d after =>
      have hd := Scan.next_settles_cons last' hs
      by_cases he : d = '.'
      · subst he
        have hs' : c.source.toList = before ++ (digits ++ ['.']) ++ after := by simpa using hs
        rw [show text = (digits ++ ['.']) ++ after by simpa using hcut.symm] at hpeek hrun hdot ⊢
        rw [List.append_assoc] at hd
        exact fraction_answers hs' fun b hb => hpeek.scan_bind
          (Settles.scan_if_neg hdot (hrun.scan_bind (hd.scan_bind hb)))
      · refine .of_mismatch (by simp [Verdict.ofWhole, he]) (hpeek.scan_bind
          (Settles.scan_if_neg hdot (hrun.scan_bind (hd.scan_bind
            (Settles.scan_of_eq (y := pure (.mismatch seen)) ?_ Scan.pure_settles)))))
        simp [he]
  | refused more =>
    exact .of_mismatch rfl
      (hpeek.scan_bind (Settles.scan_if_neg hdot (hrun.scan_bind Scan.pure_settles)))
  | exhausted =>
    exact .of_mismatch rfl
      (hpeek.scan_bind (Settles.scan_if_neg hdot (hrun.scan_bind Scan.pure_settles)))
  | unterminated =>
    exact .of_unterminated rfl
      (hpeek.scan_bind (Settles.scan_if_neg hdot (hrun.scan_bind Scan.pure_settles)))

/-! ## Every kind -/

theorem read_judges (rule : Rule) : Judges (rule.read Kind.followers) rule.verdict := by
  cases rule with
  | long => exact long_judges
  | double => exact double_judges
  | spelling word notBefore => exact spelling_judges word notBefore
  | identifier => exact identifier_judges
  | string => exact string_judges
  | comment => exact comment_judges

/-- A kind that matches moves the cursor behind the slice. -/
theorem recognize_matched {k : Kind} (last : Option Place) (h : c.source.toList = before ++ text)
    {t slice more : List Char} (hv : k.verdict c.settings text = .matched t slice more) :
    ∃ seen last', Settles c.source (k.recognize (c.behind before text last))
      (⟨.matched (String.ofList t), seen⟩, c.behind (before ++ slice) more last') := by
  by_cases hne : text = []
  · simp [Kind.verdict, hne] at hv
  · rw [Kind.verdict_of_ne hne] at hv
    exact (read_judges k.rule).attempt_matched last h hne hv

/-- A kind that does not match leaves the cursor where it was, with nothing to undo. -/
theorem recognize_unmatched {k : Kind} (last : Option Place) (h : c.source.toList = before ++ text)
    (hne : text ≠ []) (hv : ¬ ∃ t slice more, k.verdict c.settings text = .matched t slice more) :
    ∃ seen, Settles c.source (k.recognize (c.behind before text last))
      (⟨(k.verdict c.settings text).outcome c.source before, seen⟩, c.behind before text none) := by
  rw [Kind.verdict_of_ne hne] at hv ⊢
  exact (read_judges k.rule).attempt_unmatched last h hne hv

/-- Every kind answers its verdict under its checkpoint, also at the end of the input. -/
theorem recognize_judges (k : Kind) : Judges k.recognize fun settings => k.verdict settings := by
  intro c before text last h
  by_cases hne : text = []
  · subst hne
    exact .of_mismatch rfl (Scan.attempt_settles_end rfl)
  by_cases hv : ∃ t slice more, k.verdict c.settings text = .matched t slice more
  · obtain ⟨t, slice, more, hv⟩ := hv
    obtain ⟨seen, last', hrun⟩ := recognize_matched last h hv
    exact .of_matched hv hrun
  · obtain ⟨seen, hrun⟩ := recognize_unmatched last h hne hv
    exact ⟨seen, before, text, none, hrun, fun t slice more he => absurd ⟨t, slice, more, he⟩ hv⟩

end ExprLex
