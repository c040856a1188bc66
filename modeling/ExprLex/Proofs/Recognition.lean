/-
  ExprLex.Proofs.Recognition — the recognizers answer the verdicts.

  `Judges scan verdict` says what a recognizer does at a true place of a source: it answers the
  verdict on the text that is left there, and after a match it stands behind the slice. It holds of
  every rule (`read_judges`), and so of every kind under its checkpoint: a match moves the cursor
  behind the slice (`recognize_matched`), and anything else leaves it where it was
  (`recognize_unmatched`). The lookahead of the numbers answers `followEnd` (`wouldFollow_settles`).
-/

import ExprLex.Proofs.Running
import ExprLex.Proofs.Verdict

namespace ExprLex

variable {source : String} {c : Cursor} {before text : List Char} {last : Option Place}

/-- The failure of a string literal that opens behind `before`. -/
def unterminatedBehind (source : String) (before : List Char) : LexError :=
  .unterminatedString (before.count '\n') (lastLine before).length source

/-- The outcome of a verdict on the text behind `before`. -/
def Verdict.outcome (source : String) (before : List Char) : Verdict → Outcome
  | matched text _ _ => .matched (String.ofList text)
  | mismatch => .mismatch
  | unterminated skipped => .failed (unterminatedBehind source (before ++ skipped))

/-- The scan answers the verdict on the text behind `before`, and a match leaves it behind the
    slice. -/
def Answers (x : Scan Reading) (c : Cursor) (before text : List Char) (last : Option Place)
    (verdict : Verdict) : Prop :=
  ∃ seen before' more' last',
    Settles c.source (x (c.behind before text last))
      (⟨verdict.outcome c.source before, seen⟩, c.behind before' more' last') ∧
    ∀ t slice more, verdict = .matched t slice more → before' = before ++ slice ∧ more' = more

/-- At every true place the scan answers the verdict on the text that is left there. -/
def Judges (x : Scan Reading) (verdict : LexerSettings → List Char → Verdict) : Prop :=
  ∀ (c : Cursor) (before text : List Char) (last : Option Place), c.source.toList = before ++ text →
    Answers x c before text last (verdict c.settings text)

namespace Answers

variable {x : Scan Reading} {verdict : Verdict} {before' more' : List Char} {last' : Option Place}
  {seen : List Lookahead}

theorem of_matched {t slice more : List Char} (hv : verdict = .matched t slice more)
    (h : Settles c.source (x (c.behind before text last))
      (⟨.matched (String.ofList t), seen⟩, c.behind (before ++ slice) more last')) :
    Answers x c before text last verdict := by
  subst hv
  refine ⟨seen, _, _, last', h, ?_⟩
  intro t' slice' more' he
  cases he
  exact ⟨rfl, rfl⟩

theorem of_mismatch (hv : verdict = .mismatch)
    (h : Settles c.source (x (c.behind before text last))
      (⟨.mismatch, seen⟩, c.behind before' more' last')) :
    Answers x c before text last verdict := by
  subst hv
  exact ⟨seen, _, _, last', h, fun _ _ _ he => by cases he⟩

theorem of_unterminated {skipped : List Char} (hv : verdict = .unterminated skipped)
    (h : Settles c.source (x (c.behind before text last))
      (⟨.failed (unterminatedBehind c.source (before ++ skipped)), seen⟩,
        c.behind before' more' last')) :
    Answers x c before text last verdict := by
  subst hv
  exact ⟨seen, _, _, last', h, fun _ _ _ he => by cases he⟩

end Answers

/-! ## Trials under a checkpoint -/

/-- The cursor with one place more on the stack. -/
def Cursor.saving (c : Cursor) (place : Place) : Cursor := { c with saved := place :: c.saved }

theorem isMatch_outcome (source : String) (before : List Char) (verdict : Verdict)
    (seen : List Lookahead) : (⟨verdict.outcome source before, seen⟩ : Reading).isMatch = true ↔
      ∃ t slice more, verdict = .matched t slice more := by
  cases verdict <;> simp [Verdict.outcome, Reading.isMatch]

namespace Judges

variable {x : Scan Reading} {verdict : LexerSettings → List Char → Verdict}

theorem attempt_matched (hx : Judges x verdict) (last : Option Place)
    (h : c.source.toList = before ++ text) (hne : text ≠ []) {t slice more : List Char}
    (hv : verdict c.settings text = .matched t slice more) :
    ∃ seen last', Settles c.source (attempt x (c.behind before text last))
      (⟨.matched (String.ofList t), seen⟩, c.behind (before ++ slice) more last') := by
  obtain ⟨seen, before', more', last', hrun, hstop⟩ :=
    hx (c.saving (.behind before text)) before text none h
  obtain ⟨rfl, rfl⟩ := hstop t slice more hv
  rw [show verdict (c.saving _).settings text = _ from hv] at hrun
  exact ⟨seen, last', Scan.attempt_settles_match (Cursor.hasNext_behind last hne) hrun rfl rfl⟩

theorem attempt_unmatched (hx : Judges x verdict) (last : Option Place)
    (h : c.source.toList = before ++ text) (hne : text ≠ [])
    (hv : ¬ ∃ t slice more, verdict c.settings text = .matched t slice more) :
    ∃ seen, Settles c.source (attempt x (c.behind before text last))
      (⟨(verdict c.settings text).outcome c.source before, seen⟩, c.behind before text none) := by
  obtain ⟨seen, before', more', last', hrun, -⟩ :=
    hx (c.saving (.behind before text)) before text none h
  have hmiss := Bool.eq_false_iff.2 (mt (isMatch_outcome c.source before _ seen).1 hv)
  exact ⟨seen, Scan.attempt_settles_miss (Cursor.hasNext_behind last hne) hrun hmiss rfl rfl rfl⟩

/-- A trial under a checkpoint that is then taken back leaves nothing but its answer. -/
theorem speculate_attempt (hx : Judges x verdict) (last : Option Place)
    (h : c.source.toList = before ++ text) (hne : text ≠ []) :
    ∃ seen, Settles c.source (Scan.speculate (attempt x) (c.behind before text last))
      (⟨(verdict c.settings text).outcome c.source before, seen⟩, c.behind before text none) := by
  by_cases hv : ∃ t slice more, verdict c.settings text = .matched t slice more
  · obtain ⟨t, slice, more, hv⟩ := hv
    obtain ⟨seen, last', hrun⟩ := hx.attempt_matched (c := c.saving (.behind before text)) none h hne hv
    rw [hv]
    exact ⟨seen, Scan.speculate_settles hrun rfl rfl rfl⟩
  · obtain ⟨seen, hrun⟩ := hx.attempt_unmatched (c := c.saving (.behind before text)) none h hne hv
    exact ⟨seen, Scan.speculate_settles hrun rfl rfl rfl⟩

end Judges

/-! ## Rules that do not look ahead -/

theorem expect_settles (word : List Char) (last : Option Place)
    (h : c.source.toList = before ++ text) :
    ∃ found before' more' last',
      Settles c.source (Recognizer.expect word (c.behind before text last))
        (found, c.behind before' more' last') ∧
      (found = true ↔ (text.take word.length).map Char.toLower = word.map Char.toLower) ∧
      (found = true → before' = before ++ text.take word.length ∧ more' = text.drop word.length) := by
  induction word generalizing before text last with
  | nil => exact ⟨true, before, text, last, Scan.pure_settles, by simp, by simp⟩
  | cons e word ih =>
    cases text with
    | nil =>
      refine ⟨false, before, [], last, ?_, by simp, by simp⟩
      exact (Scan.next_settles_nil last h).scan_bind Scan.pure_settles
    | cons d text =>
      have hd := Scan.next_settles_cons last h
      by_cases he : d.toLower = e.toLower
      · have hs : c.source.toList = (before ++ [d]) ++ text := by simpa using h
        obtain ⟨found, before', more', last', hrun, hiff, hstop⟩ :=
          ih (some (.behind before (d :: text))) hs
        refine ⟨found, before', more', last', hd.scan_bind (Settles.scan_if_pos he hrun), ?_, ?_⟩
        · simpa [he] using hiff
        · simpa using hstop
      · refine ⟨false, before ++ [d], text, some (.behind before (d :: text)), ?_, by simp [he],
          by simp⟩
        exact hd.scan_bind (Settles.scan_if_neg he Scan.pure_settles)

theorem bars_none (text : List Char) : CharClass.bars none text = false := rfl

theorem bars_some (barred : CharClass) (text : List Char) :
    CharClass.bars (some barred) text = text.head?.any barred.contains := by
  cases text <;> rfl

theorem spelling_judges (word : String) (notBefore : Option CharClass) :
    Judges (Recognizer.spelling word notBefore)
      fun _ => Verdict.ofSpelling word.toList notBefore := by
  intro c before text last h
  obtain ⟨found, before', more', last', hrun, hiff, hstop⟩ := expect_settles word.toList last h
  cases found with
  | false =>
    have hne : (text.take word.toList.length).map Char.toLower ≠ word.toList.map Char.toLower := by
      simpa using hiff
    exact .of_mismatch (if_neg fun hc => hne hc.1) (hrun.scan_bind Scan.pure_settles)
  | true =>
    have heq := hiff.1 rfl
    obtain ⟨rfl, rfl⟩ := hstop rfl
    have hs : c.source.toList =
        (before ++ text.take word.toList.length) ++ text.drop word.toList.length := by
      rw [List.append_assoc, List.take_append_drop, h]
    have hpeek := Scan.peek_settles last' hs
    cases notBefore with
    | none =>
      exact .of_matched (if_pos ⟨heq, bars_none _⟩)
        (hrun.scan_bind (hpeek.scan_bind Scan.pure_settles))
    | some barred =>
      have hb := bars_some barred (text.drop word.toList.length)
      cases hd : (text.drop word.toList.length).head? with
      | none =>
        rw [hd] at hb hpeek
        exact .of_matched (if_pos ⟨heq, hb⟩) (hrun.scan_bind (hpeek.scan_bind Scan.pure_settles))
      | some d =>
        rw [hd] at hb hpeek
        by_cases hc : barred.contains d = true
        · have hbar : CharClass.bars (some barred) (text.drop word.toList.length) = true := by
            simpa [hb] using hc
          exact .of_mismatch (if_neg fun hf => by rw [hbar] at hf; cases hf.2)
            (hrun.scan_bind (hpeek.scan_bind (Scan.pure_settles_eq (if_pos hc))))
        · have hbar : CharClass.bars (some barred) (text.drop word.toList.length) = false := by
            simpa [hb] using hc
          exact .of_matched (if_pos ⟨heq, hbar⟩)
            (hrun.scan_bind (hpeek.scan_bind (Scan.pure_settles_eq (if_neg hc))))

theorem identifier_judges : Judges Recognizer.identifier fun _ => Verdict.ofIdentifier := by
  intro c before text last h
  cases text with
  | nil => exact .of_mismatch rfl ((Scan.next_settles_nil last h).scan_bind Scan.pure_settles)
  | cons d text =>
    have hd := Scan.next_settles_cons last h
    by_cases ha : d.isAlpha = true
    · have hs : c.source.toList = (before ++ [d]) ++ text := by simpa using h
      obtain ⟨last', hrun⟩ := Scan.readWhile_settles (some (.behind before (d :: text))) isWordPart hs
      rw [List.append_assoc, List.singleton_append] at hrun
      exact .of_matched (if_pos ha)
        (hd.scan_bind (Settles.scan_if_pos ha (hrun.scan_bind Scan.pure_settles)))
    · exact .of_mismatch (if_neg ha) (hd.scan_bind (Settles.scan_if_neg ha Scan.pure_settles))

theorem comment_judges : Judges Recognizer.comment fun _ => Verdict.ofComment := by
  intro c before text last h
  cases text with
  | nil => exact .of_mismatch rfl ((Scan.next_settles_nil last h).scan_bind Scan.pure_settles)
  | cons d text =>
    have hd := Scan.next_settles_cons last h
    by_cases ha : d = '#'
    · subst ha
      have hs : c.source.toList = (before ++ ['#']) ++ text := by simpa using h
      obtain ⟨last', hrun⟩ := Scan.readWhile_settles (some (.behind before ('#' :: text))) (· ≠ '\n') hs
      rw [List.append_assoc, List.singleton_append] at hrun
      exact .of_matched rfl (hd.scan_bind (hrun.scan_bind Scan.pure_settles))
    · refine .of_mismatch (by simp [Verdict.ofComment, ha])
        (hd.scan_bind (Settles.scan_of_eq (y := pure .mismatch) ?_ Scan.pure_settles))
      simp [ha]

theorem string_judges : Judges Recognizer.stringLiteral fun _ => Verdict.ofString := by
  intro c before text last h
  cases text with
  | nil =>
    exact .of_mismatch rfl
      (Scan.get_settles.scan_bind ((Scan.next_settles_nil last h).scan_bind Scan.pure_settles))
  | cons d text =>
    have hd := Scan.next_settles_cons last h
    by_cases ha : d = '"'
    · subst ha
      have hs : c.source.toList = (before ++ ['"']) ++ text := by simpa using h
      cases hb : Recognizer.literalBody [] 0 text with
      | none =>
        have hs' : c.source.toList = (before ++ ['"']) ++ (text ++ []) := by simpa using hs
        obtain ⟨last', hrun⟩ := Scan.skip_settles (some (.behind before ('"' :: text))) text hs'
        rw [List.append_nil] at hrun
        have hv : Verdict.ofString ('"' :: text) = .unterminated [] := by simp [Verdict.ofString, hb]
        let failure := unterminatedBehind c.source (before ++ [])
        refine .of_unterminated hv (Scan.get_settles.scan_bind (hd.scan_bind
          (Scan.get_settles.scan_bind (Settles.scan_of_eq
            (y := do Scan.skip text.length; pure (.failed failure)) ?_
            (hrun.scan_bind Scan.pure_settles)))))
        simp [hb, failure, unterminatedBehind]
      | some result =>
        obtain ⟨out, count⟩ := result
        have hcount := (Recognizer.lt_and_le_of_literalBody hb).2
        have hlen : (text.take count).length = count := by
          rw [List.length_take]
          omega
        have hs' : c.source.toList = (before ++ ['"']) ++ (text.take count ++ text.drop count) := by
          simpa using hs
        obtain ⟨last', hrun⟩ :=
          Scan.skip_settles (some (.behind before ('"' :: text))) (text.take count) hs'
        rw [List.take_append_drop, hlen, List.append_assoc, List.singleton_append] at hrun
        have hv : Verdict.ofString ('"' :: text) =
            .matched out ('"' :: text.take count) (text.drop count) := by
          simp [Verdict.ofString, hb]
        refine .of_matched hv (Scan.get_settles.scan_bind (hd.scan_bind
          (Scan.get_settles.scan_bind (Settles.scan_of_eq
            (y := do Scan.skip count; pure (.matched out)) ?_ (hrun.scan_bind Scan.pure_settles)))))
        simp [hb]
    · refine .of_mismatch (by simp [Verdict.ofString, ha]) (Scan.get_settles.scan_bind
        (hd.scan_bind (Settles.scan_of_eq (y := pure .mismatch) ?_ Scan.pure_settles)))
      simp [ha]

/-- Every rule but the numbers answers its plain verdict, whatever may follow a number. -/
theorem read_judges_plain (followers : List Recognizer.Follower) {rule : Rule} (hl : rule ≠ .long)
    (hd : rule ≠ .double) : Judges (rule.read followers) fun _ => rule.plainVerdict := by
  cases rule with
  | spelling word notBefore => exact spelling_judges word notBefore
  | identifier => exact identifier_judges
  | string => exact string_judges
  | comment => exact comment_judges
  | long => exact absurd rfl hl
  | double => exact absurd rfl hd

end ExprLex
