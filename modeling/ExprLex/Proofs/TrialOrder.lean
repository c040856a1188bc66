/-
  ExprLex.Proofs.TrialOrder — what the order of the trials decides.

  At a place of the source at most one kind responds, or two of them do as `Overlap` says
  (`Responses`). So the order of the trials matters only where a reserved word is tried against an
  identifier and an arrow against the sign for assignment: every order that ranks these as the
  trial order does (`Ranks`) finds the same next token or failure and leaves the same cursor. The
  numbers' lookahead asks whether anything matches, so its answer does not depend on an order at all.
-/

import ExprLex.Proofs.Lexing
import ExprLex.Proofs.Overlap

namespace ExprLex

variable {settings : LexerSettings} {source : String} {c : Cursor} {before text : List Char}
  {order order' : List Kind} {k j i : Kind}

/-! ## First hits -/

namespace Overlap

theorem isHit_left (h : Overlap settings text k j) : (k.verdict settings text).isHit = true := by
  cases h with
  | word _ hk _ => rw [hk]; rfl
  | arrow ha _ => rw [ha]; rfl
  | number hl _ => rw [hl]; rfl

theorem isHit_right (h : Overlap settings text k j) : (j.verdict settings text).isHit = true := by
  cases h with
  | word _ _ hi => rw [hi]; rfl
  | arrow _ hs => rw [hs]; rfl
  | number _ hd => rw [hd]; rfl

/-- What is second in a pair is first in none. -/
theorem not_first (h : Overlap settings text k j) (h' : Overlap settings text j i) : False := by
  cases h with
  | word _ _ _ =>
    cases h' with
    | word hw _ _ => exact absurd hw (by decide)
  | arrow _ _ =>
    cases h' with
    | word hw _ _ => exact absurd hw (by decide)
  | number _ _ =>
    cases h' with
    | word hw _ _ => exact absurd hw (by decide)

/-- A kind that answers beside two that overlap is one of them. -/
theorem only (hsep : settings.isSeparator '.' = false) (h : Overlap settings text k j)
    (hi : (i.verdict settings text).isHit = true) : i = k ∨ i = j := by
  rcases overlap_of_hits hsep hi h.isHit_right with rfl | hij | hji
  · exact .inr rfl
  · rcases overlap_of_hits hsep hi h.isHit_left with rfl | hik | hki
    · exact .inl rfl
    · exact (hik.not_first h).elim
    · exact (hki.not_first hij).elim
  · exact (h.not_first hji).elim

end Overlap

/-- An order of all kinds that ranks the overlapping ones as the trial order does. -/
structure Ranks (order : List Kind) : Prop where
  perm : order.Perm Kind.trialOrder
  words : ∀ w ∈ Kind.reserved, order.idxOf w < order.idxOf Kind.identifier
  arrow : order.idxOf Kind.arrow < order.idxOf Kind.assign

theorem ranks_trialOrder : Ranks Kind.trialOrder := ⟨.refl _, by decide, by decide⟩

theorem Ranks.mem (h : Ranks order) (k : Kind) : k ∈ order := by
  have check : ∀ k ∈ Kind.all, k ∈ Kind.trialOrder := by decide
  exact h.perm.mem_iff.2 (check k k.mem_all)

theorem Ranks.ne_nil (h : Ranks order) : order ≠ [] := List.ne_nil_of_mem (h.mem .arrow)

/-- Nothing that is tried before the first hit is one. -/
theorem not_isHit_of_idxOf_lt (hk : firstHit settings order text = some k)
    (hlt : order.idxOf j < order.idxOf k) : ¬ (j.verdict settings text).isHit = true := by
  obtain ⟨hhit, earlier, later, rfl, hmiss⟩ := List.find?_eq_some_iff_append.1 hk
  have hk' : k ∉ earlier := fun hmem => by simpa [hhit] using hmiss k hmem
  rw [List.idxOf_append, List.idxOf_append, if_neg hk', List.idxOf_cons_self] at hlt
  split at hlt
  · rename_i hmem
    simpa using hmiss j hmem
  · omega

theorem firstHit_isSome (h : Ranks order) (hk : (k.verdict settings text).isHit = true) :
    ∃ j, firstHit settings order text = some j :=
  Option.isSome_iff_exists.1 (List.find?_isSome.2 ⟨k, h.mem k, hk⟩)

/-- The second of two that overlap is hit first only where both are numbers that fail. -/
theorem Overlap.unterminated_of_firstHit (h : Overlap settings text k j) (hr : Ranks order)
    (hj : firstHit settings order text = some j) :
    ∃ skipped, k.verdict settings text = .unterminated skipped ∧
      j.verdict settings text = .unterminated skipped := by
  have hk := h.isHit_left
  cases h with
  | word hw _ _ => exact absurd hk (not_isHit_of_idxOf_lt hj (hr.words _ hw))
  | arrow _ _ => exact absurd hk (not_isHit_of_idxOf_lt hj hr.arrow)
  | number hl hd => exact ⟨_, hl, hd⟩

/-- Orders that rank alike have the same first hit, or two numbers fail at the same literal. -/
theorem firstHit_of_ranks (hsep : settings.isSeparator '.' = false) (h : Ranks order)
    (h' : Ranks order') (hk : firstHit settings order text = some k)
    (hj : firstHit settings order' text = some j) :
    k = j ∨ ∃ skipped, k.verdict settings text = .unterminated skipped ∧
      j.verdict settings text = .unterminated skipped := by
  rcases overlap_of_hits hsep (isHit_of_firstHit hk) (isHit_of_firstHit hj) with rfl | hkj | hjk
  · exact .inl rfl
  · exact .inr (hkj.unterminated_of_firstHit h' hj)
  · obtain ⟨skipped, hfirst, hsecond⟩ := hjk.unterminated_of_firstHit h hk
    exact .inr ⟨skipped, hsecond, hfirst⟩

/-! ## The next token -/

/-- Both orders make the same choice and leave the same cursor. -/
def ChooseAlike (order order' : List Kind) (c : Cursor) : Prop :=
  ∃ choice seen seen' stop, Settles c.source (Scan.firstMatch order c) ((choice, seen), stop) ∧
    Settles c.source (Scan.firstMatch order' c) ((choice, seen'), stop)

theorem chooseAlike_of_unterminated {skipped : List Char} (last : Option Place)
    (hs : c.source.toList = before ++ text) (hk : firstHit c.settings order text = some k)
    (hj : firstHit c.settings order' text = some j)
    (hv : k.verdict c.settings text = .unterminated skipped)
    (hv' : j.verdict c.settings text = .unterminated skipped) :
    ChooseAlike order order' (c.behind before text last) := by
  obtain ⟨seen, hrun⟩ := Scan.firstMatch_settles_unterminated order last hs hk hv
  obtain ⟨seen', hrun'⟩ := Scan.firstMatch_settles_unterminated order' last hs hj hv'
  exact ⟨_, seen, seen', _, hrun, hrun'⟩

/-- The one kind is tried with nothing to undo in both orders, so it ends in one place. -/
theorem chooseAlike_of_matched {t slice more : List Char} (last : Option Place)
    (hs : c.source.toList = before ++ text) (hk : firstHit c.settings order text = some k)
    (hj : firstHit c.settings order' text = some k)
    (hv : k.verdict c.settings text = .matched t slice more) :
    ChooseAlike order order' (c.behind before text last) := by
  obtain ⟨_, _, htrial⟩ := recognize_matched none hs hv
  obtain ⟨seen, hrun⟩ := Scan.firstMatch_settles_some order last hs hk (by simp) htrial
  obtain ⟨seen', hrun'⟩ := Scan.firstMatch_settles_some order' last hs hj (by simp) htrial
  exact ⟨_, seen, seen', _, hrun, hrun'⟩

section
variable (hsep : c.settings.isSeparator '.' = false) (h : Ranks order) (h' : Ranks order')
include hsep h h'

theorem chooseAlike_of_ranks (last : Option Place) (hs : c.source.toList = before ++ text)
    (hne : text ≠ []) : ChooseAlike order order' (c.behind before text last) := by
  cases hk : firstHit c.settings order text with
  | none =>
    cases hj : firstHit c.settings order' text with
    | none =>
      obtain ⟨seen, hrun⟩ := Scan.firstMatch_settles_none order last
        (fun hnil => absurd hnil h.ne_nil) hs hne hk
      obtain ⟨seen', hrun'⟩ := Scan.firstMatch_settles_none order' last
        (fun hnil => absurd hnil h'.ne_nil) hs hne hj
      exact ⟨_, seen, seen', _, hrun, hrun'⟩
    | some j =>
      obtain ⟨k, hk'⟩ := firstHit_isSome h (isHit_of_firstHit hj)
      rw [hk] at hk'
      cases hk'
  | some k =>
    obtain ⟨j, hj⟩ := firstHit_isSome h' (isHit_of_firstHit hk)
    rcases firstHit_of_ranks hsep h h' hk hj with rfl | ⟨skipped, hv, hv'⟩
    · cases hv : k.verdict c.settings text with
      | mismatch =>
        have hhit := isHit_of_firstHit hk
        rw [hv] at hhit
        cases hhit
      | unterminated skipped => exact chooseAlike_of_unterminated last hs hk hj hv hv
      | matched t slice more => exact chooseAlike_of_matched last hs hk hj hv
    · exact chooseAlike_of_unterminated last hs hk hj hv hv'

/-- Orders that rank alike find the same and leave the same cursor. -/
theorem nextTokenBy_of_ranks (last : Option Place) (hs : c.source.toList = before ++ text) :
    ∃ found events events' stop,
      Settles c.source (Scan.nextTokenBy order (c.behind before text last))
        (⟨found, events⟩, stop) ∧
      Settles c.source (Scan.nextTokenBy order' (c.behind before text last))
        (⟨found, events'⟩, stop) := by
  obtain ⟨hcut, hg, hstop⟩ := cut_where_stops c.settings.isSeparator text
  generalize text.takeWhile c.settings.isSeparator = gap at hcut hg
  generalize text.dropWhile c.settings.isSeparator = rest at hcut hstop
  subst hcut
  have hstart : c.source.toList = (before ++ gap) ++ rest := by simpa using hs
  obtain ⟨last', hskip⟩ := Scan.skipSeparators_settles last hs hg hstop
  have hpeek := Scan.peek_settles last' hstart
  cases rest with
  | nil =>
    exact ⟨_, _, _, _, Scan.nextTokenBy_settles_nothing hskip hpeek,
      Scan.nextTokenBy_settles_nothing hskip hpeek⟩
  | cons d rest =>
    obtain ⟨choice, seen, seen', stop, hfirst, hfirst'⟩ :=
      chooseAlike_of_ranks hsep h h' last' hstart (List.cons_ne_nil d rest)
    obtain ⟨events, hnext⟩ := Scan.nextTokenBy_settles_choice hskip hpeek hfirst
    obtain ⟨events', hnext'⟩ := Scan.nextTokenBy_settles_choice hskip hpeek hfirst'
    exact ⟨_, events, events', stop, hnext, hnext'⟩

end

/-! ## The lookahead -/

/-- Whether a lookahead found something. -/
def Lookahead.isAccepted : Lookahead → Bool
  | accepted .. => true
  | rejected .. => false

theorem Overlap.matched (h : Overlap settings text k j) (hk : k.isNumeric = false) :
    (∃ t slice more, k.verdict settings text = .matched t slice more) ∧
      ∃ t slice more, j.verdict settings text = .matched t slice more := by
  cases h with
  | word _ hk hi => exact ⟨⟨_, _, _, hk⟩, _, _, _, hi⟩
  | arrow ha hs => exact ⟨⟨_, _, _, ha⟩, _, _, _, hs⟩
  | number _ _ => cases hk

/-- Two kinds but the numbers that answer at one text both match. -/
theorem matched_of_two_hits (hk : k ∈ Kind.nonNumeric) (hj : j ∈ Kind.nonNumeric)
    (hhit : (k.rule.plainVerdict text).isHit = true)
    (hhit' : (j.rule.plainVerdict text).isHit = true) :
    k = j ∨ (∃ t slice more, k.rule.plainVerdict text = .matched t slice more) ∧
      ∃ t slice more, j.rule.plainVerdict text = .matched t slice more := by
  have hne : text ≠ [] := by
    intro he
    subst he
    rw [k.plainVerdict_nil] at hhit
    cases hhit
  have hk' := not_numeric_of_mem hk
  have hj' := not_numeric_of_mem hj
  -- no settings bear on these verdicts, so the default ones will do
  have hv : k.verdict {} text = k.rule.plainVerdict text := Kind.verdict_of_not_numeric hk' hne
  have hv' : j.verdict {} text = j.rule.plainVerdict text := Kind.verdict_of_not_numeric hj' hne
  rw [← hv] at hhit ⊢
  rw [← hv'] at hhit' ⊢
  rcases overlap_of_hits (by decide) hhit hhit' with rfl | hkj | hjk
  · exact .inl rfl
  · exact .inr (hkj.matched hk')
  · exact .inr (hjk.matched hj').symm

theorem exists_find_of_perm (h : order.Perm order') {p : Kind → Bool} (hk : order.find? p = some k) :
    ∃ j, order'.find? p = some j := by
  have hmem := h.mem_iff.1 (List.mem_of_find?_eq_some hk)
  exact Option.isSome_iff_exists.1 (List.find?_isSome.2 ⟨k, hmem, List.find?_some hk⟩)

/-- Whether anything lets a number end does not depend on the order in which it is asked. -/
theorem followEnd_of_perm (h : order.Perm Kind.nonNumeric) :
    followEnd order text = followEnd Kind.nonNumeric text := by
  unfold followEnd
  generalize hp : (fun k : Kind => (k.rule.plainVerdict text).isHit) = p
  cases hk : order.find? p with
  | none =>
    cases hj : Kind.nonNumeric.find? p with
    | none => rfl
    | some j =>
      obtain ⟨k, hk'⟩ := exists_find_of_perm h.symm hj
      rw [hk] at hk'
      cases hk'
  | some k =>
    obtain ⟨j, hj⟩ := exists_find_of_perm h hk
    have hhit := List.find?_some hk
    have hhit' := List.find?_some hj
    subst hp
    rw [hj]
    rcases matched_of_two_hits (h.mem_iff.1 (List.mem_of_find?_eq_some hk))
      (List.mem_of_find?_eq_some hj) hhit hhit' with rfl | ⟨⟨_, _, _, hv⟩, _, _, _, hv'⟩
    · rfl
    · simp only [hv, hv']

theorem wouldFollow_of_perm (h : order.Perm Kind.nonNumeric) (last : Option Place)
    (hs : c.source.toList = before ++ text) :
    ∃ answer answer',
      Settles c.source (Recognizer.wouldFollow Kind.followers (c.behind before text last))
        (answer, c.behind before text none) ∧
      Settles c.source
        (Recognizer.wouldFollow (order.map Kind.follower) (c.behind before text last))
        (answer', c.behind before text none) ∧
      answer.map Lookahead.isAccepted = answer'.map Lookahead.isAccepted := by
  have hnil : order ≠ [] := by
    intro he
    subst he
    cases h.nil_eq
  obtain ⟨answer, hrun, hsee⟩ := wouldFollow_settles Kind.nonNumeric (fun _ => not_numeric_of_mem)
    last (fun he => absurd he (by decide)) hs
  obtain ⟨answer', hrun', hsee'⟩ := wouldFollow_settles order
    (fun k hk => not_numeric_of_mem (h.mem_iff.1 hk)) last (fun he => absurd he hnil) hs
  rw [followEnd_of_perm h] at hsee'
  refine ⟨answer, answer', hrun, hrun', ?_⟩
  generalize followEnd Kind.nonNumeric text = ending at hsee hsee'
  cases hsee with
  | good => cases hsee' with
    | good => rfl
  | bad => cases hsee' with
    | bad => rfl
  | unterminated => cases hsee' with
    | unterminated => rfl

/-! ## The kinds that respond -/

namespace Kind

/-- Trying the kind gives something else than that it does not match. -/
def RespondsAt (k : Kind) (c : Cursor) : Prop :=
  ∃ reading stop, k.recognize c = .ok (reading, stop) ∧ reading.outcome ≠ .mismatch

/-- The kind matches all that lies before a place. -/
def MatchesTo (k : Kind) (c : Cursor) (place : Place) : Prop :=
  ∃ text seen stop, k.recognize c = .ok (⟨.matched text, seen⟩, stop) ∧ stop.place = place

def FailsWith (k : Kind) (c : Cursor) (error : LexError) : Prop :=
  ∃ seen stop, k.recognize c = .ok (⟨.failed error, seen⟩, stop)

end Kind

/-- The kinds that respond where a cursor stands: at most one, or two that overlap. -/
inductive Responses (c : Cursor) : Prop
  | single (h : ∀ k j : Kind, k.RespondsAt c → j.RespondsAt c → k = j)
  /-- A reserved word and an identifier read the same. -/
  | word {w : Kind} {place : Place} (hw : w ∈ Kind.reserved) (hk : w.MatchesTo c place)
    (hi : Kind.identifier.MatchesTo c place)
    (only : ∀ k : Kind, k.RespondsAt c → k = w ∨ k = .identifier)
  | arrow {place place' : Place} (ha : Kind.arrow.MatchesTo c place)
    (hs : Kind.assign.MatchesTo c place')
    (only : ∀ k : Kind, k.RespondsAt c → k = .arrow ∨ k = .assign)
  /-- Two numbers meet a literal that is never closed. -/
  | number {row col : Nat} (hl : Kind.long.FailsWith c (.unterminatedString row col c.source))
    (hd : Kind.double.FailsWith c (.unterminatedString row col c.source))
    (only : ∀ k : Kind, k.RespondsAt c → k = .long ∨ k = .double)

section
variable (hshort : c.source.length < counterBound) (h : c.StandsAt before text)
include hshort h

theorem recognize_of_short (k : Kind) : ∃ seen stop, k.recognize c =
    .ok (⟨(k.verdict c.settings text).outcome c.source before, seen⟩, stop) ∧
      ∀ t slice more, k.verdict c.settings text = .matched t slice more →
        stop.place = .behind (before ++ slice) more := by
  obtain ⟨seen, before', more', last', hrun, hstop⟩ :=
    recognize_judges k c before text c.last h.1
  rw [← h.eq_behind] at hrun
  refine ⟨seen, _, hrun.ok_of_short hshort, fun t slice more hv => ?_⟩
  obtain ⟨rfl, rfl⟩ := hstop t slice more hv
  rfl

theorem isHit_of_respondsAt (hk : k.RespondsAt c) : (k.verdict c.settings text).isHit = true := by
  obtain ⟨reading, stop, hrun, hne⟩ := hk
  obtain ⟨seen, stop', hrun', -⟩ := recognize_of_short hshort h k
  rw [hrun'] at hrun
  cases hrun
  cases hv : k.verdict c.settings text with
  | mismatch =>
    rw [hv] at hne
    exact absurd rfl hne
  | _ => rfl

theorem matchesTo_of_matched {t slice more : List Char}
    (hv : k.verdict c.settings text = .matched t slice more) :
    k.MatchesTo c (.behind (before ++ slice) more) := by
  obtain ⟨seen, stop, hrun, hstop⟩ := recognize_of_short hshort h k
  rw [hv] at hrun
  exact ⟨_, seen, stop, hrun, hstop t slice more hv⟩

theorem failsWith_of_unterminated {skipped : List Char}
    (hv : k.verdict c.settings text = .unterminated skipped) :
    k.FailsWith c (unterminatedBehind c.source (before ++ skipped)) := by
  obtain ⟨seen, stop, hrun, -⟩ := recognize_of_short hshort h k
  rw [hv] at hrun
  exact ⟨seen, stop, hrun⟩

theorem responses_of_overlap (hsep : c.settings.isSeparator '.' = false)
    (ho : Overlap c.settings text k j) : Responses c := by
  have honly : ∀ i : Kind, i.RespondsAt c → i = k ∨ i = j :=
    fun i hi => ho.only hsep (isHit_of_respondsAt hshort h hi)
  cases ho with
  | word hw hk hi =>
    exact .word hw (matchesTo_of_matched hshort h hk) (matchesTo_of_matched hshort h hi) honly
  | arrow ha hs =>
    exact .arrow (matchesTo_of_matched hshort h ha) (matchesTo_of_matched hshort h hs) honly
  | number hl hd =>
    exact .number (failsWith_of_unterminated hshort h hl) (failsWith_of_unterminated hshort h hd) honly

theorem responses (hsep : c.settings.isSeparator '.' = false) : Responses c := by
  by_cases hpair : ∃ k j, Overlap c.settings text k j
  · obtain ⟨k, j, ho⟩ := hpair
    exact responses_of_overlap hshort h hsep ho
  · refine .single fun k j hk hj => ?_
    rcases overlap_of_hits hsep (isHit_of_respondsAt hshort h hk) (isHit_of_respondsAt hshort h hj)
      with rfl | hkj | hjk
    · rfl
    · exact absurd ⟨k, j, hkj⟩ hpair
    · exact absurd ⟨j, k, hjk⟩ hpair

end

/-- Wherever a cursor stands, the kinds are unambiguous but for the known overlaps, so the order of
the trials only matters there, and that of the lookahead not at all. -/
theorem catalog_unambiguous (hshort : c.source.length < counterBound)
    (hdot : c.settings.isWhitespace '.' = false) (h : c.StandsAt before text) :
    ((∀ k : Kind, ∃ reading stop, k.recognize c = .ok (reading, stop)) ∧ Responses c) ∧
    (∀ order, Ranks order → ∃ found events events' stop,
      Scan.nextToken c = .ok (⟨found, events⟩, stop) ∧
        Scan.nextTokenBy order c = .ok (⟨found, events'⟩, stop)) ∧
    ∀ order : List Kind, order.Perm Kind.nonNumeric → ∃ answer answer' stop,
      Recognizer.wouldFollow Kind.followers c = .ok (answer, stop) ∧
        Recognizer.wouldFollow (order.map Kind.follower) c = .ok (answer', stop) ∧
          answer.map Lookahead.isAccepted = answer'.map Lookahead.isAccepted := by
  have hsep : c.settings.isSeparator '.' = false := by simp [LexerSettings.isSeparator, hdot]
  refine ⟨⟨fun k => ?_, responses hshort h hsep⟩, fun order horder => ?_, fun order horder => ?_⟩
  · obtain ⟨seen, stop, hrun, -⟩ := recognize_of_short hshort h k
    exact ⟨_, stop, hrun⟩
  · obtain ⟨found, events, events', stop, hrun, hrun'⟩ :=
      nextTokenBy_of_ranks hsep ranks_trialOrder horder c.last h.1
    rw [← h.eq_behind] at hrun hrun'
    exact ⟨found, events, events', stop, hrun.ok_of_short hshort, hrun'.ok_of_short hshort⟩
  · obtain ⟨answer, answer', hrun, hrun', hsame⟩ := wouldFollow_of_perm horder c.last h.1
    rw [← h.eq_behind] at hrun hrun'
    exact ⟨answer, answer', _, hrun.ok_of_short hshort, hrun'.ok_of_short hshort, hsame⟩

/-- The second of two places, where nothing is saved: an arrow begins there, and so does a sign for
assignment, so that the two kinds do overlap. -/
theorem catalog_unambiguous_arrow :
    ("x=>".length < counterBound ∧ LexerSettings.isWhitespace {} '.' = false) ∧
      Responses ((Cursor.ofSource "x=>").behind ['x'] ['=', '>'] none) ∧
      Kind.arrow.MatchesTo ((Cursor.ofSource "x=>").behind ['x'] ['=', '>'] none)
        (.behind ['x', '=', '>'] []) ∧
      Kind.assign.MatchesTo ((Cursor.ofSource "x=>").behind ['x'] ['=', '>'] none)
        (.behind ['x', '='] ['>']) := by
  have hshort : "x=>".length < counterBound := by decide
  have hdot : LexerSettings.isWhitespace {} '.' = false := by decide
  have hstands : ((Cursor.ofSource "x=>").behind ['x'] ['=', '>'] none).StandsAt ['x'] ['=', '>'] :=
    ⟨by decide, rfl⟩
  have harrow : Kind.arrow.verdict {} ['=', '>'] = .matched ['=', '>'] ['=', '>'] [] := by decide
  have hassign : Kind.assign.verdict {} ['=', '>'] = .matched ['='] ['='] ['>'] := by decide
  exact ⟨⟨hshort, hdot⟩, (catalog_unambiguous hshort hdot hstands).1.2,
    matchesTo_of_matched hshort hstands harrow, matchesTo_of_matched hshort hstands hassign⟩

end ExprLex
