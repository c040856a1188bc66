/-
  ExprLex.Proofs.Stopping — the end and a failure are final, and asking one token at a time comes to
  what a whole run comes to.

  Where no token is found, separators are skipped and every trial is undone, so the cursor stands
  behind the gap (`Advances.stops`). The next call skips nothing and tries the same kinds in front
  of the same text. Only what could be undone differs from the first call, and the first trial
  forgets that (`firstMatch_forgets`); so the call gives the same answer and leaves the same cursor
  (`Scan.nextToken_again`). From there on every call finds that again, whatever mix of calls came in
  between (`Leads.stays`): iterating moves the cursor only by asking for the next token.

  `answers` are the finds of so many calls in a row, and `Delivers` says what they are: the tokens,
  and then what is no token. What a fresh lexer delivers comes of the lexemes of its source
  (`exists_delivers`), as a whole run does. Asking goes on to repeat the stop, iterating finds
  nothing any more (`Delivers.answers_nextToken`, `Delivers.answers_next`).
-/

import ExprLex.Proofs.Advancing
import Mathlib.Control.Monad.Basic

namespace ExprLex

variable {settings : LexerSettings} {source : String} {c stop : Cursor} {before text : List Char}
  {advance : Advance}

/-! ## Asking again -/

/-- Where no token is found, a gap has been skipped, and nothing else. -/
theorem Advances.stops {found : Found} {read left : List Char}
    (h : Advances settings source before text found read left) (hstop : ∀ t, found ≠ .token t) :
    ∃ gap, text = gap ++ left ∧ read = before ++ gap ∧
      (∀ d ∈ gap, settings.isSeparator d = true) ∧ StopsAt settings.isSeparator left ∧
      (found = .endOfInput ↔ left = []) := by
  cases h with
  | ended hg => exact ⟨text, (List.append_nil text).symm, rfl, hg, stopsAt_nil _, by simp⟩
  | unrecognized hg hs hnone => exact ⟨_, rfl, rfl, hg, hs, by simp⟩
  | unterminated hg hs hk hv => exact ⟨_, rfl, rfl, hg, hs, by simp [ne_nil_of_firstHit hk]⟩
  | token hg hs hk hv => exact absurd rfl (hstop _)

namespace Scan

variable {order : List Kind}

theorem readWhile_stopped {p : Char → Bool} (last : Option Place)
    (h : c.source.toList = before ++ text) (hs : StopsAt p text) :
    readWhile p (c.behind before text last) = .ok ([], c.behind before text last) := by
  have hnone : text.takeWhile p = [] := by
    rw [← List.nil_append text]
    exact takeWhile_append_of_stopsAt (List.forall_mem_nil _) hs
  show (skip (text.takeWhile p).length (c.behind before text last) >>= _) = _
  rw [hnone]
  show (peek (c.behind before text last) >>= _) = _
  rw [peek_of_onBoundary (Cursor.onBoundary_behind last h)]
  exact congrArg (fun run => Except.ok (run, c.behind before text last)) hnone

theorem skipSeparators_stopped (last : Option Place) (h : c.source.toList = before ++ text)
    (hs : StopsAt c.settings.isSeparator text) :
    skipSeparators (c.behind before text last) = .ok ((), c.behind before text last) := by
  show (readWhile c.settings.isSeparator (c.behind before text last) >>= _) = _
  rw [readWhile_stopped last h hs]
  rfl

/-- Skipping separators twice is skipping them once. -/
theorem nextTokenBy_skipped {start : Cursor} (h : skipSeparators c = .ok ((), start))
    (hagain : skipSeparators start = .ok ((), start)) :
    nextTokenBy order c = nextTokenBy order start := by
  show (skipSeparators c >>= _) = (skipSeparators start >>= _)
  rw [h, hagain]

theorem firstMatch_forgets (last : Option Place) (horder : order ≠ []) (hne : text ≠ []) :
    firstMatch order (c.behind before text last) =
      firstMatch order (c.behind before text none) := by
  obtain ⟨k, order, rfl⟩ := List.exists_cons_of_ne_nil horder
  show (k.recognize (c.behind before text last) >>= _) =
    (k.recognize (c.behind before text none) >>= _)
  rw [Kind.recognize, attempt_forgets _ hne]

/-- Where a character is left to try, what could have been undone has no bearing on the answer. -/
theorem nextTokenBy_forgets (last : Option Place) (horder : order ≠ []) (hne : text ≠ [])
    (h : c.source.toList = before ++ text) (hs : StopsAt c.settings.isSeparator text) :
    nextTokenBy order (c.behind before text last) =
      nextTokenBy order (c.behind before text none) := by
  have hskip := fun last => skipSeparators_stopped last h hs
  have hpeek := fun last => peek_of_onBoundary (Cursor.onBoundary_behind last h)
  obtain ⟨d, text, rfl⟩ := List.exists_cons_of_ne_nil hne
  simp only [nextTokenBy, bind, StateT.bind, Except.bind, get, getThe, MonadStateOf.get, StateT.get,
    pure, Except.pure, hskip, hpeek]
  show (firstMatch order (c.behind before (d :: text) last) >>= _) =
    (firstMatch order (c.behind before (d :: text) none) >>= _)
  rw [firstMatch_forgets last horder hne]
  rfl

/-- A call skips the gap in front of the cursor first, so it may as well begin behind it. -/
theorem nextToken_behind_gap {gap : List Char} (h : c.StandsAt before (gap ++ text))
    (hg : ∀ d ∈ gap, c.settings.isSeparator d = true) (hs : StopsAt c.settings.isSeparator text)
    (hrun : nextToken c = .ok (advance, stop)) :
    ∃ last', nextToken c = nextToken (c.behind (before ++ gap) text last') := by
  obtain ⟨last', hskip⟩ := skipSeparators_settles c.last h.1 hg hs
  rw [← h.eq_behind] at hskip
  obtain ⟨⟨⟩, start, hskipped, -⟩ := exists_of_bind hrun
  obtain ⟨-, rfl⟩ := Prod.mk.inj (hskip.eq_of_ok hskipped)
  have hbehind : c.source.toList = (before ++ gap) ++ text := by rw [List.append_assoc, h.1]
  exact ⟨last', nextTokenBy_skipped hskipped (skipSeparators_stopped last' hbehind hs)⟩

/-- At the end of the source there is nothing to find, and the cursor stays. -/
theorem nextToken_settles_end (last : Option Place) (h : c.source.toList = before) :
    Settles c.source (nextToken (c.behind before [] last))
      (⟨.endOfInput, []⟩, c.behind before [] last) := by
  have hend : c.source.toList = before ++ [] := by rw [h, List.append_nil]
  exact nextTokenBy_settles_nothing (.inl (skipSeparators_stopped last hend (stopsAt_nil _)))
    (peek_settles last hend)

/-- A cursor that found no token finds the same again, and stays as it is. -/
theorem nextToken_again (h : c.StandsAt before text) (hrun : nextToken c = .ok (advance, stop))
    (hstop : ∀ t, advance.found ≠ .token t) : nextToken stop = .ok (advance, stop) := by
  obtain ⟨read, left, last', hcursor, hadvances⟩ := advances_of_nextToken h hrun
  obtain ⟨gap, rfl, rfl, hg, hs, -⟩ := hadvances.stops hstop
  have hbehind : c.source.toList = (before ++ gap) ++ left := by rw [List.append_assoc, h.1]
  obtain ⟨last, hsame⟩ := nextToken_behind_gap h hg hs hrun
  -- at the end nothing is tried, so nothing forgets what could be undone
  by_cases hleft : left = []
  · subst hleft
    rw [List.append_nil] at hbehind
    have hend := nextToken_settles_end last hbehind
    rw [← hsame] at hend
    obtain ⟨-, hstays⟩ := Prod.mk.inj (hend.eq_of_ok hrun)
    rw [hstays, ← hsame, hrun, hstays]
  · have horder : Kind.trialOrder ≠ [] := by decide
    have hforgets := fun last => nextTokenBy_forgets last horder hleft hbehind hs
    calc nextToken stop = nextToken (c.behind (before ++ gap) left none) := by
          rw [hcursor]
          exact hforgets last'
      _ = nextToken (c.behind (before ++ gap) left last) := (hforgets last).symm
      _ = nextToken c := hsame.symm
      _ = .ok (advance, stop) := hrun

end Scan

namespace Lexer

/-- The lexers that a lexer becomes when it is asked for tokens, in the one way or the other. -/
inductive Leads : Lexer → Lexer → Prop
  | refl (l : Lexer) : Leads l l
  | nextToken {l l' l'' : Lexer} {advance : Advance} (h : Leads l l')
    (hrun : l'.nextToken = .ok (advance, l'')) : Leads l l''
  | next {l l' l'' : Lexer} {advance : Advance} (h : Leads l l')
    (hrun : l'.next = .ok (advance, l'')) : Leads l l''

variable {l l' l'' : Lexer}

/-- A lexer that found no token finds the same again, and stays as it is. -/
theorem nextToken_again (h : l.Stands source settings) (hrun : l.nextToken = .ok (advance, l'))
    (hstop : ∀ t, advance.found ≠ .token t) : l'.nextToken = .ok (advance, l') := by
  obtain ⟨-, -, before, text, hat⟩ := h
  exact nextToken_of_scan (Scan.nextToken_again hat (scan_of_nextToken hrun).1 hstop)

/-- Whether iterating has stopped makes no difference to the next token. -/
theorem nextToken_of_cursor_eq (hrun : l.nextToken = .ok (advance, l)) (hc : l'.cursor = l.cursor) :
    l'.nextToken = .ok (advance, l') := by
  have hscan := (scan_of_nextToken hrun).1
  rw [← hc] at hscan
  exact nextToken_of_scan hscan

/-- Where a lexer answers the same and stays, it does so however it is asked in between. -/
theorem Leads.stays (hl : Leads l l') (hrun : l.nextToken = .ok (advance, l)) :
    l'.nextToken = .ok (advance, l') ∧ l'.cursor = l.cursor := by
  induction hl with
  | refl => exact ⟨hrun, rfl⟩
  | nextToken _ hnext ih =>
    obtain ⟨hagain, hc⟩ := ih
    rw [hagain] at hnext
    cases hnext
    exact ⟨hagain, hc⟩
  | @next _ l'' _ _ hnext ih =>
    obtain ⟨hagain, hc⟩ := ih
    have hsame : l''.cursor = l.cursor := by
      rcases cursor_of_next hnext with hsame | ⟨asked, hask, hsame⟩
      · exact hsame.trans hc
      · rw [hagain] at hask
        cases hask
        exact hsame.trans hc
    exact ⟨nextToken_of_cursor_eq hrun hsame, hsame⟩

/-! ## Asking to the end -/

/-- What the first `n` calls of `ask` find, one after the other, and the lexer behind them. -/
def answers (ask : Lexer → Except Fault (Advance × Lexer)) :
    Nat → Lexer → Except Fault (List Found × Lexer)
  | 0, l => return ([], l)
  | n + 1, l => do
    let (advance, l) ← ask l
    let (found, l) ← answers ask n l
    return (advance.found :: found, l)

section
variable {ask : Lexer → Except Fault (Advance × Lexer)} {n : Nat} {found : List Found}

theorem answers_cons (hrun : ask l = .ok (advance, l'))
    (hmore : answers ask n l' = .ok (found, l'')) :
    answers ask (n + 1) l = .ok (advance.found :: found, l'') := by
  rw [answers, hrun]
  show (answers ask n l' >>= _) = _
  rw [hmore]
  rfl

theorem answers_again (hrun : ask l = .ok (advance, l)) (n : Nat) :
    answers ask n l = .ok (List.replicate n advance.found, l) := by
  induction n with
  | zero => rfl
  | succ n ih => exact answers_cons hrun ih

end

/-- Asked for one token after the other, a lexer delivers the tokens and then something else. -/
inductive Delivers : Lexer → List Token → Advance → Lexer → Prop
  | stops {l stop : Lexer} {advance : Advance} (hrun : l.nextToken = .ok (advance, stop))
    (hstop : ∀ t, advance.found ≠ .token t) : Delivers l [] advance stop
  | token {l l' stop : Lexer} {advance : Advance} {t : Token} {tokens : List Token}
    {events : List LexEvent} (hrun : l.nextToken = .ok (⟨.token t, events⟩, l'))
    (rest : Delivers l' tokens advance stop) : Delivers l (t :: tokens) advance stop

theorem next_of_token {t : Token} {events : List LexEvent} (hf : l.finished = false)
    (hrun : l.nextToken = .ok (⟨.token t, events⟩, l')) :
    l.next = .ok (⟨.token t, events⟩, l') := by
  rw [next, hf, hrun]
  rfl

theorem next_of_stop (hf : l.finished = false) (hrun : l.nextToken = .ok (advance, l'))
    (hstop : ∀ t, advance.found ≠ .token t) :
    l.next = .ok (advance, { l' with finished := true }) := by
  obtain ⟨found, events⟩ := advance
  cases found with
  | token t => exact absurd rfl (hstop t)
  | endOfInput =>
    rw [next, hf, hrun]
    rfl
  | failed error =>
    rw [next, hf, hrun]
    rfl

theorem next_of_finished (hf : l.finished = true) : l.next = .ok (⟨.endOfInput, []⟩, l) := by
  rw [next, hf]
  rfl

namespace Delivers

variable {tokens : List Token} {stop : Lexer}

theorem answers_nextToken (h : Delivers l tokens advance stop) (hl : l.Stands source settings)
    (n : Nat) : answers Lexer.nextToken (tokens.length + (n + 1)) l =
      .ok (tokens.map .token ++ List.replicate (n + 1) advance.found, stop) := by
  induction h with
  | stops hrun hstop =>
    rw [List.length_nil, Nat.zero_add]
    exact answers_cons hrun (answers_again (nextToken_again hl hrun hstop) n)
  | token hrun _ ih =>
    rw [List.length_cons, Nat.add_right_comm]
    exact answers_cons hrun (ih (stands_nextToken hl hrun))

/-- The iteration stops behind the first find that is no token, and looks at nothing any more. -/
theorem answers_next (h : Delivers l tokens advance stop) (hf : l.finished = false) (n : Nat) :
    answers Lexer.next (tokens.length + (n + 1)) l =
      .ok (tokens.map .token ++ advance.found :: List.replicate n .endOfInput,
        { stop with finished := true }) := by
  induction h with
  | stops hrun hstop =>
    rw [List.length_nil, Nat.zero_add]
    exact answers_cons (next_of_stop hf hrun hstop) (answers_again (next_of_finished rfl) n)
  | token hrun _ ih =>
    rw [List.length_cons, Nat.add_right_comm]
    exact answers_cons (next_of_token hf hrun) (ih ((scan_of_nextToken hrun).2.trans hf))

end Delivers

end Lexer

/-- What a lexer finds behind the last token. -/
def Ending.found (source : String) (before : List Char) (ending : Ending) : Found :=
  match ending.failure source before with
  | none => .endOfInput
  | some error => .failed error

/-- In front of a text, a lexer delivers the tokens of its lexemes and then the ending. -/
theorem Lexer.exists_delivers {lexemes : List Lexeme} {ending : Ending}
    (hshort : c.source.length < counterBound) (hl : Lexing c.settings text lexemes ending)
    (last : Option Place) (h : c.source.toList = before ++ text) :
    ∃ advance stop,
      Delivers ⟨c.behind before text last, false⟩ (tokensBehind before lexemes) advance stop ∧
      stop.finished = false ∧
      advance.found = ending.found c.source (before ++ lexemes.flatMap Lexeme.whole) := by
  induction hl generalizing before last with
  | complete hg =>
    obtain ⟨last', hend⟩ := Scan.nextTokenBy_settles_end Kind.trialOrder last hg h
    exact ⟨_, _, .stops (nextToken_of_scan (hend.ok_of_short hshort)) (by simp), rfl, rfl⟩
  | unrecognized hg hd hnone =>
    obtain ⟨events, hend⟩ := Scan.nextTokenBy_settles_none Kind.trialOrder last hg (by decide) h
      (stopsAt_cons.2 hd) hnone
    refine ⟨_, _, .stops (nextToken_of_scan (hend.ok_of_short hshort)) (by simp), rfl, ?_⟩
    simp [Ending.found, Ending.failure]
  | unterminated hg hs hk hv =>
    obtain ⟨events, hend⟩ :=
      Scan.nextTokenBy_settles_unterminated Kind.trialOrder last hg h hs hk hv
    refine ⟨_, _, .stops (nextToken_of_scan (hend.ok_of_short hshort)) (by simp), rfl, ?_⟩
    simp [Ending.found, Ending.failure]
  | @lexeme gap slice more t k lexemes ending hg hs hk hv hl ih =>
    obtain ⟨events, last', hnext⟩ :=
      Scan.nextTokenBy_settles_token Kind.trialOrder last hg h hs hk hv
    have h' : c.source.toList = (before ++ (gap ++ slice)) ++ more := by simpa using h
    obtain ⟨advance, stop, hrest, hfinished, hfound⟩ := ih last' h'
    refine ⟨advance, stop, .token (nextToken_of_scan (hnext.ok_of_short hshort)) hrest,
      hfinished, ?_⟩
    rw [hfound, List.flatMap_cons, Lexeme.whole, List.append_assoc]

/-! ## The stop -/

theorem Lexer.exists_of_found {answer : Except Fault (Advance × Lexer)} {found : Found}
    (h : answer.map (fun answer => answer.1.found) = .ok found) :
    ∃ events l, answer = .ok (⟨found, events⟩, l) := by
  cases answer with
  | error fault => cases h
  | ok answer =>
    obtain ⟨⟨found', events⟩, l⟩ := answer
    obtain rfl : found' = found := Except.ok.inj h
    exact ⟨events, l, rfl⟩

/-- A reached lexer that finds no token stands behind the separators in front of it, and whatever is
asked of it, it finds the same again and moves no more. -/
theorem Lexer.Reached.stops {l l' : Lexer} (h : Reached source settings l)
    (hrun : l.nextToken = .ok (advance, l')) (hstop : ∀ t, advance.found ≠ .token t) :
    (∃ before gap text, l.cursor.Faces before gap text ∧
      l'.cursor.place = .behind (before ++ gap) text ∧
      (advance.found = .endOfInput ↔ text = [])) ∧
    ∀ l'', Leads l' l'' → l''.nextToken = .ok (advance, l'') ∧ l''.cursor = l'.cursor := by
  constructor
  · obtain ⟨-, -, before, text, hat⟩ := h.stands
    obtain ⟨read, left, last', hcursor, hadvances⟩ :=
      advances_of_nextToken hat (scan_of_nextToken hrun).1
    obtain ⟨gap, rfl, rfl, hg, hs, hend⟩ := hadvances.stops hstop
    exact ⟨before, gap, left, ⟨hat, hg, hs⟩, by rw [hcursor]; rfl, hend⟩
  · intro l'' hleads
    exact hleads.stays (nextToken_again h.stands hrun hstop)

/-- The tokens of a source and what is found behind them are the same whichever way they are asked
for; a whole run keeps the tokens only if that is the end. -/
theorem exists_answers (hshort : source.length < counterBound) : ∃ tokens found stop,
    (found = .endOfInput ∧ tokenize source settings = .ok (.ok tokens) ∨
      ∃ error, found = .failed error ∧ tokenize source settings = .ok (.error error)) ∧
    ∀ n,
      Lexer.answers Lexer.nextToken (tokens.length + (n + 1)) (.ofSource source settings) =
        .ok (tokens.map .token ++ List.replicate (n + 1) found, ⟨stop, false⟩) ∧
      Lexer.answers Lexer.next (tokens.length + (n + 1)) (.ofSource source settings) =
        .ok (tokens.map .token ++ found :: List.replicate n .endOfInput, ⟨stop, true⟩) := by
  obtain ⟨lexemes, ending, hl⟩ := exists_lexing settings source.toList
  obtain ⟨advance, ⟨stop, finished⟩, hdelivers, rfl, hfound⟩ :=
    Lexer.exists_delivers (c := .ofSource source settings) hshort hl none
      (show source.toList = [] ++ source.toList from rfl)
  rw [← Cursor.ofSource_eq_behind] at hdelivers
  have hasked := hdelivers.answers_nextToken Lexer.Reached.fresh.stands
  refine ⟨_, advance.found, stop, ?_, fun n => ⟨hasked n, hdelivers.answers_next rfl n⟩⟩
  have hfound : advance.found = ending.found source (lexemes.flatMap Lexeme.whole) := hfound
  have hrun := (tokenize_settles hl).ok_of_short hshort
  cases hfailure : ending.failure source (lexemes.flatMap Lexeme.whole) with
  | none =>
    rw [Ending.found, hfailure] at hfound
    rw [Ending.result, hfailure] at hrun
    exact .inl ⟨hfound, hrun⟩
  | some error =>
    rw [Ending.found, hfailure] at hfound
    rw [Ending.result, hfailure] at hrun
    exact .inr ⟨error, hfound, hrun⟩

/-- The end and a failure are final. A lexer that finds no token then stands at the first character
that is no separator, or at the end; however it is asked afterwards, the next token is the same find
and the cursor stays. A fresh lexer gives the same tokens in both ways, and a whole run comes to them
or to the failure behind them. Asked on, the one way repeats what stopped it and the other finds
nothing more. -/
theorem stops_for_good (hshort : source.length < counterBound) :
    (∀ l l' advance, Lexer.Reached source settings l → l.nextToken = .ok (advance, l') →
      (∀ t, advance.found ≠ .token t) →
        (∃ before gap text, l.cursor.Faces before gap text ∧
          l'.cursor.place = .behind (before ++ gap) text ∧
          (advance.found = .endOfInput ↔ text = [])) ∧
        ∀ l'', Lexer.Leads l' l'' →
          l''.nextToken = .ok (advance, l'') ∧ l''.cursor = l'.cursor) ∧
    ∃ tokens found stop,
      (found = .endOfInput ∧ tokenize source settings = .ok (.ok tokens) ∨
        ∃ error, found = .failed error ∧ tokenize source settings = .ok (.error error)) ∧
      ∀ n,
        Lexer.answers Lexer.nextToken (tokens.length + (n + 1)) (.ofSource source settings) =
          .ok (tokens.map .token ++ List.replicate (n + 1) found, ⟨stop, false⟩) ∧
        Lexer.answers Lexer.next (tokens.length + (n + 1)) (.ofSource source settings) =
          .ok (tokens.map .token ++ found :: List.replicate n .endOfInput, ⟨stop, true⟩) :=
  ⟨fun _ _ _ h hrun hstop => h.stops hrun hstop, exists_answers hshort⟩

/-- Behind one token, a character that begins none. -/
theorem stops_for_good_unrecognized : "a @b".length < counterBound ∧
    ∃ error l l' events, error = .unrecognizedCharacter 0 2 '@' "a @b" ∧
      Lexer.Reached "a @b" {} l ∧ l.nextToken = .ok (⟨.failed error, events⟩, l') ∧
      (∃ before gap text, l.cursor.Faces before gap text ∧
        l'.cursor.place = .behind (before ++ gap) text ∧ text ≠ []) ∧
      (∀ l'', Lexer.Leads l' l'' →
        l''.nextToken = .ok (⟨.failed error, events⟩, l'') ∧ l''.cursor = l'.cursor) ∧
      tokenize "a @b" = .ok (.error error) ∧
      ∃ (tokens : List Token) (stop : Cursor), ∀ n,
        Lexer.answers Lexer.nextToken (tokens.length + (n + 1)) (.ofSource "a @b") =
          .ok (tokens.map .token ++ List.replicate (n + 1) (.failed error), ⟨stop, false⟩) ∧
        Lexer.answers Lexer.next (tokens.length + (n + 1)) (.ofSource "a @b") =
          .ok (tokens.map .token ++ .failed error :: List.replicate n .endOfInput,
            ⟨stop, true⟩) := by
  have hshort : "a @b".length < counterBound := by decide
  have hfirst : (Lexer.ofSource "a @b").nextToken.map (fun answer => answer.1.found) =
      .ok (.token ⟨.identifier, .value, "a", 0, 0, ⟨0, 1, 0, 0⟩⟩) := by decide +kernel
  have hsecond : ((Lexer.ofSource "a @b").nextToken >>= fun answer => answer.2.nextToken).map
      (fun answer => answer.1.found) = .ok (.failed (.unrecognizedCharacter 0 2 '@' "a @b")) := by
    decide +kernel
  obtain ⟨_, l, hrun⟩ := Lexer.exists_of_found hfirst
  rw [hrun] at hsecond
  obtain ⟨events, l', hrun'⟩ := Lexer.exists_of_found hsecond
  have hreached : Lexer.Reached "a @b" {} l := .nextToken .fresh hrun
  obtain ⟨hstops, tokens, found, stop, hends, hanswers⟩ := @stops_for_good {} _ hshort
  obtain ⟨⟨before, gap, text, hfaces, hplace, hend⟩, hagain⟩ :=
    hstops l l' _ hreached hrun' (by simp)
  have hnonempty : text ≠ [] := fun h => by cases hend.2 h
  have htokenize : tokenize "a @b" = .ok (.error (.unrecognizedCharacter 0 2 '@' "a @b")) := by
    decide +kernel
  rw [htokenize] at hends
  obtain ⟨-, habsurd⟩ | ⟨error, rfl, herror⟩ := hends
  · cases habsurd
  · cases herror
    exact ⟨hshort, _, l, l', events, rfl, hreached, hrun',
      ⟨before, gap, text, hfaces, hplace, hnonempty⟩, hagain, htokenize, tokens, stop, hanswers⟩

end ExprLex
