/-
  ExprLex.Proofs.Lexing — how a text falls into lexemes, and that a run finds them.

  `Lexing settings text lexemes ending` derives a run over a text with no lexer: a gap of separators
  and a slice for each token, the slice read by the first kind in trial order whose verdict is a hit,
  and then the end of the text or a failure. Every text has such a derivation (`exists_lexing`). A
  lexer that stands at a true place in front of the text finds its tokens, at the places that the
  lexemes have, and its ending (`collect_settles`); so does a whole run (`tokenize_settles`). `Finds`
  says what a part of a source comes to, and holds of a part as of its pieces (`Finds.lexeme`).
-/

import ExprLex.Lexer
import ExprLex.Proofs.Numerals
import ExprLex.Proofs.Slices

namespace ExprLex

variable {settings : LexerSettings} {source : String} {c : Cursor} {before text : List Char}
  {last : Option Place}

/-- The kind that ends the trials on a text. -/
def firstHit (settings : LexerSettings) (order : List Kind) (text : List Char) : Option Kind :=
  order.find? fun k => (k.verdict settings text).isHit

/-- A token in the source: what separates it from the token before, and what was read for it. -/
structure Lexeme where
  gap : List Char
  slice : List Char
  kind : Kind
  text : List Char

namespace Lexeme

/-- The part of the source that a lexeme takes. -/
def whole (l : Lexeme) : List Char := l.gap ++ l.slice

/-- The token of a lexeme behind `before`. -/
def token (before : List Char) (l : Lexeme) : Token :=
  let row := (before ++ l.gap).count '\n'
  let col := (lastLine (before ++ l.gap)).length
  ⟨l.kind, l.kind.category, String.ofList l.text, row, col,
    ⟨byteLength (before ++ l.gap), byteLength (before ++ l.gap ++ l.slice), row, col⟩⟩

end Lexeme

/-- The tokens of lexemes that follow each other behind `before`. -/
def tokensBehind : List Char → List Lexeme → List Token
  | _, [] => []
  | before, l :: ls => l.token before :: tokensBehind (before ++ l.whole) ls

/-- How a run ends; `ahead` stands between the last token and the place of the failure. -/
inductive Ending where
  | complete
  | unterminated (ahead : List Char)
  | unrecognized (ahead : List Char) (character : Char)

/-- The failure of a run that ends so behind `before`. -/
def Ending.failure (source : String) (before : List Char) : Ending → Option LexError
  | complete => none
  | unterminated ahead => some (unterminatedBehind source (before ++ ahead))
  | unrecognized ahead character =>
    some (.unrecognizedCharacter ((before ++ ahead).count '\n')
      (lastLine (before ++ ahead)).length character source)

/-- A text falls into lexemes and ends so. -/
inductive Lexing (settings : LexerSettings) : List Char → List Lexeme → Ending → Prop
  | complete {gap : List Char} (hg : ∀ d ∈ gap, settings.isSeparator d = true) :
    Lexing settings gap [] .complete
  | unrecognized {gap : List Char} {d : Char} {text : List Char}
    (hg : ∀ d ∈ gap, settings.isSeparator d = true) (hd : settings.isSeparator d = false)
    (hnone : firstHit settings Kind.trialOrder (d :: text) = none) :
    Lexing settings (gap ++ d :: text) [] (.unrecognized gap d)
  | unterminated {gap text skipped : List Char} {k : Kind}
    (hg : ∀ d ∈ gap, settings.isSeparator d = true) (hs : StopsAt settings.isSeparator text)
    (hk : firstHit settings Kind.trialOrder text = some k)
    (hv : k.verdict settings text = .unterminated skipped) :
    Lexing settings (gap ++ text) [] (.unterminated (gap ++ skipped))
  | lexeme {gap slice more t : List Char} {k : Kind} {lexemes : List Lexeme} {ending : Ending}
    (hg : ∀ d ∈ gap, settings.isSeparator d = true)
    (hs : StopsAt settings.isSeparator (slice ++ more))
    (hk : firstHit settings Kind.trialOrder (slice ++ more) = some k)
    (hv : k.verdict settings (slice ++ more) = .matched t slice more)
    (rest : Lexing settings more lexemes ending) :
    Lexing settings (gap ++ (slice ++ more)) (⟨gap, slice, k, t⟩ :: lexemes) ending

theorem firstHit_cons_hit {order : List Kind} {k : Kind}
    (h : (k.verdict settings text).isHit = true) :
    firstHit settings (k :: order) text = some k := List.find?_cons_of_pos h

theorem firstHit_cons_miss {order : List Kind} {k : Kind}
    (h : ¬ (k.verdict settings text).isHit = true) :
    firstHit settings (k :: order) text = firstHit settings order text := List.find?_cons_of_neg h

theorem firstHit_append_order (order order' : List Kind) :
    firstHit settings (order ++ order') text =
      (firstHit settings order text).or (firstHit settings order' text) := List.find?_append

theorem isHit_of_firstHit {order : List Kind} {k : Kind}
    (h : firstHit settings order text = some k) : (k.verdict settings text).isHit = true := by
  have := List.find?_some (p := fun j : Kind => (j.verdict settings text).isHit) h
  exact this

theorem ne_nil_of_firstHit {order : List Kind} {k : Kind}
    (h : firstHit settings order text = some k) : text ≠ [] := by
  intro he
  subst he
  cases isHit_of_firstHit h

/-- Every text falls into lexemes. -/
theorem exists_lexing (settings : LexerSettings) (text : List Char) :
    ∃ lexemes ending, Lexing settings text lexemes ending := by
  -- a lexeme takes something away, so the text behind it is shorter
  induction hn : text.length using Nat.strongRecOn generalizing text with
  | ind n ih =>
    obtain ⟨hcut, hg, hs⟩ := cut_where_stops settings.isSeparator text
    generalize text.takeWhile settings.isSeparator = gap at hcut hg
    generalize text.dropWhile settings.isSeparator = rest at hcut hs
    subst hcut
    cases rest with
    | nil => exact ⟨[], .complete, by simpa using Lexing.complete hg⟩
    | cons d rest =>
      cases hk : firstHit settings Kind.trialOrder (d :: rest) with
      | none => exact ⟨[], _, .unrecognized hg (stopsAt_cons.1 hs) hk⟩
      | some k =>
        cases hv : k.verdict settings (d :: rest) with
        | mismatch =>
          have := isHit_of_firstHit hk
          rw [hv] at this
          cases this
        | unterminated skipped => exact ⟨[], _, .unterminated hg hs hk hv⟩
        | matched t slice more =>
          obtain ⟨hslice, hne⟩ := cut_of_verdict hv
          rw [hslice] at hs hk hv hn ⊢
          have hlen : more.length < n := by
            have := List.length_pos_iff.2 hne
            simp only [List.length_append] at hn
            omega
          obtain ⟨lexemes, ending, hl⟩ := ih more.length hlen more rfl
          exact ⟨_, ending, .lexeme hg hs hk hv hl⟩

/-- Every token is that of a lexeme, with which the text that is left there begins. -/
theorem exists_lexing_at {lexemes : List Lexeme} {ending : Ending}
    (h : Lexing settings text lexemes ending) {t : Token} (ht : t ∈ tokensBehind before lexemes) :
    ∃ earlier rest l later, before ++ text = earlier ++ rest ∧ t = Lexeme.token earlier l ∧
      Lexing settings rest (l :: later) ending := by
  induction h generalizing before with
  | complete hg => cases ht
  | unrecognized hg hd hnone => cases ht
  | unterminated hg hs hk hv => cases ht
  | @lexeme gap slice more t' k lexemes ending hg hs hk hv rest ih =>
    rcases List.mem_cons.1 ht with rfl | ht
    · exact ⟨before, _, ⟨gap, slice, k, t'⟩, lexemes, rfl, rfl, .lexeme hg hs hk hv rest⟩
    · obtain ⟨earlier, left, l, later, hcut, htoken, hl⟩ := ih ht
      exact ⟨earlier, left, l, later, by simpa [Lexeme.whole] using hcut, htoken, hl⟩

/-- Every token is that of a lexeme, which its kind read where it stands. -/
theorem exists_lexeme_of_mem {lexemes : List Lexeme} {ending : Ending}
    (h : Lexing settings text lexemes ending) {t : Token} (ht : t ∈ tokensBehind before lexemes) :
    ∃ earlier l more, t = Lexeme.token earlier l ∧
      before ++ text = (earlier ++ l.gap) ++ (l.slice ++ more) ∧
      firstHit settings Kind.trialOrder (l.slice ++ more) = some l.kind ∧
      l.kind.verdict settings (l.slice ++ more) = .matched l.text l.slice more := by
  obtain ⟨earlier, rest, l, later, hcut, htoken, hl⟩ := exists_lexing_at h ht
  cases hl with
  | @lexeme gap slice more t' k lexemes ending hg hs hk hv hrest =>
    exact ⟨earlier, _, more, htoken, by simpa using hcut, hk, hv⟩

/-- No token begins in front of the text that is read. -/
theorem le_start_of_mem {lexemes : List Lexeme} {t : Token} (ht : t ∈ tokensBehind before lexemes) :
    byteLength before ≤ t.span.start ∧ t.span.start ≤ t.span.stop := by
  induction lexemes generalizing before with
  | nil => cases ht
  | cons l ls ih =>
    rcases List.mem_cons.1 ht with rfl | ht
    · simp [Lexeme.token]
    · have := ih ht
      simp only [Lexeme.whole, byteLength_append] at this
      omega

/-! ## Trying the kinds in order -/

namespace Scan

/-- What choosing a kind comes to, by the outcome of its trial. -/
def choiceOf (k : Kind) : Outcome → Choice
  | .matched text => .kind k text
  | .mismatch => .none
  | .failed error => .failed error

/-- A trial makes nothing of what could have been undone before it. -/
theorem attempt_forgets (x : Scan Reading) (hne : text ≠ []) :
    attempt x (c.behind before text last) = attempt x (c.behind before text none) := by
  have hn : ∀ last, (c.behind before text last).hasNext = true :=
    fun last => Cursor.hasNext_behind last hne
  have hrun : ∀ last, attempt x (c.behind before text last) =
      (do let taken ← checkpoint; let reading ← x; release taken reading.isMatch; return reading)
        (c.behind before text last) := by
    intro last
    show (if (c.behind before text last).hasNext = true then _ else _ : Scan Reading) _ = _
    rw [if_pos (hn last)]
  rw [hrun last, hrun none]
  rfl

/-- No kind matches: the cursor stays where it was, with nothing to undo. -/
theorem firstMatch_settles_none (order : List Kind) (last : Option Place)
    (hlast : order = [] → last = none) (h : c.source.toList = before ++ text) (hne : text ≠ [])
    (hnone : firstHit c.settings order text = none) :
    ∃ seen, Settles c.source (firstMatch order (c.behind before text last))
      ((.none, seen), c.behind before text none) := by
  induction order generalizing last with
  | nil =>
    rw [hlast rfl]
    exact ⟨[], pure_settles⟩
  | cons k order ih =>
    by_cases hk : (k.verdict c.settings text).isHit = true
    · rw [firstHit_cons_hit hk] at hnone
      cases hnone
    · have hv := Verdict.eq_mismatch_of_isHit hk
      obtain ⟨seen, hrun⟩ := recognize_unmatched (k := k) last h hne (by simp [hv])
      rw [hv] at hrun
      rw [firstHit_cons_miss hk] at hnone
      obtain ⟨later, hmore⟩ := ih none (fun _ => rfl) hnone
      exact ⟨_, hrun.scan_bind (hmore.scan_bind pure_settles)⟩

/-- The first kind that matches or fails decides, and the kinds before it leave no trace. -/
theorem firstMatch_settles_some (order : List Kind) (last : Option Place) {k : Kind}
    {reading : Reading} {c' : Cursor} (h : c.source.toList = before ++ text)
    (hk : firstHit c.settings order text = some k) (hm : reading.outcome ≠ .mismatch)
    (hrun : Settles c.source (k.recognize (c.behind before text none)) (reading, c')) :
    ∃ seen, Settles c.source (firstMatch order (c.behind before text last))
      ((choiceOf k reading.outcome, seen), c') := by
  have hne := ne_nil_of_firstHit hk
  induction order generalizing last with
  | nil => cases hk
  | cons j order ih =>
    by_cases hj : (j.verdict c.settings text).isHit = true
    · rw [firstHit_cons_hit hj] at hk
      have hjk : j = k := Option.some.inj hk
      subst hjk
      have hrun' : Settles c.source (j.recognize (c.behind before text last)) (reading, c') := by
        rw [Kind.recognize, attempt_forgets _ hne]
        exact hrun
      refine ⟨reading.lookaheads, hrun'.scan_bind ?_⟩
      cases ho : reading.outcome with
      | mismatch => exact absurd ho hm
      | matched text => exact pure_settles
      | failed error => exact pure_settles
    · have hv := Verdict.eq_mismatch_of_isHit hj
      obtain ⟨seen, hmiss⟩ := recognize_unmatched (k := j) last h hne (by simp [hv])
      rw [hv] at hmiss
      rw [firstHit_cons_miss hj] at hk
      obtain ⟨later, hmore⟩ := ih none hk
      exact ⟨_, hmiss.scan_bind (hmore.scan_bind pure_settles)⟩

/-- A literal that is never closed ends the trials, and the cursor stays where it was. -/
theorem firstMatch_settles_unterminated (order : List Kind) (last : Option Place) {k : Kind}
    {skipped : List Char} (h : c.source.toList = before ++ text)
    (hk : firstHit c.settings order text = some k)
    (hv : k.verdict c.settings text = .unterminated skipped) :
    ∃ seen, Settles c.source (firstMatch order (c.behind before text last))
      ((.failed (unterminatedBehind c.source (before ++ skipped)), seen),
        c.behind before text none) := by
  obtain ⟨seen, htrial⟩ := recognize_unmatched (k := k) none h (ne_nil_of_firstHit hk) (by simp [hv])
  rw [hv] at htrial
  exact firstMatch_settles_some order last h hk (by simp [Verdict.outcome]) htrial

/-! ## The next token -/

theorem skipSeparators_settles (last : Option Place) {gap : List Char}
    (h : c.source.toList = before ++ (gap ++ text))
    (hg : ∀ d ∈ gap, c.settings.isSeparator d = true) (hs : StopsAt c.settings.isSeparator text) :
    ∃ last', Settles c.source (skipSeparators (c.behind before (gap ++ text) last))
      ((), c.behind (before ++ gap) text last') := by
  obtain ⟨last', hrun⟩ := readWhile_settles last c.settings.isSeparator h
  rw [takeWhile_append_of_stopsAt hg hs, dropWhile_append_of_stopsAt hg hs] at hrun
  exact ⟨last', get_settles.scan_bind (hrun.scan_bind pure_settles)⟩

theorem nextTokenBy_settles_nothing {order : List Kind} {start c' : Cursor}
    (hskip : Settles source (skipSeparators c') ((), start))
    (hpeek : Settles source (peek start) (none, start)) :
    Settles source (nextTokenBy order c') (⟨.endOfInput, []⟩, start) :=
  hskip.scan_bind (get_settles.scan_bind (hpeek.scan_bind pure_settles))

/-- What a choice between the kinds comes to, from where it was made to where it led. -/
def foundOf (start stop : Cursor) (character : Char) : Choice → Found
  | .kind kind text =>
    .token ⟨kind, kind.category, text, start.place.row, start.place.col,
      ⟨start.place.offset, stop.place.offset, start.place.row, start.place.col⟩⟩
  | .none =>
    .failed (.unrecognizedCharacter start.place.row start.place.col character start.source)
  | .failed error => .failed error

/-- The order of the kinds bears on the next token through the choice alone. -/
theorem nextTokenBy_settles_choice {order : List Kind} {start stop c' : Cursor} {character : Char}
    {choice : Choice} {seen : List Lookahead} (hskip : Settles source (skipSeparators c') ((), start))
    (hpeek : Settles source (peek start) (some character, start))
    (hfirst : Settles source (firstMatch order start) ((choice, seen), stop)) :
    ∃ events, Settles source (nextTokenBy order c')
      (⟨foundOf start stop character choice, events⟩, stop) := by
  cases choice with
  | kind kind text =>
    exact ⟨_, hskip.scan_bind (get_settles.scan_bind (hpeek.scan_bind
      (hfirst.scan_bind (get_settles.scan_bind pure_settles))))⟩
  | none =>
    exact ⟨_, hskip.scan_bind (get_settles.scan_bind (hpeek.scan_bind
      (hfirst.scan_bind pure_settles)))⟩
  | failed error =>
    exact ⟨_, hskip.scan_bind (get_settles.scan_bind (hpeek.scan_bind
      (hfirst.scan_bind pure_settles)))⟩

section
variable (order : List Kind) (last : Option Place) {gap : List Char}
  (hg : ∀ d ∈ gap, c.settings.isSeparator d = true)
include hg

theorem nextTokenBy_settles_end (h : c.source.toList = before ++ gap) :
    ∃ last', Settles c.source (nextTokenBy order (c.behind before gap last))
      (⟨.endOfInput, []⟩, c.behind (before ++ gap) [] last') := by
  have hskipped : c.source.toList = before ++ (gap ++ []) := by simpa using h
  have hstart : c.source.toList = (before ++ gap) ++ [] := by simpa using h
  obtain ⟨last', hskip⟩ := skipSeparators_settles last hskipped hg (stopsAt_nil _)
  rw [List.append_nil] at hskip
  exact ⟨last', nextTokenBy_settles_nothing hskip (peek_settles last' hstart)⟩

theorem nextTokenBy_settles_none {d : Char} (horder : order ≠ [])
    (h : c.source.toList = before ++ (gap ++ d :: text))
    (hs : StopsAt c.settings.isSeparator (d :: text))
    (hnone : firstHit c.settings order (d :: text) = none) :
    ∃ events, Settles c.source (nextTokenBy order (c.behind before (gap ++ d :: text) last))
      (⟨.failed (.unrecognizedCharacter ((before ++ gap).count '\n')
        (lastLine (before ++ gap)).length d c.source), events⟩,
        c.behind (before ++ gap) (d :: text) none) := by
  have hstart : c.source.toList = (before ++ gap) ++ d :: text := by simpa using h
  obtain ⟨last', hskip⟩ := skipSeparators_settles last h hg hs
  obtain ⟨seen, hfirst⟩ := firstMatch_settles_none order last' (fun hnil => absurd hnil horder) hstart
    (List.cons_ne_nil d text) hnone
  exact nextTokenBy_settles_choice hskip (peek_settles last' hstart) hfirst

variable (h : c.source.toList = before ++ (gap ++ text)) (hs : StopsAt c.settings.isSeparator text)
include h hs

theorem nextTokenBy_settles_unterminated {k : Kind} {skipped : List Char}
    (hk : firstHit c.settings order text = some k)
    (hv : k.verdict c.settings text = .unterminated skipped) :
    ∃ events, Settles c.source (nextTokenBy order (c.behind before (gap ++ text) last))
      (⟨.failed (unterminatedBehind c.source (before ++ (gap ++ skipped))), events⟩,
        c.behind (before ++ gap) text none) := by
  obtain ⟨d, more, rfl⟩ := List.exists_cons_of_ne_nil (ne_nil_of_firstHit hk)
  have hstart : c.source.toList = (before ++ gap) ++ d :: more := by simpa using h
  obtain ⟨last', hskip⟩ := skipSeparators_settles last h hg hs
  obtain ⟨seen, hfirst⟩ := firstMatch_settles_unterminated order last' hstart hk hv
  rw [← List.append_assoc]
  exact nextTokenBy_settles_choice hskip (peek_settles last' hstart) hfirst

end

theorem nextTokenBy_settles_token (order : List Kind) (last : Option Place)
    {gap slice more t : List Char} {k : Kind} (hg : ∀ d ∈ gap, c.settings.isSeparator d = true)
    (h : c.source.toList = before ++ (gap ++ (slice ++ more)))
    (hs : StopsAt c.settings.isSeparator (slice ++ more))
    (hk : firstHit c.settings order (slice ++ more) = some k)
    (hv : k.verdict c.settings (slice ++ more) = .matched t slice more) :
    ∃ events last',
      Settles c.source (nextTokenBy order (c.behind before (gap ++ (slice ++ more)) last))
        (⟨.token (Lexeme.token before ⟨gap, slice, k, t⟩), events⟩,
          c.behind (before ++ (gap ++ slice)) more last') := by
  obtain ⟨d, rest, hd⟩ := List.exists_cons_of_ne_nil (ne_nil_of_firstHit hk)
  have hstart : c.source.toList = (before ++ gap) ++ (slice ++ more) := by simpa using h
  obtain ⟨last', hskip⟩ := skipSeparators_settles last h hg hs
  obtain ⟨seen, last'', htrial⟩ := recognize_matched (k := k) none hstart hv
  obtain ⟨seen', hfirst⟩ := firstMatch_settles_some order last' hstart hk (by simp) htrial
  have hpeek := peek_settles last' hstart
  rw [hd, List.head?_cons] at hpeek
  rw [hd] at hskip hfirst ⊢
  rw [← List.append_assoc]
  obtain ⟨events, hnext⟩ := nextTokenBy_settles_choice hskip hpeek hfirst
  exact ⟨events, last'', hnext⟩

end Scan

/-! ## A whole run -/

namespace Lexer

section
variable {budget : Nat} {tokens : List Token} {seen events : List LexEvent} {c' : Cursor}

theorem next_settles_token {token : Token}
    (h : Settles source (Scan.nextToken c) (⟨.token token, seen⟩, c')) :
    Settles source (next ⟨c, false⟩) (⟨.token token, seen⟩, ⟨c', false⟩) :=
  (h.bind (b := (⟨.token token, seen⟩, (⟨c', false⟩ : Lexer))) (.ok _)).bind (.ok _)

theorem collect_settles_token {token : Token} {b : Run × Lexer}
    (h : Settles source (Scan.nextToken c) (⟨.token token, seen⟩, c'))
    (hrest : Settles source
      (collect budget (token :: tokens) (seen.reverse ++ events) ⟨c', false⟩) b) :
    Settles source (collect (budget + 1) tokens events ⟨c, false⟩) b :=
  (next_settles_token h).bind hrest

theorem collect_settles_end (h : Settles source (Scan.nextToken c) (⟨.endOfInput, seen⟩, c')) :
    Settles source (collect (budget + 1) tokens events ⟨c, false⟩)
      (⟨tokens.reverse, none, (seen.reverse ++ events).reverse⟩, ⟨c', true⟩) := by
  have hnext : Settles source (next ⟨c, false⟩) (⟨.endOfInput, seen⟩, ⟨c', true⟩) :=
    (h.bind (b := (⟨.endOfInput, seen⟩, (⟨c', false⟩ : Lexer))) (.ok _)).bind (.ok _)
  exact hnext.bind (.ok _)

theorem collect_settles_failed {error : LexError}
    (h : Settles source (Scan.nextToken c) (⟨.failed error, seen⟩, c')) :
    Settles source (collect (budget + 1) tokens events ⟨c, false⟩)
      (⟨tokens.reverse, some error, (seen.reverse ++ events).reverse⟩, ⟨c', true⟩) := by
  have hnext : Settles source (next ⟨c, false⟩) (⟨.failed error, seen⟩, ⟨c', true⟩) :=
    (h.bind (b := (⟨.failed error, seen⟩, (⟨c', false⟩ : Lexer))) (.ok _)).bind (.ok _)
  exact hnext.bind (.ok _)

end

variable {lexemes : List Lexeme} {ending : Ending}

/-- A lexer in front of a text finds its tokens and its ending. -/
theorem collect_settles (hl : Lexing c.settings text lexemes ending) {budget : Nat}
    (hb : text.length < budget) (last : Option Place) (tokens : List Token) (events : List LexEvent)
    (h : c.source.toList = before ++ text) :
    ∃ events' c', Settles c.source (collect budget tokens events ⟨c.behind before text last, false⟩)
      (⟨tokens.reverse ++ tokensBehind before lexemes,
        ending.failure c.source (before ++ lexemes.flatMap Lexeme.whole), events'⟩, ⟨c', true⟩) := by
  induction hl generalizing budget before last tokens events with
  | complete hg =>
    obtain ⟨budget, rfl⟩ := Nat.exists_eq_add_of_lt hb
    obtain ⟨last', hend⟩ := Scan.nextTokenBy_settles_end Kind.trialOrder last hg h
    simp only [tokensBehind, List.append_nil]
    exact ⟨_, _, collect_settles_end hend⟩
  | unrecognized hg hd hnone =>
    obtain ⟨budget, rfl⟩ := Nat.exists_eq_add_of_lt hb
    obtain ⟨events', hend⟩ := Scan.nextTokenBy_settles_none Kind.trialOrder last hg (by decide) h
      (stopsAt_cons.2 hd) hnone
    simp only [tokensBehind, List.flatMap_nil, List.append_nil]
    exact ⟨_, _, collect_settles_failed hend⟩
  | unterminated hg hs hk hv =>
    obtain ⟨budget, rfl⟩ := Nat.exists_eq_add_of_lt hb
    obtain ⟨events', hend⟩ :=
      Scan.nextTokenBy_settles_unterminated Kind.trialOrder last hg h hs hk hv
    simp only [tokensBehind, List.flatMap_nil, List.append_nil]
    exact ⟨_, _, collect_settles_failed hend⟩
  | @lexeme gap slice more t k lexemes ending hg hs hk hv hl ih =>
    obtain ⟨budget, rfl⟩ := Nat.exists_eq_add_of_lt hb
    obtain ⟨events', last', hnext⟩ :=
      Scan.nextTokenBy_settles_token Kind.trialOrder last hg h hs hk hv
    have hmore : more.length < (gap ++ (slice ++ more)).length + budget := by
      have := List.length_pos_iff.2 (cut_of_verdict hv).2
      simp only [List.length_append]
      omega
    have h' : c.source.toList = (before ++ (gap ++ slice)) ++ more := by simpa using h
    obtain ⟨events'', c', hrest⟩ := ih hmore last' (_ :: tokens) _ h'
    refine ⟨events'', c', collect_settles_token hnext ?_⟩
    simpa [tokensBehind, Lexeme.whole] using hrest

theorem rest_settles (hl : Lexing settings source.toList lexemes ending) :
    ∃ events c', Settles source (ofSource source settings).rest
      (⟨tokensBehind [] lexemes, ending.failure source (lexemes.flatMap Lexeme.whole), events⟩,
        ⟨c', true⟩) := by
  have hb := Nat.lt_succ_self source.toList.length
  have hsource : (Cursor.ofSource source settings).source.toList = [] ++ source.toList := rfl
  obtain ⟨events, c', hrun⟩ := collect_settles hl hb none [] [] hsource
  rw [← Cursor.ofSource_eq_behind] at hrun
  exact ⟨events, c', hrun⟩

end Lexer

/-- A run finds the tokens of its source and the failure that ends it. -/
theorem runSource_settles {lexemes : List Lexeme} {ending : Ending}
    (hl : Lexing settings source.toList lexemes ending) :
    ∃ events, Settles source (runSource source settings)
      ⟨tokensBehind [] lexemes, ending.failure source (lexemes.flatMap Lexeme.whole), events⟩ := by
  obtain ⟨events, c', hrest⟩ := Lexer.rest_settles hl
  exact ⟨events, hrest.bind (.ok _)⟩

/-- What a run over a text that falls into lexemes and ends so comes to. -/
def Ending.result (source : String) (lexemes : List Lexeme) (ending : Ending) :
    Except LexError (List Token) :=
  match ending.failure source (lexemes.flatMap Lexeme.whole) with
  | none => .ok (tokensBehind [] lexemes)
  | some error => .error error

theorem tokenize_settles {lexemes : List Lexeme} {ending : Ending}
    (hl : Lexing settings source.toList lexemes ending) :
    Settles source (tokenize source settings) (ending.result source lexemes) := by
  obtain ⟨events, hrun⟩ := runSource_settles hl
  refine hrun.bind ?_
  unfold Ending.result
  cases ending.failure source (lexemes.flatMap Lexeme.whole) with
  | none => exact .ok _
  | some error => exact .ok _

/-- Tokens come of a text that falls into their lexemes to its end. -/
theorem exists_lexing_of_tokenize {tokens : List Token}
    (h : tokenize source settings = .ok (.ok tokens)) :
    ∃ lexemes, Lexing settings source.toList lexemes .complete ∧
      tokens = tokensBehind [] lexemes := by
  obtain ⟨lexemes, ending, hl⟩ := exists_lexing settings source.toList
  have hresult := (tokenize_settles hl).eq_of_ok h
  cases ending with
  | complete => exact ⟨lexemes, hl, Except.ok.inj hresult⟩
  | unterminated ahead => cases hresult
  | unrecognized ahead d => cases hresult

/-- A failure comes of the ending of the lexemes. -/
theorem exists_lexing_of_error {e : LexError} (h : tokenize source settings = .ok (.error e)) :
    ∃ lexemes ending, Lexing settings source.toList lexemes ending ∧
      ending.failure source (lexemes.flatMap Lexeme.whole) = some e := by
  obtain ⟨lexemes, ending, hl⟩ := exists_lexing settings source.toList
  refine ⟨lexemes, ending, hl, ?_⟩
  have hresult := (tokenize_settles hl).eq_of_ok h
  cases ending with
  | complete => cases hresult
  | unterminated ahead => exact congrArg some (Except.error.inj hresult.symm)
  | unrecognized ahead d => exact congrArg some (Except.error.inj hresult.symm)

/-! ## Finding tokens in a part of a source -/

/-- The text, read behind `before` in the source, comes to the tokens and ends with the failure. -/
def Finds (settings : LexerSettings) (source : String) (before text : List Char)
    (tokens : List Token) (failure : Option LexError) : Prop :=
  ∃ lexemes ending, Lexing settings text lexemes ending ∧ tokens = tokensBehind before lexemes ∧
    failure = ending.failure source (before ++ lexemes.flatMap Lexeme.whole)

theorem exists_finds (settings : LexerSettings) (source : String) (before text : List Char) :
    ∃ tokens failure, Finds settings source before text tokens failure := by
  obtain ⟨lexemes, ending, hl⟩ := exists_lexing settings text
  exact ⟨_, _, lexemes, ending, hl, rfl, rfl⟩

namespace Finds

variable {tokens : List Token} {failure : Option LexError} {ahead : List Char}
  (hg : ∀ d ∈ ahead, settings.isSeparator d = true)
include hg

/-- Separators in front only make the first gap longer. -/
theorem gap (h : Finds settings source (before ++ ahead) text tokens failure) :
    Finds settings source before (ahead ++ text) tokens failure := by
  have hgap : ∀ gap', (∀ d ∈ gap', settings.isSeparator d = true) →
      ∀ d ∈ ahead ++ gap', settings.isSeparator d = true := by
    intro gap' hg' d hd
    exact (List.mem_append.1 hd).elim (hg d) (hg' d)
  obtain ⟨lexemes, ending, hl, rfl, rfl⟩ := h
  cases hl with
  | complete hg' => exact ⟨[], _, .complete (hgap _ hg'), rfl, rfl⟩
  | unrecognized hg' hd hnone =>
    rw [← List.append_assoc]
    exact ⟨[], _, .unrecognized (hgap _ hg') hd hnone, rfl, by simp [Ending.failure]⟩
  | unterminated hg' hs hk hv =>
    rw [← List.append_assoc]
    exact ⟨[], _, .unterminated (hgap _ hg') hs hk hv, rfl, by simp [Ending.failure]⟩
  | lexeme hg' hs hk hv rest =>
    rw [← List.append_assoc]
    refine ⟨_ :: _, ending, .lexeme (hgap _ hg') hs hk hv rest, ?_, ?_⟩
    · simp [tokensBehind, Lexeme.token, Lexeme.whole]
    · simp [Lexeme.whole]

/-- A lexeme stays one in front of another text, `more'`, if its kind still is the first to answer
and its slice may stand there. -/
theorem lexeme {slice more more' t : List Char} {k : Kind}
    (hs : StopsAt settings.isSeparator (slice ++ more))
    (hk : firstHit settings Kind.trialOrder (slice ++ more) = some k)
    (hv : k.verdict settings (slice ++ more) = .matched t slice more)
    (hfirst : firstHit settings Kind.trialOrder (slice ++ more') =
      firstHit settings Kind.trialOrder (slice ++ more))
    (hallows : k.rule.Allows settings more')
    (h : Finds settings source (before ++ (ahead ++ slice)) more' tokens failure) :
    Finds settings source before (ahead ++ (slice ++ more'))
      (Lexeme.token before ⟨ahead, slice, k, t⟩ :: tokens) failure := by
  obtain ⟨-, hshape, -⟩ := verdict_eq_matched_iff.1 hv
  have hs' : StopsAt settings.isSeparator (slice ++ more') :=
    hs.of_append.append_of_ne_nil (ne_nil_of_shapes hshape) more'
  have hv' : k.verdict settings (slice ++ more') = .matched t slice more' :=
    verdict_eq_matched_iff.2 ⟨rfl, hshape, hallows⟩
  obtain ⟨lexemes, ending, hl, rfl, rfl⟩ := h
  exact ⟨_ :: lexemes, ending, .lexeme hg hs' (hfirst.trans hk) hv' hl, rfl, by simp [Lexeme.whole]⟩

end Finds

section
variable {tokens : List Token} {error : LexError} (hshort : source.length < counterBound)
include hshort

theorem Finds.tokenize_ok (h : Finds settings source [] source.toList tokens none) :
    tokenize source settings = .ok (.ok tokens) := by
  obtain ⟨lexemes, ending, hl, rfl, hends⟩ := h
  have hrun := (tokenize_settles hl).ok_of_short hshort
  rwa [Ending.result, ← List.nil_append (lexemes.flatMap _), ← hends] at hrun

theorem Finds.tokenize_error (h : Finds settings source [] source.toList tokens (some error)) :
    tokenize source settings = .ok (.error error) := by
  obtain ⟨lexemes, ending, hl, rfl, hends⟩ := h
  have hrun := (tokenize_settles hl).ok_of_short hshort
  rwa [Ending.result, ← List.nil_append (lexemes.flatMap _), ← hends] at hrun

end

end ExprLex
