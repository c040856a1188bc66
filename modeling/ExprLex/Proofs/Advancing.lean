/-
  ExprLex.Proofs.Advancing — what asking for the next token comes to, by the text that is left.

  `Advances` lists what a cursor behind `before` and in front of a text may find, with the place where
  it then stands: the end behind a gap of separators, a failure in front of a character that begins no
  token, or a token. A cursor at a true place finds one of these and nothing else of it changes
  (`nextToken_advances`), so a lexer never leaves the true places of its source, however it is asked
  (`Lexer.Reached.stands`).

  What a text begins with is said of a cursor that faces it behind a gap (`Faces`). The first kind to
  answer decides: the cursor yields its token (`Faces.yields`), or refuses with the failure of a literal
  that is never closed (`Faces.refuses_unterminated`) or of a character that begins nothing
  (`Faces.refuses_unrecognized`).
-/

import ExprLex.Proofs.Lexing

namespace ExprLex

variable {settings : LexerSettings} {source : String} {c : Cursor}
  {before text gap slice more t : List Char} {k : Kind}

/-- The failure of a character behind `before` that begins no token. -/
def unrecognizedBehind (source : String) (before : List Char) (d : Char) : LexError :=
  .unrecognizedCharacter (before.count '\n') (lastLine before).length d source

/-- Behind `before` and in front of a text stands something to find; then the cursor stands behind
`read` and in front of `left`. -/
inductive Advances (settings : LexerSettings) (source : String) (before : List Char) :
    List Char → Found → (read left : List Char) → Prop
  | ended {gap : List Char} (hg : ∀ d ∈ gap, settings.isSeparator d = true) :
    Advances settings source before gap .endOfInput (before ++ gap) []
  | unrecognized {gap text : List Char} {d : Char} (hg : ∀ d ∈ gap, settings.isSeparator d = true)
    (hs : StopsAt settings.isSeparator (d :: text))
    (hnone : firstHit settings Kind.trialOrder (d :: text) = none) :
    Advances settings source before (gap ++ d :: text)
      (.failed (unrecognizedBehind source (before ++ gap) d)) (before ++ gap) (d :: text)
  | unterminated {gap text skipped : List Char} {k : Kind}
    (hg : ∀ d ∈ gap, settings.isSeparator d = true) (hs : StopsAt settings.isSeparator text)
    (hk : firstHit settings Kind.trialOrder text = some k)
    (hv : k.verdict settings text = .unterminated skipped) :
    Advances settings source before (gap ++ text)
      (.failed (unterminatedBehind source (before ++ (gap ++ skipped)))) (before ++ gap) text
  | token {gap slice more t : List Char} {k : Kind} (hg : ∀ d ∈ gap, settings.isSeparator d = true)
    (hs : StopsAt settings.isSeparator (slice ++ more))
    (hk : firstHit settings Kind.trialOrder (slice ++ more) = some k)
    (hv : k.verdict settings (slice ++ more) = .matched t slice more) :
    Advances settings source before (gap ++ (slice ++ more))
      (.token (Lexeme.token before ⟨gap, slice, k, t⟩)) (before ++ (gap ++ slice)) more

/-- Nothing of the text is lost. -/
theorem Advances.cut {found : Found} {read left : List Char}
    (h : Advances settings source before text found read left) : before ++ text = read ++ left := by
  cases h with
  | ended hg => simp
  | unrecognized hg hs hnone => simp
  | unterminated hg hs hk hv => simp
  | token hg hs hk hv => simp

theorem nextToken_advances (last : Option Place) (h : c.source.toList = before ++ text) :
    ∃ found events read left last',
      Settles c.source (Scan.nextToken (c.behind before text last))
        (⟨found, events⟩, c.behind read left last') ∧
      Advances c.settings c.source before text found read left := by
  obtain ⟨hcut, hg, hs⟩ := cut_where_stops c.settings.isSeparator text
  generalize text.takeWhile c.settings.isSeparator = gap at hcut hg
  generalize text.dropWhile c.settings.isSeparator = rest at hcut hs
  subst hcut
  cases rest with
  | nil =>
    rw [List.append_nil] at h ⊢
    obtain ⟨last', hnext⟩ := Scan.nextTokenBy_settles_end Kind.trialOrder last hg h
    exact ⟨_, _, _, _, _, hnext, .ended hg⟩
  | cons d rest =>
    cases hk : firstHit c.settings Kind.trialOrder (d :: rest) with
    | none =>
      obtain ⟨events, hnext⟩ :=
        Scan.nextTokenBy_settles_none Kind.trialOrder last hg (by decide) h hs hk
      exact ⟨_, _, _, _, _, hnext, .unrecognized hg hs hk⟩
    | some k =>
      cases hv : k.verdict c.settings (d :: rest) with
      | mismatch =>
        have hhit := isHit_of_firstHit hk
        rw [hv] at hhit
        cases hhit
      | unterminated skipped =>
        obtain ⟨events, hnext⟩ :=
          Scan.nextTokenBy_settles_unterminated Kind.trialOrder last hg h hs hk hv
        exact ⟨_, _, _, _, _, hnext, .unterminated hg hs hk hv⟩
      | matched t slice more =>
        obtain ⟨hslice, -⟩ := cut_of_verdict hv
        rw [hslice] at h hs hk hv ⊢
        obtain ⟨events, last', hnext⟩ :=
          Scan.nextTokenBy_settles_token Kind.trialOrder last hg h hs hk hv
        exact ⟨_, _, _, _, _, hnext, .token hg hs hk hv⟩

/-- An answer of a cursor at a true place is what stands there to find. -/
theorem advances_of_nextToken {advance : Advance} {stop : Cursor} (h : c.StandsAt before text)
    (hrun : Scan.nextToken c = .ok (advance, stop)) :
    ∃ read left last', stop = c.behind read left last' ∧
      Advances c.settings c.source before text advance.found read left := by
  obtain ⟨found, events, read, left, last', hnext, hadvances⟩ := nextToken_advances c.last h.1
  rw [← h.eq_behind] at hnext
  obtain ⟨rfl, rfl⟩ := Prod.mk.inj (hnext.eq_of_ok hrun)
  exact ⟨read, left, last', rfl, hadvances⟩

theorem Cursor.standsAt_behind {read left : List Char} (last : Option Place)
    (h : c.source.toList = read ++ left) : (c.behind read left last).StandsAt read left := ⟨h, rfl⟩

/-! ## Lexers that are asked again and again -/

namespace Lexer

/-- The lexers that a fresh one becomes when it is asked for tokens, in the one way or the other. -/
inductive Reached (source : String) (settings : LexerSettings) : Lexer → Prop
  | fresh : Reached source settings (ofSource source settings)
  | nextToken {l l' : Lexer} {advance : Advance} (h : Reached source settings l)
    (hrun : l.nextToken = .ok (advance, l')) : Reached source settings l'
  | next {l l' : Lexer} {advance : Advance} (h : Reached source settings l)
    (hrun : l.next = .ok (advance, l')) : Reached source settings l'

theorem scan_of_nextToken {l l' : Lexer} {advance : Advance}
    (h : l.nextToken = .ok (advance, l')) :
    Scan.nextToken l.cursor = .ok (advance, l'.cursor) ∧ l'.finished = l.finished := by
  obtain ⟨⟨advance', stop⟩, hscan, hends⟩ := exists_of_bind_eq_ok h
  cases hends
  exact ⟨hscan, rfl⟩

theorem nextToken_of_scan {l : Lexer} {advance : Advance} {stop : Cursor}
    (h : Scan.nextToken l.cursor = .ok (advance, stop)) :
    l.nextToken = .ok (advance, { l with cursor := stop }) := by
  rw [nextToken, h]
  rfl

/-- Iterating leaves the cursor where it is or asks for the next token. -/
theorem cursor_of_next {l l' : Lexer} {advance : Advance} (h : l.next = .ok (advance, l')) :
    l'.cursor = l.cursor ∨ ∃ l'', l.nextToken = .ok (advance, l'') ∧ l'.cursor = l''.cursor := by
  unfold next at h
  split at h
  · cases h
    exact .inl rfl
  · obtain ⟨⟨advance', l''⟩, hnext, hends⟩ := exists_of_bind_eq_ok h
    dsimp only at hends
    split at hends
    · cases hends
      exact .inr ⟨l', hnext, rfl⟩
    · cases hends
      exact .inr ⟨l'', hnext, rfl⟩

/-- The cursor reads the source under the settings and stands at a true place. -/
def Stands (source : String) (settings : LexerSettings) (l : Lexer) : Prop :=
  l.cursor.source = source ∧ l.cursor.settings = settings ∧
    ∃ before text, l.cursor.StandsAt before text

theorem stands_nextToken {l l' : Lexer} {advance : Advance} (h : l.Stands source settings)
    (hrun : l.nextToken = .ok (advance, l')) : l'.Stands source settings := by
  obtain ⟨hsource, hsettings, before, text, hat⟩ := h
  obtain ⟨read, left, last', hstop, hadvances⟩ :=
    advances_of_nextToken hat (scan_of_nextToken hrun).1
  have hcut : l.cursor.source.toList = read ++ left := hat.1.trans hadvances.cut
  unfold Stands
  rw [hstop]
  exact ⟨hsource, hsettings, read, left, Cursor.standsAt_behind last' hcut⟩

/-- However a lexer is asked, it stays at true places of its source. -/
theorem Reached.stands {l : Lexer} (h : Reached source settings l) : l.Stands source settings := by
  induction h with
  | fresh => exact ⟨rfl, rfl, [], source.toList, rfl, rfl⟩
  | nextToken h hrun ih => exact stands_nextToken ih hrun
  | next h hrun ih =>
    rcases cursor_of_next hrun with hsame | ⟨l'', hnext, hsame⟩
    · unfold Stands
      rw [hsame]
      exact ih
    · unfold Stands
      rw [hsame]
      exact stands_nextToken ih hnext

end Lexer

/-! ## What a text begins with -/

namespace Cursor

/-- Behind `before` stand the separators of `gap` and then the text, which begins with none. -/
structure Faces (c : Cursor) (before gap text : List Char) : Prop where
  stands : c.StandsAt before (gap ++ text)
  separators : ∀ d ∈ gap, c.settings.isSeparator d = true
  stops : StopsAt c.settings.isSeparator text

/-- A fresh cursor faces its source, if that begins with no separator. -/
theorem faces_ofSource (h : source.toList = text) (hs : StopsAt settings.isSeparator text) :
    (ofSource source settings).Faces [] [] text := by
  subst h
  exact ⟨⟨rfl, rfl⟩, by simp, hs⟩

/-- The next token is that of the lexeme behind `before`, and then the cursor stands behind it and
in front of `more`. -/
def Yields (c : Cursor) (before : List Char) (l : Lexeme) (more : List Char) : Prop :=
  ∃ events last', Scan.nextToken c =
    .ok (⟨.token (l.token before), events⟩, c.behind (before ++ l.whole) more last')

/-- There is no next token but a failure, and then the cursor stands behind `read` and in front of
`text`. -/
def Refuses (c : Cursor) (error : LexError) (read text : List Char) : Prop :=
  ∃ events last', Scan.nextToken c = .ok (⟨.failed error, events⟩, c.behind read text last')

namespace Faces

variable (hshort : c.source.length < counterBound)
include hshort

theorem yields (h : c.Faces before gap (slice ++ more))
    (hk : firstHit c.settings Kind.trialOrder (slice ++ more) = some k)
    (hv : k.verdict c.settings (slice ++ more) = .matched t slice more) :
    c.Yields before ⟨gap, slice, k, t⟩ more := by
  obtain ⟨events, last', hnext⟩ := Scan.nextTokenBy_settles_token Kind.trialOrder c.last
    h.separators h.stands.1 h.stops hk hv
  rw [← h.stands.eq_behind] at hnext
  exact ⟨events, last', hnext.ok_of_short hshort⟩

theorem refuses_unterminated {skipped : List Char} (h : c.Faces before gap text)
    (hk : firstHit c.settings Kind.trialOrder text = some k)
    (hv : k.verdict c.settings text = .unterminated skipped) :
    c.Refuses (unterminatedBehind c.source (before ++ (gap ++ skipped))) (before ++ gap) text := by
  obtain ⟨events, hnext⟩ := Scan.nextTokenBy_settles_unterminated Kind.trialOrder c.last
    h.separators h.stands.1 h.stops hk hv
  rw [← h.stands.eq_behind] at hnext
  exact ⟨events, none, hnext.ok_of_short hshort⟩

theorem refuses_unrecognized {d : Char} (h : c.Faces before gap (d :: text))
    (hnone : firstHit c.settings Kind.trialOrder (d :: text) = none) :
    c.Refuses (unrecognizedBehind c.source (before ++ gap) d) (before ++ gap) (d :: text) := by
  obtain ⟨events, hnext⟩ := Scan.nextTokenBy_settles_none Kind.trialOrder c.last h.separators
    (by decide) h.stands.1 h.stops hnone
  rw [← h.stands.eq_behind] at hnext
  exact ⟨events, none, hnext.ok_of_short hshort⟩

end Faces

end Cursor

end ExprLex
