/-
  ExprLex.Proofs.Uncommenting — a source without its comments has the other tokens.

  Cutting the comments out of a source (`uncommented`) leaves a line break or the end of the text
  where each of them stood. So what stands behind a lexeme agrees with what stood there as far as a
  break (`Agree`), and every kind answers as before: the text that is left falls into the lexemes
  that are no comments (`finds_stripped`). Rows stay, and columns too, since nothing but the rest of
  its row stood behind a comment; bytes move by the comments in front (`shifted_of_lexing`).
-/

import ExprLex.Proofs.Breaks
import ExprLex.Proofs.Shifting
import Mathlib.Data.List.Forall2

namespace ExprLex

variable {settings : LexerSettings} {source : String} {before text more : List Char}
  {lexemes : List Lexeme} {ending : Ending}

/-! ## Cutting spans out of a text -/

/-- What no span covers of a text that begins at byte `offset`. -/
def uncovered (spans : List Span) : Nat → List Char → List Char
  | _, [] => []
  | offset, d :: text =>
    if spans.any (·.contains offset) then uncovered spans (offset + d.utf8Size) text
    else d :: uncovered spans (offset + d.utf8Size) text

/-- The spans of the comments among the tokens. -/
def commentSpans (tokens : List Token) : List Span :=
  (tokens.filter fun t => t.kind = .comment).map Token.span

/-- The source with the comments among its tokens cut out. -/
def uncommented (source : String) (tokens : List Token) : String :=
  String.ofList (uncovered (commentSpans tokens) 0 source.toList)

/-- The bytes of the comments among the tokens that end in front of byte `offset` or there. -/
def commentBytes (tokens : List Token) (offset : Nat) : Nat :=
  ((commentSpans tokens).filter fun s => s.stop ≤ offset).foldr (fun s n => s.stop - s.start + n) 0

section
variable {spans : List Span} {s : Span}

theorem uncovered_append (spans : List Span) (offset : Nat) (text more : List Char) :
    uncovered spans offset (text ++ more) =
      uncovered spans offset text ++ uncovered spans (offset + byteLength text) more := by
  induction text generalizing offset with
  | nil => rfl
  | cons d text ih =>
    rw [List.cons_append, uncovered, uncovered, ih, byteLength_cons, Nat.add_assoc]
    split
    · rfl
    · rw [List.cons_append]

theorem length_uncovered_le (spans : List Span) (offset : Nat) (text : List Char) :
    (uncovered spans offset text).length ≤ text.length := by
  induction text generalizing offset with
  | nil => exact Nat.le_refl _
  | cons d text ih =>
    have := ih (offset + d.utf8Size)
    rw [uncovered]
    split
    · rw [List.length_cons]
      omega
    · rw [List.length_cons, List.length_cons]
      omega

theorem uncovered_of_apart {offset : Nat}
    (h : ∀ s ∈ spans, offset + byteLength text ≤ s.start) : uncovered spans offset text = text := by
  induction text generalizing offset with
  | nil => rfl
  | cons d text ih =>
    have hd := d.utf8Size_pos
    have hout : spans.any (·.contains offset) = false := by
      rw [List.any_eq_false]
      intro s hs
      have := h s hs
      simp only [Span.contains, byteLength_cons, Bool.and_eq_true, decide_eq_true_eq] at this ⊢
      omega
    rw [uncovered, hout, if_neg Bool.false_ne_true, ih fun s hs => ?_]
    have := h s hs
    rw [byteLength_cons] at this
    omega

theorem uncovered_of_covered {offset : Nat} (hs : s ∈ spans) (hstart : s.start ≤ offset)
    (hstop : offset + byteLength text ≤ s.stop) : uncovered spans offset text = [] := by
  induction text generalizing offset with
  | nil => rfl
  | cons d text ih =>
    have hd := d.utf8Size_pos
    rw [byteLength_cons] at hstop
    have hin : spans.any (·.contains offset) = true := by
      refine List.any_eq_true.2 ⟨s, hs, ?_⟩
      simp only [Span.contains, Bool.and_eq_true, decide_eq_true_eq]
      omega
    rw [uncovered, hin, if_pos rfl]
    exact ih (by omega) (by omega)

/-- A span that is over covers nothing more. -/
theorem uncovered_cons_of_stop_le {offset : Nat} (h : s.stop ≤ offset) (text : List Char) :
    uncovered (s :: spans) offset text = uncovered spans offset text := by
  induction text generalizing offset with
  | nil => rfl
  | cons d text ih =>
    have hout : s.contains offset = false := by
      simp only [Span.contains, Bool.and_eq_false_iff, decide_eq_false_iff_not]
      omega
    rw [uncovered, uncovered, List.any_cons, hout, Bool.false_or, ih (Nat.le_add_right_of_le h)]

end

/-! ## Lexemes without the comments -/

/-- What of a lexeme stays: only the gap, if it is a comment. -/
def Lexeme.kept (l : Lexeme) : List Char := if l.kind = .comment then l.gap else l.whole

/-- The text that begins with the lexemes, without the comments among them. -/
def stripped : List Lexeme → List Char → List Char
  | [], text => text
  | l :: ls, text => l.kept ++ stripped ls (text.drop l.whole.length)

theorem stripped_cons (l : Lexeme) (ls : List Lexeme) (more : List Char) :
    stripped (l :: ls) (l.gap ++ (l.slice ++ more)) = l.kept ++ stripped ls more := by
  rw [stripped, ← List.append_assoc, Lexeme.whole, List.drop_left]

theorem commentSpans_cons (l : Lexeme) (before : List Char) (tokens : List Token) :
    commentSpans (l.token before :: tokens) =
      if l.kind = .comment then (l.token before).span :: commentSpans tokens
      else commentSpans tokens := by
  unfold commentSpans
  split
  · rename_i hc
    rw [List.filter_cons_of_pos (by simpa [Lexeme.token] using hc), List.map_cons]
  · rename_i hc
    rw [List.filter_cons_of_neg (by simpa [Lexeme.token] using hc)]

theorem le_start_of_mem_commentSpans {s : Span}
    (hs : s ∈ commentSpans (tokensBehind before lexemes)) : byteLength before ≤ s.start := by
  obtain ⟨t, ht, rfl⟩ := List.mem_map.1 hs
  exact (le_start_of_mem (List.mem_filter.1 ht).1).1

/-- Cutting the spans of the comments out is taking the comments out of the lexemes. -/
theorem uncovered_of_lexing (h : Lexing settings text lexemes ending) (before : List Char) :
    uncovered (commentSpans (tokensBehind before lexemes)) (byteLength before) text =
      stripped lexemes text := by
  induction h generalizing before with
  | complete hg => exact uncovered_of_apart (fun s hs => by cases hs)
  | unrecognized hg hd hnone => exact uncovered_of_apart (fun s hs => by cases hs)
  | unterminated hg hs hk hv => exact uncovered_of_apart (fun s hs => by cases hs)
  | @lexeme gap slice more t k lexemes ending hg hs hk hv hl ih =>
    have hlater := ih (before ++ (gap ++ slice))
    have hstart : ∀ s ∈ commentSpans (tokensBehind (before ++ (gap ++ slice)) lexemes),
        byteLength (before ++ (gap ++ slice)) ≤ s.start := fun s hs => le_start_of_mem_commentSpans hs
    simp only [byteLength_append, ← Nat.add_assoc] at hlater hstart
    rw [stripped_cons ⟨gap, slice, k, t⟩ lexemes more, tokensBehind, commentSpans_cons,
      uncovered_append, uncovered_append]
    simp only [Lexeme.kept, Lexeme.whole]
    generalize commentSpans (tokensBehind (before ++ (gap ++ slice)) lexemes) = later
      at hlater hstart ⊢
    by_cases hc : k = .comment
    · rw [if_pos hc, if_pos hc]
      generalize hspan : (Lexeme.token before ⟨gap, slice, k, t⟩).span = span
      have hfirst : span.start = byteLength before + byteLength gap ∧
          span.stop = byteLength before + byteLength gap + byteLength slice := by
        simp [← hspan, Lexeme.token, Nat.add_assoc]
      have hgap : uncovered (span :: later) (byteLength before) gap = gap := by
        refine uncovered_of_apart (List.forall_mem_cons.2 ⟨?_, fun s hs => ?_⟩)
        · omega
        · have := hstart s hs
          omega
      have hslice : uncovered (span :: later) (byteLength before + byteLength gap) slice = [] :=
        uncovered_of_covered List.mem_cons_self (by omega) (by omega)
      rw [hgap, hslice, uncovered_cons_of_stop_le (by omega), hlater, List.nil_append]
    · rw [if_neg hc, if_neg hc]
      have hgap : uncovered later (byteLength before) gap = gap := by
        refine uncovered_of_apart fun s hs => ?_
        have := hstart s hs
        omega
      have hslice : uncovered later (byteLength before + byteLength gap) slice = slice :=
        uncovered_of_apart hstart
      rw [hgap, hslice, hlater, List.append_assoc]

/-! ## Every kind answers as before -/

/-- The texts agree as far as a break of each, and no literal in front of it is left open. -/
def Agree (settings : LexerSettings) (text text' : List Char) : Prop :=
  ∃ m tail tail', text = m ++ tail ∧ text' = m ++ tail' ∧ Breaks tail ∧ Breaks tail' ∧
    endBefore settings false m ≠ .unterminated

namespace Agree

variable {text' slice : List Char} (h : Agree settings text text')
include h

theorem firstHit_eq (hne : slice ≠ []) : firstHit settings Kind.trialOrder (slice ++ text') =
    firstHit settings Kind.trialOrder (slice ++ text) := by
  obtain ⟨m, tail, tail', rfl, rfl, hb, hb', -⟩ := h
  have hne' : slice ++ m ≠ [] := List.append_ne_nil_of_left_ne_nil hne m
  rw [← List.append_assoc, ← List.append_assoc, firstHit_append hne' hb, firstHit_append hne' hb']

theorem allows {rule : Rule} (hrule : rule ≠ .comment) (hallows : rule.Allows settings text) :
    rule.Allows settings text' := by
  obtain ⟨m, tail, tail', rfl, rfl, hb, hb', hclosed⟩ := h
  exact (hallows.of_append hb hclosed).append hb' fun hc => absurd hc hrule

end Agree

/-- A separator ends digits, whatever stands behind it. -/
theorem endBefore_ne_unterminated_of_gap {gap : List Char}
    (hg : ∀ d ∈ gap, settings.isSeparator d = true)
    (hmore : endBefore settings false more ≠ .unterminated) :
    endBefore settings false (gap ++ more) ≠ .unterminated := by
  cases gap with
  | nil => exact hmore
  | cons d gap => simp [endBefore, hg d List.mem_cons_self]

/-- A slice that was read closes the literal that it opens. -/
theorem endBefore_ne_unterminated_of_slice {k : Kind} {slice t : List Char}
    (hk : firstHit settings Kind.trialOrder (slice ++ more) = some k)
    (hv : k.verdict settings (slice ++ more) = .matched t slice more) (m : List Char) :
    endBefore settings false (slice ++ m) ≠ .unterminated := by
  obtain ⟨-, hshape, -⟩ := verdict_eq_matched_iff.1 hv
  obtain ⟨d, run, rfl⟩ := List.exists_cons_of_ne_nil (ne_nil_of_shapes hshape)
  intro hopen
  simp only [List.cons_append, endBefore] at hopen
  split at hopen
  · cases hopen
  · obtain ⟨body, hbody, hunclosed⟩ := open_of_followEnd hopen
    obtain ⟨rfl, rfl⟩ := List.cons.inj hbody
    obtain rfl := eq_string_of_isHit (isHit_of_firstHit hk)
    obtain ⟨read, hread, hclosed⟩ := hshape
    obtain ⟨-, rfl⟩ := List.cons.inj hread
    rw [Unclosed, Verdict.literalBody_of_isBody hclosed] at hunclosed
    cases hunclosed

/-- Taking comments out leaves a separator in front where it is. -/
theorem head?_stripped (h : Lexing settings text lexemes ending)
    (hsep : ∀ d ∈ text.head?, settings.isSeparator d = true) :
    (stripped lexemes text).head? = text.head? := by
  cases h with
  | complete hg => rfl
  | unrecognized hg hd hnone => rfl
  | unterminated hg hs hk hv => rfl
  | @lexeme gap slice more t k lexemes ending hg hs hk hv hl =>
    cases gap with
    | nil =>
      obtain ⟨d, run, rfl⟩ := List.exists_cons_of_ne_nil (cut_of_verdict hv).2
      have hd : settings.isSeparator d = false := stopsAt_cons.1 hs
      rw [hsep d rfl] at hd
      cases hd
    | cons d gap =>
      rw [stripped_cons ⟨d :: gap, slice, k, t⟩, Lexeme.kept]
      split <;> rfl

theorem stopsAt_line_of_comment {slice t : List Char}
    (hv : Kind.comment.verdict settings (slice ++ more) = .matched t slice more) :
    (∃ run, slice = '#' :: run ∧ '\n' ∉ run) ∧ StopsAt (· ≠ '\n') more := by
  obtain ⟨-, ⟨hslice, hline⟩, hstop⟩ := verdict_eq_matched_iff.1 hv
  exact ⟨⟨t, hslice, hline⟩, hstop⟩

/-- Behind a comment the text that is left is over or goes on with the line break. -/
theorem stopsAt_stripped (h : Lexing settings text lexemes ending)
    (hstop : StopsAt (· ≠ '\n') text) : StopsAt (· ≠ '\n') (stripped lexemes text) := by
  intro d hd
  rw [head?_stripped h fun e he => ?_] at hd
  · exact hstop d hd
  · have hline : e = '\n' := by simpa using hstop e he
    simp [hline, LexerSettings.isSeparator]

/-- The part in front of the first comment stays, and where comments stood breaks are left. -/
theorem agree_of_lexing (h : Lexing settings text lexemes .complete) :
    Agree settings text (stripped lexemes text) := by
  generalize he : Ending.complete = ending at h
  have hend : endBefore settings false [] ≠ .unterminated := by simp [endBefore]
  induction h with
  | @complete gap hg =>
    have hb : Breaks [] := breaks_of_line (stopsAt_nil _)
    refine ⟨gap, [], [], by simp, by simp [stripped], hb, hb, ?_⟩
    simpa using endBefore_ne_unterminated_of_gap hg hend
  | unrecognized hg hd hnone => cases he
  | unterminated hg hs hk hv => cases he
  | @lexeme gap slice more t k lexemes ending hg hs hk hv hl ih =>
    rw [stripped_cons ⟨gap, slice, k, t⟩ lexemes more]
    by_cases hc : k = .comment
    · subst hc
      obtain ⟨⟨run, rfl, -⟩, hstop⟩ := stopsAt_line_of_comment hv
      refine ⟨gap, '#' :: run ++ more, stripped lexemes more, rfl, rfl, ?_,
        breaks_of_line (stopsAt_stripped hl hstop), ?_⟩
      · intro d hd
        cases hd
        exact .inr rfl
      · simpa using endBefore_ne_unterminated_of_gap hg hend
    · obtain ⟨m, tail, tail', rfl, hleft, hb, hb', -⟩ := ih he
      refine ⟨gap ++ (slice ++ m), tail, tail', by simp, ?_, hb, hb', ?_⟩
      · simp [Lexeme.kept, hc, Lexeme.whole, hleft]
      · exact endBefore_ne_unterminated_of_gap hg (endBefore_ne_unterminated_of_slice hk hv m)

/-! ## The lexemes that are left -/

/-- The tokens of the lexemes that are no comments, where the comments are taken out. -/
def tokensLeft : List Char → List Lexeme → List Token
  | _, [] => []
  | before, l :: ls =>
    if l.kind = .comment then tokensLeft (before ++ l.gap) ls
    else l.token before :: tokensLeft (before ++ l.whole) ls

theorem rule_ne_comment {k : Kind} (h : k ≠ .comment) : k.rule ≠ .comment := by
  cases k <;> simp_all [Kind.rule]

/-- What is left of a text without its comments falls into the other lexemes. -/
theorem finds_stripped (source : String) (h : Lexing settings text lexemes .complete)
    (before : List Char) :
    Finds settings source before (stripped lexemes text) (tokensLeft before lexemes) none := by
  generalize he : Ending.complete = ending at h
  induction h generalizing before with
  | complete hg => exact ⟨[], _, .complete hg, rfl, rfl⟩
  | unrecognized hg hd hnone => cases he
  | unterminated hg hs hk hv => cases he
  | @lexeme gap slice more t k lexemes ending hg hs hk hv hl ih =>
    subst he
    rw [stripped_cons ⟨gap, slice, k, t⟩ lexemes more, tokensLeft]
    by_cases hc : k = .comment
    · rw [Lexeme.kept, if_pos hc, if_pos hc]
      exact Finds.gap hg (ih _ rfl)
    · have hagree := agree_of_lexing hl
      have hfirst := hagree.firstHit_eq (cut_of_verdict hv).2
      have hallows := hagree.allows (rule_ne_comment hc) (verdict_eq_matched_iff.1 hv).2.2
      rw [Lexeme.kept, if_neg hc, if_neg hc, Lexeme.whole, List.append_assoc]
      exact Finds.lexeme hg hs hk hv hfirst hallows (ih _ rfl)

/-! ## Where the tokens stand -/

section
variable {tokens : List Token} {offset : Nat} {l : Lexeme}

theorem commentBytes_cons_comment (hc : l.kind = .comment)
    (h : byteLength (before ++ l.whole) ≤ offset) :
    commentBytes (l.token before :: tokens) offset =
      byteLength l.slice + commentBytes tokens offset := by
  have hstop : (l.token before).span.stop ≤ offset := by simpa [Lexeme.token, Lexeme.whole] using h
  have hlen : (l.token before).span.stop - (l.token before).span.start = byteLength l.slice := by
    simp only [Lexeme.token, byteLength_append]
    omega
  rw [commentBytes, commentSpans_cons, if_pos hc, List.filter_cons_of_pos (by simpa using hstop),
    List.foldr_cons, hlen, commentBytes]

theorem commentBytes_cons_other (hc : l.kind ≠ .comment) :
    commentBytes (l.token before :: tokens) offset = commentBytes tokens offset := by
  rw [commentBytes, commentSpans_cons, if_neg hc, commentBytes]

theorem commentBytes_eq_zero (h : ∀ t ∈ tokens, offset < t.span.stop) :
    commentBytes tokens offset = 0 := by
  have hnil : (commentSpans tokens).filter (fun s => s.stop ≤ offset) = [] := by
    refine List.filter_eq_nil_iff.2 fun s hs => ?_
    obtain ⟨t, ht, rfl⟩ := List.mem_map.1 hs
    have := h t (List.mem_filter.1 ht).1
    simpa using this
  rw [commentBytes, hnil, List.foldr_nil]

/-- No comment ends in front of the first token. -/
theorem commentBytes_first (hc : l.kind ≠ .comment) (hne : l.slice ≠ []) (ls : List Lexeme) :
    commentBytes (l.token before :: tokensBehind (before ++ l.whole) ls)
      (l.token before).span.start = 0 := by
  rw [commentBytes_cons_other hc]
  refine commentBytes_eq_zero fun t ht => ?_
  have hpos := byteLength_pos hne
  have hle := le_start_of_mem ht
  simp only [Lexeme.token, Lexeme.whole, byteLength_append] at hle ⊢
  omega

theorem Lexeme.isVisible_token (l : Lexeme) (before : List Char) :
    (l.token before).isVisible = decide (l.kind ≠ .comment) := by
  have check : ∀ k ∈ Kind.all, decide (k.category ≠ .invisible) = decide (k ≠ .comment) := by decide
  exact check l.kind l.kind.mem_all

end

/-- The text was read behind `before`, and what is left of it stands behind `before'`, which lacks
`removed` bytes of comments. Columns agree, or a comment has just been read and its row is over. -/
structure Beside (removed : Nat) (before before' text : List Char) : Prop where
  bytes : byteLength before = removed + byteLength before'
  rows : before.count '\n' = before'.count '\n'
  cols : (lastLine before).length = (lastLine before').length ∨ StopsAt (· ≠ '\n') text

namespace Beside

variable {removed : Nat} {before' gap rest : List Char}

/-- What stands behind a comment begins in a new row. -/
theorem cols_behind (h : Beside removed before before' (gap ++ rest))
    (hs : StopsAt settings.isSeparator rest) (hne : rest ≠ []) :
    (lastLine (before ++ gap)).length = (lastLine (before' ++ gap)).length := by
  rcases h.cols with hcols | hstop
  · rw [length_lastLine_append, length_lastLine_append, hcols]
  · cases gap with
    | nil =>
      obtain ⟨d, rest, rfl⟩ := List.exists_cons_of_ne_nil hne
      have hd : d = '\n' := by simpa using stopsAt_cons.1 hstop
      have hsep := stopsAt_cons.1 hs
      simp [hd, LexerSettings.isSeparator] at hsep
    | cons d gap =>
      have hd : d = '\n' := by simpa using stopsAt_cons.1 hstop
      have hmem : '\n' ∈ d :: gap := by simp [hd]
      rw [lastLine_append_of_mem hmem, lastLine_append_of_mem hmem]

theorem comment {slice : List Char} (h : Beside removed before before' (gap ++ (slice ++ rest)))
    (hslice : slice.count '\n' = 0) (hstop : StopsAt (· ≠ '\n') rest) :
    Beside (removed + byteLength slice) (before ++ (gap ++ slice)) (before' ++ gap) rest where
  bytes := by
    have := h.bytes
    simp only [byteLength_append]
    omega
  rows := by simp only [List.count_append, h.rows, hslice, Nat.add_zero]
  cols := .inr hstop

theorem other {slice : List Char} (h : Beside removed before before' (gap ++ (slice ++ rest)))
    (hs : StopsAt settings.isSeparator (slice ++ rest)) (hne : slice ++ rest ≠ []) :
    Beside removed (before ++ (gap ++ slice)) (before' ++ (gap ++ slice)) rest where
  bytes := by
    have := h.bytes
    simp only [byteLength_append]
    omega
  rows := by simp only [List.count_append, h.rows]
  cols := by
    have hcols := h.cols_behind hs hne
    left
    rw [← List.append_assoc, ← List.append_assoc, length_lastLine_append,
      length_lastLine_append (before' ++ gap), hcols]

end Beside

theorem Lexeme.token_shift {l : Lexeme} {n : Nat} {before' : List Char}
    (hbytes : byteLength before = n + byteLength before')
    (hrows : before.count '\n' = before'.count '\n')
    (hcols : (lastLine (before ++ l.gap)).length = (lastLine (before' ++ l.gap)).length) :
    l.token before = (l.token before').shift n 0 0 := by
  simp only [token, Token.shift, byteLength_append, List.count_append, colBehind_zero, hbytes, hrows,
    hcols, Nat.zero_add, Nat.add_assoc]

/-- The tokens that are left stand where they stood, but for the bytes of the comments in front. -/
theorem shifted_of_lexing (h : Lexing settings text lexemes ending) {removed : Nat}
    {before before' : List Char} (hb : Beside removed before before' text) {amount : Token → Nat}
    (hamount : ∀ t ∈ tokensBehind before lexemes,
      amount t = removed + commentBytes (tokensBehind before lexemes) t.span.start) :
    List.Forall₂ (fun t t' => t = t'.shift (amount t) 0 0)
      ((tokensBehind before lexemes).filter Token.isVisible) (tokensLeft before' lexemes) := by
  induction h generalizing removed before before' with
  | complete hg => exact .nil
  | unrecognized hg hd hnone => exact .nil
  | unterminated hg hs hk hv => exact .nil
  | @lexeme gap slice more t k lexemes ending hg hs hk hv hl ih =>
    have hne := (cut_of_verdict hv).2
    simp only [tokensBehind] at hamount ⊢
    obtain ⟨hfirst, hlater⟩ := List.forall_mem_cons.1 hamount
    rw [tokensLeft]
    by_cases hc : k = .comment
    · subst hc
      obtain ⟨⟨run, rfl, hline⟩, hstop⟩ := stopsAt_line_of_comment hv
      have hcount : ('#' :: run).count '\n' = 0 := by
        rw [List.count_cons_of_ne (by decide), List.count_eq_zero.2 hline]
      rw [List.filter_cons_of_neg (by simp [Lexeme.isVisible_token]), if_pos rfl]
      refine ih (hb.comment hcount hstop) fun t ht => ?_
      -- the comment in front has become part of what was removed
      have hle := (le_start_of_mem ht).1
      rw [hlater t ht, commentBytes_cons_comment rfl hle, Nat.add_assoc]
    · rw [List.filter_cons_of_pos (by simp [Lexeme.isVisible_token, hc]), if_neg hc]
      have hcols := hb.cols_behind hs (List.append_ne_nil_of_left_ne_nil hne more)
      have hrest := hb.other hs (List.append_ne_nil_of_left_ne_nil hne more)
      refine .cons ?_ (ih hrest fun t ht => ?_)
      · refine Lexeme.token_shift ?_ hb.rows hcols
        rw [hfirst, commentBytes_first hc hne lexemes, Nat.add_zero, hb.bytes]
      · rw [hlater t ht, commentBytes_cons_other hc]

/-! ## Whole sources -/

/-- A source without the comments that it was found to have comes to its visible tokens, each where
it stood but for the bytes of the comments in front of it. -/
theorem tokenize_uncommented {tokens : List Token} (hshort : source.length < counterBound)
    (h : tokenize source settings = .ok (.ok tokens)) :
    ∃ tokens', tokenize (uncommented source tokens) settings = .ok (.ok tokens') ∧
      List.Forall₂ (fun t t' => t = t'.shift (commentBytes tokens t.span.start) 0 0)
        (tokens.filter Token.isVisible) tokens' := by
  obtain ⟨lexemes, hl, rfl⟩ := exists_lexing_of_tokenize h
  have hleft : (uncommented source (tokensBehind [] lexemes)).toList =
      stripped lexemes source.toList := by
    rw [uncommented, String.toList_ofList]
    exact uncovered_of_lexing hl []
  have hlen : (uncommented source (tokensBehind [] lexemes)).length < counterBound := by
    have hle := length_uncovered_le (commentSpans (tokensBehind [] lexemes)) 0 source.toList
    rw [String.length_toList] at hle
    rw [uncommented, String.length_ofList]
    omega
  have hfinds := finds_stripped (uncommented source (tokensBehind [] lexemes)) hl []
  rw [← hleft] at hfinds
  refine ⟨_, hfinds.tokenize_ok hlen, shifted_of_lexing hl ⟨(Nat.zero_add _).symm, rfl, .inl rfl⟩ fun t ht => ?_⟩
  rw [Nat.zero_add]

/-- A comment of three bytes directly behind a number, and a hash inside a string. -/
theorem tokenize_uncommented_hashes : "1#é\n\"#\"".length < counterBound ∧
    ∃ tokens tokens', tokenize "1#é\n\"#\"" = .ok (.ok tokens) ∧
      tokens = [⟨.long, .value, "1", 0, 0, ⟨0, 1, 0, 0⟩⟩,
        ⟨.comment, .invisible, "é", 0, 1, ⟨1, 4, 0, 1⟩⟩,
        ⟨.string, .value, "#", 1, 0, ⟨5, 8, 1, 0⟩⟩] ∧
      tokenize "1\n\"#\"" = .ok (.ok tokens') ∧
      List.Forall₂ (fun t t' => t = t'.shift (commentBytes tokens t.span.start) 0 0)
        (tokens.filter Token.isVisible) tokens' := by
  have hshort : "1#é\n\"#\"".length < counterBound := by decide
  have h : tokenize "1#é\n\"#\"" = .ok (.ok [⟨.long, .value, "1", 0, 0, ⟨0, 1, 0, 0⟩⟩,
      ⟨.comment, .invisible, "é", 0, 1, ⟨1, 4, 0, 1⟩⟩,
      ⟨.string, .value, "#", 1, 0, ⟨5, 8, 1, 0⟩⟩]) := by
    decide +kernel
  obtain ⟨tokens', hrun, hshifted⟩ := tokenize_uncommented hshort h
  exact ⟨hshort, _, tokens', h, rfl, hrun, hshifted⟩

end ExprLex
