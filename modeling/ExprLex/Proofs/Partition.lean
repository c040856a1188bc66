/-
  ExprLex.Proofs.Partition — the tokens of a run and the gaps between them are the whole source.

  `Tiles settings before text tokens` says that the text behind `before` is a gap, a slice, a gap and
  so on through a last gap: every gap holds separators only, and the slices stand where the spans of
  the tokens say and determine the tokens' texts by their kinds (`Rule.Denotes`). A run that succeeds
  tiles its source (`tiles_of_lexing`), and what the spans have in common follows from that alone.
-/

import ExprLex.Proofs.Lexing
import Mathlib.Control.Monad.Basic

namespace ExprLex

variable {settings : LexerSettings} {before text : List Char} {tokens : List Token}

/-- The slice, with `more` behind it, is a way to write a token of the rule with the text. -/
def Rule.Denotes (rule : Rule) (slice more text : List Char) : Prop :=
  match rule with
  | spelling word _ => slice.map Char.toLower = word.toList.map Char.toLower ∧ text = word.toList
  | identifier | long => slice = text
  | double => slice = text ∨ slice.head? = some '.' ∧ text = '0' :: slice
  | string => 2 ≤ slice.length ∧ slice.head? = some '"' ∧ slice.getLast? = some '"'
  | comment => slice = '#' :: text ∧ '\n' ∉ text ∧ ∀ d ∈ more.head?, d = '\n'

/-- A slice of the rule's shape denotes its text, where a line break ends a comment. -/
theorem denotes_of_shapes {rule : Rule} {slice more t : List Char} (h : rule.Shapes slice t)
    (hcomment : rule = .comment → ∀ d ∈ more.head?, d = '\n') : rule.Denotes slice more t := by
  cases rule with
  | spelling word notBefore => exact h
  | identifier => exact h.1.symm
  | long => exact h.1.symm
  | double =>
    obtain ⟨whole, part, rfl, rfl, -⟩ := h
    cases whole with
    | nil => exact .inr ⟨rfl, rfl⟩
    | cons d whole => exact .inl rfl
  | string =>
    obtain ⟨read, rfl, hread⟩ := h
    have hlast := Verdict.getLast?_of_isBody hread
    have hne : read ≠ [] := List.ne_nil_of_mem (List.mem_of_getLast? hlast)
    obtain ⟨d, read, rfl⟩ := List.exists_cons_of_ne_nil hne
    refine ⟨by simp, rfl, ?_⟩
    rw [List.getLast?_cons_cons, hlast]
  | comment => exact ⟨h.1, h.2, hcomment rfl⟩

theorem denotes_of_verdict {k : Kind} {slice more t : List Char}
    (h : k.verdict settings (slice ++ more) = .matched t slice more) :
    k.rule.Denotes slice more t := by
  refine denotes_of_shapes (shapes_of_verdict h).2 fun hr d hd => ?_
  have hne := List.append_ne_nil_of_left_ne_nil (cut_of_verdict h).2 more
  rw [Kind.verdict_of_ne hne, hr] at h
  simpa using (Verdict.ofComment_eq_matched_iff.1 h).2.2.2 d hd

/-- A character of two texts in a row stands in the first or in the second. -/
theorem mem_left_or_right {left right earlier later : List Char} {d : Char}
    (h : left ++ right = earlier ++ d :: later) :
    (∃ run, left = earlier ++ d :: run ∧ later = run ++ right) ∨
      ∃ run, earlier = left ++ run ∧ right = run ++ d :: later := by
  rcases List.append_eq_append_iff.1 h with hright | ⟨run, hleft, hd⟩
  · exact .inr hright
  · cases run with
    | nil => exact .inr ⟨[], by simpa using hleft.symm, hd.symm⟩
    | cons e run =>
      obtain ⟨rfl, hlater⟩ := List.cons.inj hd
      exact .inl ⟨run, hleft, hlater⟩

/-! ## Tilings -/

/-- The text behind `before` is gap, slice, gap, …, gap, and the tokens stand for the slices. -/
inductive Tiles (settings : LexerSettings) : List Char → List Char → List Token → Prop
  | gap {before gap : List Char} (hg : ∀ d ∈ gap, settings.isSeparator d = true) :
    Tiles settings before gap []
  | token {before gap slice more : List Char} {t : Token} {tokens : List Token}
    (hg : ∀ d ∈ gap, settings.isSeparator d = true) (hne : slice ≠ [])
    (hstart : t.span.start = byteLength (before ++ gap))
    (hstop : t.span.stop = byteLength (before ++ gap ++ slice))
    (hcategory : t.category = t.kind.category)
    (htext : t.kind.rule.Denotes slice more t.text.toList)
    (rest : Tiles settings (before ++ gap ++ slice) more tokens) :
    Tiles settings before (gap ++ (slice ++ more)) (t :: tokens)

theorem tiles_of_lexing {lexemes : List Lexeme} (h : Lexing settings text lexemes .complete) :
    Tiles settings before text (tokensBehind before lexemes) := by
  generalize he : Ending.complete = ending at h
  induction h generalizing before with
  | complete hg => exact .gap hg
  | unrecognized hg hd hnone => cases he
  | unterminated hg hs hk hv => cases he
  | lexeme hg hs hk hv rest ih =>
    refine .token hg (cut_of_verdict hv).2 rfl rfl rfl ?_ ?_
    · simpa [Lexeme.token] using denotes_of_verdict hv
    · simpa [Lexeme.whole] using ih he

namespace Tiles

theorem start_lt_stop (h : Tiles settings before text tokens) :
    ∀ t ∈ tokens, t.span.start < t.span.stop := by
  induction h with
  | gap hg => simp
  | token hg hne hstart hstop hcategory htext rest ih =>
    have := byteLength_pos hne
    refine List.forall_mem_cons.2 ⟨?_, ih⟩
    simp only [hstart, hstop, byteLength_append]
    omega

theorem le_start (h : Tiles settings before text tokens) :
    ∀ t ∈ tokens, byteLength before ≤ t.span.start := by
  induction h with
  | gap hg => simp
  | token hg hne hstart hstop hcategory htext rest ih =>
    refine List.forall_mem_cons.2 ⟨by simp [hstart], fun t ht => ?_⟩
    have := ih t ht
    simp only [byteLength_append] at this
    omega

theorem pairwise (h : Tiles settings before text tokens) :
    tokens.Pairwise fun a b => a.span.stop ≤ b.span.start := by
  induction h with
  | gap hg => exact .nil
  | token hg hne hstart hstop hcategory htext rest ih =>
    refine .cons (fun t ht => ?_) ih
    rw [hstop]
    exact rest.le_start t ht

/-- Every token stands for the slice that its span covers. -/
theorem cut (h : Tiles settings before text tokens) {t : Token} (ht : t ∈ tokens) :
    ∃ earlier slice more, before ++ text = earlier ++ (slice ++ more) ∧
      t.span.start = byteLength earlier ∧ t.span.stop = byteLength (earlier ++ slice) ∧
        t.category = t.kind.category ∧ t.kind.rule.Denotes slice more t.text.toList := by
  induction h with
  | gap hg => cases ht
  | @token before gap slice more t' tokens hg hne hstart hstop hcategory htext rest ih =>
    rcases List.mem_cons.1 ht with rfl | ht
    · exact ⟨before ++ gap, slice, more, by simp, hstart, hstop, hcategory, htext⟩
    · obtain ⟨earlier, slice', more', hcut, hrest⟩ := ih ht
      exact ⟨earlier, slice', more', by simpa using hcut, hrest⟩

/-- A character that no span covers is a separator. -/
theorem separated (h : Tiles settings before text tokens) {earlier later : List Char} {d : Char}
    (hcut : text = earlier ++ d :: later)
    (hout : ∀ t ∈ tokens, t.span.contains (byteLength (before ++ earlier)) = false) :
    settings.isSeparator d = true := by
  induction h generalizing earlier with
  | gap hg =>
    subst hcut
    exact hg d (by simp)
  | @token before gap slice more t tokens hg hne hstart hstop hcategory htext rest ih =>
    obtain ⟨houtside, hout⟩ := List.forall_mem_cons.1 hout
    rcases mem_left_or_right hcut with ⟨run, rfl, -⟩ | ⟨run, rfl, hrest⟩
    · exact hg d (by simp)
    rcases mem_left_or_right hrest with ⟨ahead, rfl, -⟩ | ⟨ahead, rfl, hlater⟩
    · -- a character of the slice is covered
      have := d.utf8Size_pos
      simp only [Span.contains, hstart, hstop, byteLength_append, byteLength_cons,
        Bool.and_eq_false_iff, decide_eq_false_iff_not] at houtside
      omega
    · refine ih hlater fun t ht => ?_
      simpa using hout t ht

end Tiles

/-! ## Runs that succeed -/

/-- What the tokens of a source have to be for nothing of it to be lost. -/
structure Partition (settings : LexerSettings) (source : String) (tokens : List Token) : Prop where
  nonempty : ∀ t ∈ tokens, t.span.start < t.span.stop
  ordered : tokens.Pairwise fun a b => a.span.stop ≤ b.span.start
  inside : ∀ t ∈ tokens, t.span.stop ≤ source.utf8ByteSize
  /-- A span covers a slice of whole characters, which determines the text by the kind. -/
  sliced : ∀ t ∈ tokens, t.category = t.kind.category ∧
    ∃ earlier slice more, source.toList = earlier ++ (slice ++ more) ∧
      t.span.start = byteLength earlier ∧ t.span.sourceText source = some (String.ofList slice) ∧
        t.kind.rule.Denotes slice more t.text.toList
  /-- A character outside the spans is a separator. -/
  separated : ∀ (earlier later : List Char) (d : Char), source.toList = earlier ++ d :: later →
    (∀ t ∈ tokens, t.span.contains (byteLength earlier) = false) → settings.isSeparator d = true
  /-- The source is gap, slice, gap, …, gap. -/
  tiles : Tiles settings [] source.toList tokens

theorem Tiles.partition {source : String} (h : Tiles settings [] source.toList tokens) :
    Partition settings source tokens where
  nonempty := h.start_lt_stop
  ordered := h.pairwise
  inside t ht := by
    obtain ⟨earlier, slice, more, hcut, -, hstop, -, -⟩ := h.cut ht
    rw [List.nil_append] at hcut
    simp only [hstop, ← byteLength_toList, hcut, byteLength_append]
    omega
  sliced t ht := by
    obtain ⟨earlier, slice, more, hcut, hstart, hstop, hcategory, htext⟩ := h.cut ht
    rw [List.nil_append] at hcut
    exact ⟨hcategory, earlier, slice, more, hcut, hstart,
      Span.sourceText_of_cut hcut hstart hstop, htext⟩
  separated _ _ _ hcut hout := h.separated hcut hout
  tiles := h

/-- Tokenizing loses nothing: the tokens of a source partition it, and every text is what its
slice stands for. -/
theorem tokenize_partitions {source : String}
    (h : tokenize source settings = .ok (.ok tokens)) : Partition settings source tokens := by
  obtain ⟨lexemes, hl, rfl⟩ := exists_lexing_of_tokenize h
  exact (tiles_of_lexing hl).partition

/-- The keyword and the fraction are written in another way than their texts. -/
theorem tokenize_partitions_not_half :
    tokenize "NOT .5#" = .ok (.ok [⟨.notWord, .keyword, "not", 0, 0, ⟨0, 3, 0, 0⟩⟩,
      ⟨.double, .value, "0.5", 0, 4, ⟨4, 6, 0, 4⟩⟩,
      ⟨.comment, .invisible, "", 0, 6, ⟨6, 7, 0, 6⟩⟩]) ∧
    Partition {} "NOT .5#" [⟨.notWord, .keyword, "not", 0, 0, ⟨0, 3, 0, 0⟩⟩,
      ⟨.double, .value, "0.5", 0, 4, ⟨4, 6, 0, 4⟩⟩,
      ⟨.comment, .invisible, "", 0, 6, ⟨6, 7, 0, 6⟩⟩] := by
  have h : tokenize "NOT .5#" = .ok (.ok [⟨.notWord, .keyword, "not", 0, 0, ⟨0, 3, 0, 0⟩⟩,
      ⟨.double, .value, "0.5", 0, 4, ⟨4, 6, 0, 4⟩⟩,
      ⟨.comment, .invisible, "", 0, 6, ⟨6, 7, 0, 6⟩⟩]) := by
    decide +kernel
  exact ⟨h, tokenize_partitions h⟩

end ExprLex
