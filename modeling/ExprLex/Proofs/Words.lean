/-
  ExprLex.Proofs.Words — a word is read whole, as a reserved word or as an identifier.

  Where a text begins with a letter, the word is the run of letters, digits and underscores there.
  `ReadsAs` says what it is read as: a reserved word in any case as itself, any other word as an
  identifier. Only reserved words and identifiers answer at a letter, a reserved word answers exactly
  if it is the whole run in some case (`alike_of_reserved`), and it is tried before identifiers; so the
  first kind to answer is the one that the word is read as (`firstHit_word`). A token of such a kind has
  read the run that begins at its place (`readsAs_of_firstHit`).
-/

import ExprLex.Proofs.Advancing
import ExprLex.Proofs.Casing
import ExprLex.Proofs.TrialOrder
import Mathlib.Control.Monad.Basic

namespace ExprLex

variable {settings : LexerSettings} {source : String} {c : Cursor}
  {before gap text slice more rest t w : List Char} {k j : Kind} {d : Char}

/-- The kind and the text of the token that is read for the word `w`. -/
inductive ReadsAs (w : List Char) : Kind → List Char → Prop
  | reserved {k : Kind} (hk : k ∈ Kind.reserved) (h : Alike w k.spelling) : ReadsAs w k k.spelling
  | identifier (h : ∀ k ∈ Kind.reserved, ¬ Alike w k.spelling) : ReadsAs w .identifier w

theorem exists_readsAs (w : List Char) : ∃ k t, ReadsAs w k t := by
  by_cases h : ∃ k ∈ Kind.reserved, Alike w k.spelling
  · obtain ⟨k, hk, halike⟩ := h
    exact ⟨k, _, .reserved hk halike⟩
  · exact ⟨_, w, .identifier fun k hk halike => h ⟨k, hk, halike⟩⟩

/-! ## Kinds at a letter -/

theorem isWordPart_of_isAlpha (hd : d.isAlpha = true) : isWordPart d = true := by
  simp [isWordPart, Char.isAlphanum, hd]

theorem identifier_or_reserved_of_isHit (hd : d.isAlpha = true)
    (h : (k.verdict settings (d :: rest)).isHit = true) : k = .identifier ∨ k ∈ Kind.reserved := by
  have check : ∀ k ∈ Kind.all, Initial.letter ∈ k.rule.initials →
      k = .identifier ∨ k ∈ Kind.reserved := by decide +kernel
  have hmem := mem_initials_of_isHit h
  rw [show Initial.of d = .letter by simp [Initial.of, hd]] at hmem
  exact check k k.mem_all hmem

theorem identifier_verdict (hd : d.isAlpha = true) :
    Kind.identifier.verdict settings (d :: rest) =
      .matched ((d :: rest).takeWhile isWordPart) ((d :: rest).takeWhile isWordPart)
        ((d :: rest).dropWhile isWordPart) := by
  have hpart := isWordPart_of_isAlpha hd
  rw [Kind.verdict_of_ne (List.cons_ne_nil d rest)]
  show Verdict.ofIdentifier (d :: rest) = _
  simp only [Verdict.ofIdentifier, hd, if_true, List.takeWhile_cons, List.dropWhile_cons, hpart]

theorem reserved_verdict (hk : k ∈ Kind.reserved) (h : Alike (text.takeWhile isWordPart) k.spelling) :
    k.verdict settings text =
      .matched k.spelling (text.takeWhile isWordPart) (text.dropWhile isWordPart) := by
  obtain ⟨word, hr, -⟩ := Kind.rule_of_reserved hk
  rw [Kind.spelling_of_rule hr] at h ⊢
  refine verdict_eq_matched_iff.2 ⟨List.takeWhile_append_dropWhile.symm, ?_, ?_⟩
  · rw [hr]
    exact ⟨h, rfl⟩
  · rw [hr]
    exact stopsAt_iff_bars.1 (stopsAt_dropWhile isWordPart text)

/-- A reserved word answers only where it is the whole word in some case. -/
theorem alike_of_reserved (hd : d.isAlpha = true) (hk : k ∈ Kind.reserved)
    (h : (k.verdict settings (d :: rest)).isHit = true) :
    Alike ((d :: rest).takeWhile isWordPart) k.spelling := by
  obtain ⟨word, hr, -⟩ := Kind.rule_of_reserved hk
  cases overlap_of_reserved hk h with
  | word _ hword hident =>
    rw [identifier_verdict hd] at hident
    obtain ⟨-, hslice, -⟩ := Verdict.matched.inj hident
    have hshape := (shapes_of_verdict hword).2
    rw [hr] at hshape
    rw [hslice, Kind.spelling_of_rule hr]
    exact hshape.1

theorem verdict_word (settings : LexerSettings) (hd : d.isAlpha = true)
    (h : ReadsAs ((d :: rest).takeWhile isWordPart) k t) : k.verdict settings (d :: rest) =
      .matched t ((d :: rest).takeWhile isWordPart) ((d :: rest).dropWhile isWordPart) := by
  cases h with
  | reserved hk halike => exact reserved_verdict hk halike
  | identifier _ => exact identifier_verdict hd

theorem firstHit_word (settings : LexerSettings) (hd : d.isAlpha = true)
    (h : ReadsAs ((d :: rest).takeWhile isWordPart) k t) :
    firstHit settings Kind.trialOrder (d :: rest) = some k := by
  have hhit := Verdict.isHit_of_matched (verdict_word settings hd h)
  obtain ⟨j, hj⟩ := firstHit_isSome ranks_trialOrder hhit
  have hjhit := isHit_of_firstHit hj
  cases h with
  | reserved hk halike =>
    rcases identifier_or_reserved_of_isHit hd hjhit with rfl | hjmem
    · -- the reserved word is tried before identifiers
      exact absurd hhit (not_isHit_of_idxOf_lt hj (ranks_trialOrder.words k hk))
    · have distinct : ∀ k ∈ Kind.reserved, ∀ j ∈ Kind.reserved,
          k.spelling.map Char.toLower = j.spelling.map Char.toLower → j = k := by decide +kernel
      have hsame : k.spelling.map Char.toLower = j.spelling.map Char.toLower :=
        halike.symm.trans (alike_of_reserved hd hjmem hjhit)
      rw [hj, distinct k hk j hjmem hsame]
  | identifier hnone =>
    rcases identifier_or_reserved_of_isHit hd hjhit with rfl | hjmem
    · exact hj
    · exact absurd (alike_of_reserved hd hjmem hjhit) (hnone j hjmem)

/-! ## Tokens of words -/

/-- A slice that was read for a reserved word or an identifier is a whole word. -/
theorem identifier_verdict_of_matched (hk : k = .identifier ∨ k ∈ Kind.reserved)
    (hv : k.verdict settings text = .matched t slice more) :
    Kind.identifier.verdict settings text = .matched slice slice more := by
  rcases hk with rfl | hk
  · obtain ⟨hslice, -⟩ := (shapes_of_verdict hv).2
    rwa [hslice] at hv
  · cases overlap_of_reserved hk (Verdict.isHit_of_matched hv) with
    | word _ hword hident =>
      rw [hv] at hword
      cases hword
      exact hident

theorem readsAs_of_firstHit (hk : k = .identifier ∨ k ∈ Kind.reserved)
    (hfirst : firstHit settings Kind.trialOrder (slice ++ more) = some k)
    (hv : k.verdict settings (slice ++ more) = .matched t slice more) :
    (∃ d ∈ slice.head?, d.isAlpha = true) ∧ slice = (slice ++ more).takeWhile isWordPart ∧
      ReadsAs slice k t := by
  have hident := identifier_verdict_of_matched hk hv
  obtain ⟨-, d, word, rfl, hd, -⟩ := (shapes_of_verdict hident).2
  rw [List.cons_append] at hfirst hv hident ⊢
  rw [identifier_verdict hd] at hident
  obtain ⟨-, hrun, -⟩ := Verdict.matched.inj hident
  refine ⟨⟨d, rfl, hd⟩, hrun.symm, ?_⟩
  obtain ⟨k', t', hreads⟩ := exists_readsAs ((d :: (word ++ more)).takeWhile isWordPart)
  have hfirst' := firstHit_word settings hd hreads
  have hv' := verdict_word settings hd hreads
  rw [hfirst] at hfirst'
  cases hfirst'
  rw [hv] at hv'
  obtain ⟨rfl, -, -⟩ := Verdict.matched.inj hv'
  rwa [hrun] at hreads

/-- The token is that of a whole word of the source, which stands behind a gap and begins with a
letter. -/
inductive StandsForWord (settings : LexerSettings) (source : String) : Token → Prop
  | word {before gap w more t : List Char} {k : Kind}
    (hcut : source.toList = before ++ (gap ++ (w ++ more)))
    (hg : ∀ d ∈ gap, settings.isSeparator d = true)
    (hs : StopsAt settings.isSeparator (w ++ more)) (hletter : ∃ d ∈ w.head?, d.isAlpha = true)
    (hrun : w = (w ++ more).takeWhile isWordPart) (hreads : ReadsAs w k t) :
    StandsForWord settings source (Lexeme.token before ⟨gap, w, k, t⟩)

theorem standsForWord_of_lexing {lexemes : List Lexeme} {ending : Ending} {token : Token}
    (h : Lexing settings source.toList lexemes ending) (ht : token ∈ tokensBehind [] lexemes)
    (hk : token.kind = .identifier ∨ token.kind ∈ Kind.reserved) :
    StandsForWord settings source token := by
  obtain ⟨earlier, left, l, later, hcut, rfl, hl⟩ := exists_lexing_at h ht
  cases hl with
  | lexeme hg hs hfirst hv _ =>
    obtain ⟨hletter, hrun, hreads⟩ := readsAs_of_firstHit hk hfirst hv
    exact .word hcut hg hs hletter hrun hreads

theorem unreserved_of_standsForWord {token : Token} (h : StandsForWord settings source token)
    (hk : token.kind = .identifier) : ∀ k ∈ Kind.reserved, ¬ Alike token.text.toList k.spelling := by
  cases h with
  | @word before gap w more t k hcut hg hs hletter hrun hreads =>
    obtain rfl : k = .identifier := hk
    cases hreads with
    | reserved hmem halike => exact absurd hmem (by decide)
    | identifier hnone =>
      intro k hmem
      rw [Lexeme.token, String.toList_ofList]
      exact hnone k hmem

/-- Where a letter comes next, the next token is the whole word that begins there, as a reserved word
if it is one in some case and as an identifier if it is none. And every identifier and every reserved
word of a run is such a word, so no identifier is spelled like a reserved word. -/
theorem words_split (hshort : c.source.length < counterBound) :
    (∀ before gap d rest, c.Faces before gap (d :: rest) → d.isAlpha = true →
      (∃ k t, ReadsAs ((d :: rest).takeWhile isWordPart) k t) ∧
      ∀ k t, ReadsAs ((d :: rest).takeWhile isWordPart) k t →
        c.Yields before ⟨gap, (d :: rest).takeWhile isWordPart, k, t⟩
          ((d :: rest).dropWhile isWordPart)) ∧
    ∃ run, runSource c.source c.settings = .ok run ∧ ∀ t ∈ run.tokens,
      t.kind = .identifier ∨ t.kind ∈ Kind.reserved →
        StandsForWord c.settings c.source t ∧
          (t.kind = .identifier → ∀ k ∈ Kind.reserved, ¬ Alike t.text.toList k.spelling) := by
  constructor
  · intro before gap d rest h hd
    refine ⟨exists_readsAs _, fun k t hreads => ?_⟩
    have hfirst := firstHit_word c.settings hd hreads
    have hv := verdict_word c.settings hd hreads
    have hcut : (d :: rest).takeWhile isWordPart ++ (d :: rest).dropWhile isWordPart = d :: rest :=
      List.takeWhile_append_dropWhile
    generalize (d :: rest).takeWhile isWordPart = w at hv hcut ⊢
    generalize (d :: rest).dropWhile isWordPart = more at hv hcut ⊢
    rw [← hcut] at h hfirst hv
    exact h.yields hshort hfirst hv
  · obtain ⟨lexemes, ending, hl⟩ := exists_lexing c.settings c.source.toList
    obtain ⟨events, hrun⟩ := runSource_settles hl
    refine ⟨_, hrun.ok_of_short hshort, fun t ht hk => ?_⟩
    have hword := standsForWord_of_lexing hl ht hk
    exact ⟨hword, unreserved_of_standsForWord hword⟩

/-- A letter of the reserved word separates tokens elsewhere; an underscore makes another word longer
than the reserved one that it begins with. -/
theorem words_split_true : "TrUe nOt_".length < counterBound ∧
    (Cursor.ofSource "TrUe nOt_" ⟨[' ', 'r']⟩).Yields []
      ⟨[], ['T', 'r', 'U', 'e'], .trueWord, ['t', 'r', 'u', 'e']⟩ [' ', 'n', 'O', 't', '_'] ∧
    StandsForWord ⟨[' ', 'r']⟩ "TrUe nOt_" ⟨.identifier, .value, "nOt_", 0, 5, ⟨5, 9, 0, 5⟩⟩ ∧
    ¬ Alike ['n', 'O', 't', '_'] Kind.notWord.spelling := by
  have hshort : "TrUe nOt_".length < counterBound := by decide
  have hfaces : (Cursor.ofSource "TrUe nOt_" ⟨[' ', 'r']⟩).Faces [] []
      ['T', 'r', 'U', 'e', ' ', 'n', 'O', 't', '_'] :=
    Cursor.faces_ofSource (by decide) (stopsAt_cons.2 (by decide))
  have hspelling : Kind.trueWord.spelling = ['t', 'r', 'u', 'e'] := by decide +kernel
  have hreads : ReadsAs ['T', 'r', 'U', 'e'] .trueWord ['t', 'r', 'u', 'e'] := by
    rw [← hspelling]
    refine .reserved (by decide) ?_
    rw [hspelling]
    show ['T', 'r', 'U', 'e'].map Char.toLower = _
    decide
  obtain ⟨hnext, run, hrun, hwords⟩ :=
    words_split (c := Cursor.ofSource "TrUe nOt_" ⟨[' ', 'r']⟩) hshort
  have hends : (runSource "TrUe nOt_" ⟨[' ', 'r']⟩).map (fun run => run.tokens) =
      .ok [⟨.trueWord, .literal, "true", 0, 0, ⟨0, 4, 0, 0⟩⟩,
        ⟨.identifier, .value, "nOt_", 0, 5, ⟨5, 9, 0, 5⟩⟩] := by
    decide +kernel
  rw [show runSource "TrUe nOt_" ⟨[' ', 'r']⟩ = .ok run from hrun] at hends
  have htokens : run.tokens = _ := Except.ok.inj hends
  obtain ⟨hword, hunreserved⟩ := hwords ⟨.identifier, .value, "nOt_", 0, 5, ⟨5, 9, 0, 5⟩⟩
    (by rw [htokens]; simp) (.inl rfl)
  refine ⟨hshort, ?_, hword, hunreserved rfl .notWord (by decide)⟩
  exact (hnext [] [] 'T' _ hfaces (by decide)).2 .trueWord _ hreads

end ExprLex
