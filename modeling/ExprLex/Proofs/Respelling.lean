/-
  ExprLex.Proofs.Respelling — layout and spelling do not matter.

  `Kind.Writes` says which slices write a token whatever stands behind them, and both the slice that
  was read and the canonical form do (`writes_of_firstHit`, `writes_canonical`). Where the
  whitespace set leaves the graphic characters alone, such a slice is read back as the same token in
  front of any gap (`verdict_of_writes`, `firstHit_of_writes`). So every text that writes the tokens
  of a source one behind the other with gaps between them falls into lexemes of the same kinds and
  texts (`exists_lexing_of_respells`).
-/

import ExprLex.Proofs.Escaping
import ExprLex.Proofs.TrialOrder
import Mathlib.Control.Monad.Basic

namespace ExprLex

variable {settings : LexerSettings} {source : String} {k : Kind} {slice t more text : List Char}

/-! ## Graphic characters -/

/-- The printable characters of one byte, but for the space. -/
def isGraphic (c : Char) : Bool := 0x21 ≤ c.toNat && c.toNat ≤ 0x7E

theorem isGraphic_iff {c : Char} : isGraphic c = true ↔ 0x21 ≤ c.toNat ∧ c.toNat ≤ 0x7E := by
  simp [isGraphic]

theorem isGraphic_of_isAlpha {c : Char} (h : c.isAlpha = true) : isGraphic c = true := by
  rw [isAlpha_iff] at h
  rw [isGraphic_iff]
  omega

theorem isGraphic_of_isDigit {c : Char} (h : c.isDigit = true) : isGraphic c = true := by
  rw [Char.isDigit_iff_toNat] at h
  simp at h
  rw [isGraphic_iff]
  omega

theorem isGraphic_of_isWordPart {c : Char} (h : isWordPart c = true) : isGraphic c = true := by
  simp only [isWordPart, Char.isAlphanum, Bool.or_eq_true, decide_eq_true_eq] at h
  rcases h with (h | h) | rfl
  · exact isGraphic_of_isAlpha h
  · exact isGraphic_of_isDigit h
  · decide

theorem isGraphic_of_contains {barred : CharClass} {c : Char} (h : barred.contains c = true) :
    isGraphic c = true := by
  cases barred with
  | equalsSign =>
    obtain rfl : c = '=' := by simpa [CharClass.contains] using h
    decide
  | greaterSign =>
    obtain rfl : c = '>' := by simpa [CharClass.contains] using h
    decide
  | digit => exact isGraphic_of_isDigit h
  | wordPart => exact isGraphic_of_isWordPart h

theorem isGraphic_of_toLower {c d : Char} (h : c.toLower = d) (hd : isGraphic d = true) :
    isGraphic c = true := by
  rcases toLower_cases c with he | ⟨hc, -⟩
  · rwa [← he, h]
  · exact isGraphic_of_isAlpha hc

/-! ## What may stand behind a token -/

/-- Nothing, or a character between tokens; behind a comment only a line break. -/
def Rests (settings : LexerSettings) (k : Kind) (more : List Char) : Prop :=
  ∀ d ∈ more.head?, settings.isSeparator d = true ∧ (k = .comment → d = '\n')

variable (hspace : ∀ d ∈ settings.whitespace, isGraphic d = false)

include hspace in
theorem isSeparator_of_isGraphic {c : Char} (h : isGraphic c = true) :
    settings.isSeparator c = false := by
  have hmem : c ∉ settings.whitespace := by
    intro hmem
    rw [hspace c hmem] at h
    cases h
  have hbreak : c ≠ '\n' := by
    intro he
    subst he
    cases h
  simp [LexerSettings.isSeparator, LexerSettings.isWhitespace, hmem, hbreak]

include hspace in
theorem Rests.stopsAt (h : Rests settings k more) {p : Char → Bool}
    (hp : ∀ d, p d = true → isGraphic d = true) : StopsAt p more := by
  intro d hd
  cases hpd : p d with
  | false => rfl
  | true =>
    have hsep := (h d hd).1
    rw [isSeparator_of_isGraphic hspace (hp d hpd)] at hsep
    cases hsep

/-! ## Slices that write a token -/

/-- The slice writes a token of the kind with the text `t`, whatever may stand behind it: it has
the kind's shape, and an identifier is none of the reserved words. -/
structure Kind.Writes (k : Kind) (slice t : List Char) : Prop where
  shapes : k.rule.Shapes slice t
  unreserved : k = .identifier → ∀ w ∈ Kind.reserved, ∀ word, w.rule = .spelling word (some .wordPart) →
    slice.map Char.toLower ≠ word.toList.map Char.toLower

/-- What was read for a token writes it. -/
theorem writes_of_firstHit (hk : firstHit settings Kind.trialOrder (slice ++ more) = some k)
    (hv : k.verdict settings (slice ++ more) = .matched t slice more) : k.Writes slice t := by
  refine ⟨(shapes_of_verdict hv).2, fun hident w hw word hword hspelled => ?_⟩
  subst hident
  have hne := ne_nil_of_firstHit hk
  rw [Kind.verdict_of_ne hne] at hv
  obtain ⟨-, -, -, hstop⟩ := Verdict.ofIdentifier_eq_matched_iff.1 hv
  -- the word would have been tried first
  have hhit : w.verdict settings (slice ++ more) = .matched word.toList slice more := by
    rw [Kind.verdict_of_ne hne, hword]
    exact Verdict.ofSpelling_eq_matched_iff.2 ⟨rfl, hspelled, rfl, stopsAt_iff_bars.1 hstop⟩
  exact not_isHit_of_idxOf_lt hk (ranks_trialOrder.words w hw) (by rw [hhit]; rfl)

/-- The canonical form of a token of the rule. -/
def Rule.canonical (rule : Rule) (t : List Char) : List Char :=
  match rule with
  | spelling word _ => word.toList
  | identifier | long | double => t
  | string => '"' :: (escaped t ++ ['"'])
  | comment => '#' :: t

theorem shapes_canonical {rule : Rule} (h : rule.Shapes slice t) :
    rule.Shapes (rule.canonical t) t := by
  cases rule with
  | spelling word notBefore => exact ⟨rfl, h.2⟩
  | identifier =>
    obtain ⟨rfl, hshape⟩ := h
    exact ⟨rfl, hshape⟩
  | long =>
    obtain ⟨rfl, hdigits⟩ := h
    exact ⟨rfl, hdigits⟩
  | double =>
    obtain ⟨whole, part, -, rfl, hwhole, hpart⟩ := h
    cases whole with
    | nil => exact ⟨['0'], part, rfl, rfl, by simp, hpart⟩
    | cons d whole => exact ⟨d :: whole, part, rfl, rfl, hwhole, hpart⟩
  | string =>
    obtain ⟨read, -, hread⟩ := h
    exact ⟨_, rfl, isBody_escaped hread⟩
  | comment => exact ⟨rfl, h.2⟩

theorem writes_canonical (h : k.Writes slice t) : k.Writes (k.rule.canonical t) t := by
  refine ⟨shapes_canonical h.shapes, fun hident => ?_⟩
  subst hident
  have hcanonical : Kind.identifier.rule.canonical t = slice := h.shapes.1
  rw [hcanonical]
  exact h.unreserved rfl

theorem graphic_of_spelling {word : String} {notBefore : Option CharClass} {e : Char}
    {rest : List Char} (hr : k.rule = .spelling word notBefore) (hw : word.toList = e :: rest) :
    isGraphic e.toLower = true := by
  have check : ∀ k ∈ Kind.all,
      (k.representation?.getD "").toList.head?.all (fun e => isGraphic e.toLower) = true := by
    decide +kernel
  simpa [Kind.representation?, hr, Rule.representation?, hw] using check k k.mem_all

/-- A slice of a kind's shape begins with a graphic character. -/
theorem graphic_of_shapes (h : k.rule.Shapes slice t) :
    ∃ d rest, slice = d :: rest ∧ isGraphic d = true := by
  cases hr : k.rule with
  | spelling word notBefore =>
    rw [hr] at h
    obtain ⟨e, word', hcons⟩ := List.exists_cons_of_ne_nil (ne_nil_of_spelling hr)
    have hword := h.1
    rw [hcons, List.map_cons] at hword
    obtain ⟨d, rest, rfl, hd, -⟩ := List.map_eq_cons_iff.1 hword
    exact ⟨d, rest, rfl, isGraphic_of_toLower hd (graphic_of_spelling hr hcons)⟩
  | identifier =>
    rw [hr] at h
    obtain ⟨-, d, word, rfl, hd, -⟩ := h
    exact ⟨d, word, rfl, isGraphic_of_isAlpha hd⟩
  | long =>
    rw [hr] at h
    obtain ⟨-, hne, hdigit⟩ := h
    obtain ⟨d, rest, rfl⟩ := List.exists_cons_of_ne_nil hne
    exact ⟨d, rest, rfl, isGraphic_of_isDigit (hdigit d List.mem_cons_self)⟩
  | double =>
    rw [hr] at h
    obtain ⟨whole, part, rfl, -, hwhole, -⟩ := h
    cases whole with
    | nil => exact ⟨'.', part, rfl, by decide⟩
    | cons d whole =>
      exact ⟨d, whole ++ '.' :: part, rfl, isGraphic_of_isDigit (hwhole d List.mem_cons_self)⟩
  | string =>
    rw [hr] at h
    obtain ⟨read, rfl, -⟩ := h
    exact ⟨'"', read, rfl, by decide⟩
  | comment =>
    rw [hr] at h
    obtain ⟨rfl, -⟩ := h
    exact ⟨'#', t, rfl, by decide⟩

/-! ## Reading back -/

section
variable (h : k.Writes slice t) (hr : Rests settings k more)
include hspace h hr

theorem verdict_of_writes : k.verdict settings (slice ++ more) = .matched t slice more := by
  refine verdict_eq_matched_iff.2 ⟨rfl, h.shapes, ?_⟩
  have hdigit := hr.stopsAt hspace fun _ => isGraphic_of_isDigit
  have hends : endBefore settings false more = .good := by
    cases more with
    | nil => rfl
    | cons d more => simp [endBefore, (hr d rfl).1]
  cases hrule : k.rule with
  | spelling word notBefore =>
    cases notBefore with
    | none => rfl
    | some barred => exact stopsAt_iff_bars.1 (hr.stopsAt hspace fun _ => isGraphic_of_contains)
  | identifier => exact hr.stopsAt hspace fun _ => isGraphic_of_isWordPart
  | long => exact ⟨hdigit, hends⟩
  | double => exact ⟨hdigit, hends⟩
  | string => trivial
  | comment =>
    have hk : k = .comment := by
      cases k <;> first | rfl | cases hrule
    intro d hd
    simpa using (hr d hd).2 hk

omit h hr in
/-- What may stand behind a sign for assignment does not make it an arrow. -/
theorem not_arrow_of_assign {t' slice' more' : List Char} (h : Kind.assign.rule.Shapes slice t)
    (hr : Rests settings .assign more)
    (ha : Kind.arrow.verdict settings (slice ++ more) = .matched t' slice' more') : False := by
  obtain ⟨d, rest, rfl, -, hrest⟩ := List.map_eq_cons_iff.1 h.1
  obtain rfl := List.map_eq_nil_iff.1 hrest
  rw [List.singleton_append, Kind.verdict_of_ne (List.cons_ne_nil _ _)] at ha
  obtain ⟨hcut, hword, -, -⟩ := Verdict.ofSpelling_eq_matched_iff.1 ha
  obtain ⟨d', rest', rfl, -, hrest'⟩ := List.map_eq_cons_iff.1 hword
  obtain ⟨e, rest'', rfl, he, -⟩ := List.map_eq_cons_iff.1 hrest'
  obtain ⟨-, rfl⟩ := List.cons.inj hcut
  have hsep := (hr e rfl).1
  rw [isSeparator_of_isGraphic hspace (isGraphic_of_toLower he (by decide))] at hsep
  cases hsep

/-- The token is read in trial order too. -/
theorem firstHit_of_writes : firstHit settings Kind.trialOrder (slice ++ more) = some k := by
  have hv := verdict_of_writes hspace h hr
  have hhit := Verdict.isHit_of_matched hv
  obtain ⟨j, hj⟩ := firstHit_isSome ranks_trialOrder hhit
  have hsep : settings.isSeparator '.' = false := isSeparator_of_isGraphic hspace (by decide)
  rcases overlap_of_hits hsep hhit (isHit_of_firstHit hj) with rfl | hkj | hjk
  · exact hj
  · obtain ⟨skipped, hopen, -⟩ := hkj.unterminated_of_firstHit ranks_trialOrder hj
    rw [hv] at hopen
    cases hopen
  · cases hjk with
    | word hw hword hident =>
      rw [hv] at hident
      cases hident
      obtain ⟨word, hrule, -⟩ := Kind.rule_of_reserved hw
      rw [Kind.verdict_of_ne (ne_nil_of_isHit hhit), hrule] at hword
      exact absurd (Verdict.ofSpelling_eq_matched_iff.1 hword).2.1 (h.unreserved rfl _ hw word hrule)
    | arrow harrow _ => exact (not_arrow_of_assign hspace h.shapes hr harrow).elim
    | number _ hopen =>
      rw [hv] at hopen
      cases hopen

end

/-! ## Writing a source anew -/

namespace Token

/-- What a token is, wherever it stands. -/
def content (t : Token) : Kind × Category × String := (t.kind, t.category, t.text)

theorem content_token (before : List Char) (l : Lexeme) :
    (l.token before).content = (l.kind, l.kind.category, String.ofList l.text) := rfl

/-- The slice of the source that the token was read from, or its canonical form. -/
def IsSpelling (source : String) (t : Token) (slice : List Char) : Prop :=
  t.span.sourceText source = some (String.ofList slice) ∨
    slice = t.kind.rule.canonical t.text.toList

end Token

/-- A gap behind a token of the kind: separators, and behind a comment a line break first. -/
structure IsGap (settings : LexerSettings) (previous : Option Kind) (gap : List Char) : Prop where
  separators : ∀ d ∈ gap, settings.isSeparator d = true
  ends_comment : previous = some .comment → ∀ d ∈ gap.head?, d = '\n'

/-- The text writes the tokens of a source one behind the other, with gaps that are not empty
between them. -/
inductive Respells (settings : LexerSettings) (source : String) :
    Option Kind → List Token → List Char → Prop
  | done {previous : Option Kind} {gap : List Char} (hg : IsGap settings previous gap) :
    Respells settings source previous [] gap
  | token {previous : Option Kind} {gap slice more : List Char} {t : Token} {tokens : List Token}
    (hg : IsGap settings previous gap) (hne : previous ≠ none → gap ≠ [])
    (hs : t.IsSpelling source slice) (rest : Respells settings source (some t.kind) tokens more) :
    Respells settings source previous (t :: tokens) (gap ++ (slice ++ more))

theorem rests_of_isGap {gap : List Char} (h : IsGap settings (some k) gap) (hne : gap ≠ [])
    (more : List Char) : Rests settings k (gap ++ more) := by
  obtain ⟨e, gap, rfl⟩ := List.exists_cons_of_ne_nil hne
  intro d hd
  cases hd
  exact ⟨h.separators _ List.mem_cons_self, fun hk => h.ends_comment (congrArg some hk) _ rfl⟩

theorem rests_of_respells {tokens : List Token} (h : Respells settings source (some k) tokens more) :
    Rests settings k more := by
  cases h with
  | done hg =>
    by_cases hne : more = []
    · subst hne
      exact fun d hd => by cases hd
    · simpa using rests_of_isGap hg hne []
  | token hg hne hs rest => exact rests_of_isGap hg (hne (Option.some_ne_none k)) _

/-- The token is of its kind's category and written by the slice that it was read from. -/
def IsWritten (source : String) (t : Token) : Prop :=
  t.category = t.kind.category ∧ ∃ slice, t.span.sourceText source = some (String.ofList slice) ∧
    t.kind.Writes slice t.text.toList

theorem writes_of_isSpelling {t : Token} (ht : IsWritten source t) (hs : t.IsSpelling source slice) :
    t.kind.Writes slice t.text.toList := by
  obtain ⟨-, slice', hslice', hw⟩ := ht
  rcases hs with hs | rfl
  · rw [hslice'] at hs
    rwa [← String.ofList_injective (Option.some.inj hs)]
  · exact writes_canonical hw

include hspace in
/-- A text that writes the tokens of a source falls into lexemes with the same tokens. -/
theorem exists_lexing_of_respells {previous : Option Kind} {tokens : List Token} {text : List Char}
    (h : Respells settings source previous tokens text) (hw : ∀ t ∈ tokens, IsWritten source t) :
    ∃ lexemes, Lexing settings text lexemes .complete ∧
      ∀ before, (tokensBehind before lexemes).map Token.content = tokens.map Token.content := by
  induction h with
  | done hg => exact ⟨[], .complete hg.separators, fun _ => rfl⟩
  | @token previous gap slice more t tokens hg hne hs rest ih =>
    obtain ⟨ht, hw⟩ := List.forall_mem_cons.1 hw
    have hwrites := writes_of_isSpelling ht hs
    have hrests := rests_of_respells rest
    obtain ⟨lexemes, hl, hsame⟩ := ih hw
    obtain ⟨d, slice', rfl, hd⟩ := graphic_of_shapes hwrites.shapes
    refine ⟨⟨gap, d :: slice', t.kind, t.text.toList⟩ :: lexemes,
      .lexeme hg.separators (stopsAt_cons.2 (isSeparator_of_isGraphic hspace hd))
        (firstHit_of_writes hspace hwrites hrests) (verdict_of_writes hspace hwrites hrests) hl,
      fun before => ?_⟩
    have hcontent : t.content = (t.kind, t.kind.category, t.text) := by
      rw [← ht.1]
      rfl
    rw [tokensBehind, List.map_cons, List.map_cons, hsame, hcontent, Token.content_token,
      String.ofList_toList]

theorem isWritten_of_lexing {lexemes : List Lexeme} {ending : Ending}
    (h : Lexing settings source.toList lexemes ending) :
    ∀ t ∈ tokensBehind [] lexemes, IsWritten source t := by
  intro t ht
  obtain ⟨earlier, l, more, rfl, hcut, hk, hv⟩ := exists_lexeme_of_mem h ht
  refine ⟨rfl, l.slice, Span.sourceText_of_cut hcut rfl rfl, ?_⟩
  simpa [Lexeme.token] using writes_of_firstHit hk hv

/-- Neither the layout of a source nor the spelling of its tokens matters: written anew with other
gaps, and each token as it was or in its canonical form, it has the same tokens. -/
theorem respelling_keeps_tokens {tokens : List Token} {text : List Char}
    (hspace : ∀ d ∈ settings.whitespace, isGraphic d = false)
    (htokens : tokenize source settings = .ok (.ok tokens))
    (h : Respells settings source none tokens text) (hshort : text.length < counterBound) :
    ∃ tokens', tokenize (String.ofList text) settings = .ok (.ok tokens') ∧
      tokens'.map Token.content = tokens.map Token.content := by
  obtain ⟨lexemes, hl, rfl⟩ := exists_lexing_of_tokenize htokens
  obtain ⟨lexemes', hl', hsame⟩ := exists_lexing_of_respells hspace h (isWritten_of_lexing hl)
  rw [← String.toList_ofList (l := text)] at hl'
  exact ⟨_, (tokenize_settles hl').ok_of_short (by simpa using hshort), hsame []⟩

/-- A keyword and a fraction in canonical form, and a line break behind the comment. -/
theorem respelling_keeps_tokens_not_half :
    (∀ d ∈ LexerSettings.whitespace {}, isGraphic d = false) ∧
    tokenize "NOT .5#" = .ok (.ok [⟨.notWord, .keyword, "not", 0, 0, ⟨0, 3, 0, 0⟩⟩,
      ⟨.double, .value, "0.5", 0, 4, ⟨4, 6, 0, 4⟩⟩,
      ⟨.comment, .invisible, "", 0, 6, ⟨6, 7, 0, 6⟩⟩]) ∧
    ∃ tokens', tokenize (String.ofList "not\t0.5 #\n".toList) = .ok (.ok tokens') ∧
      tokens'.map Token.content = [(.notWord, .keyword, "not"), (.double, .value, "0.5"),
        (.comment, .invisible, "")] := by
  have hspace : ∀ d ∈ LexerSettings.whitespace {}, isGraphic d = false := by simp [isGraphic]
  have htokens : tokenize "NOT .5#" = .ok (.ok [⟨.notWord, .keyword, "not", 0, 0, ⟨0, 3, 0, 0⟩⟩,
      ⟨.double, .value, "0.5", 0, 4, ⟨4, 6, 0, 4⟩⟩,
      ⟨.comment, .invisible, "", 0, 6, ⟨6, 7, 0, 6⟩⟩]) := by
    decide +kernel
  have hrespells : Respells {} "NOT .5#" none [⟨.notWord, .keyword, "not", 0, 0, ⟨0, 3, 0, 0⟩⟩,
      ⟨.double, .value, "0.5", 0, 4, ⟨4, 6, 0, 4⟩⟩, ⟨.comment, .invisible, "", 0, 6, ⟨6, 7, 0, 6⟩⟩]
      ([] ++ ("not".toList ++ (['\t'] ++ ("0.5".toList ++ ([' '] ++ (['#'] ++ ['\n'])))))) := by
    refine .token ⟨by simp, by simp⟩ (by simp) (.inr rfl) ?_
    refine .token ⟨by simp [LexerSettings.isSeparator, LexerSettings.isWhitespace], by simp⟩ (by simp) (.inr rfl) ?_
    refine .token ⟨by simp [LexerSettings.isSeparator, LexerSettings.isWhitespace], by simp⟩ (by simp) (.inr rfl) ?_
    exact .done ⟨by simp [LexerSettings.isSeparator, LexerSettings.isWhitespace], by simp⟩
  have hshort : "not\t0.5 #\n".toList.length < counterBound := by decide
  exact ⟨hspace, htokens, respelling_keeps_tokens hspace htokens hrespells hshort⟩

end ExprLex
