/-
  ExprLex.Proofs.Borders — what a number is, and what may stand behind it.

  A number may end at the end of the source, at a separator and where a token begins that is no number.
  What begins such a token is told from one or two characters, but for a literal, which must be closed
  (`OpensPlain`); the lookahead of the numbers finds exactly that (`followEnd_eq_good_iff`), so digits
  end well exactly at a border (`endBefore_eq_good_iff`).

  Of the two kinds of numbers, the one that `Numeral.Opens` names is the only one to answer, unless a
  literal behind the digits is never closed, and then both fail alike (`Numeral.Opens.eq_or_open`).
  A token that was found behind a number is there to be read: what the lookahead has tried are the kinds
  that are no numbers, and where one of these answers no number does.
-/

import ExprLex.Proofs.Signs
import ExprLex.Proofs.Spacing

namespace ExprLex

variable {settings : LexerSettings} {source : String} {c : Cursor}
  {before gap text slice more rest body t : List Char} {k j : Kind} {d : Char}

/-! ## What the lookahead finds -/

/-- The characters, letters apart, that begin a token whatever follows them. -/
def openers : List Char :=
  ['^', '*', '/', '%', '+', '-', '>', '<', '=', '&', '(', ')', ',', '[', ']', '#']

/-- A text that begins with a token that is no number. -/
inductive OpensPlain : List Char → Prop
  | letter {d : Char} {more : List Char} (hd : d.isAlpha = true) : OpensPlain (d :: more)
  | opener {d : Char} {more : List Char} (hd : d ∈ openers) : OpensPlain (d :: more)
  | unequal {more : List Char} : OpensPlain ('!' :: '=' :: more)
  | optional {e : Char} {more : List Char} (he : e ∈ ['?', '(', '[']) : OpensPlain ('?' :: e :: more)
  | optionalDot {more : List Char} (hs : StopsAt Char.isDigit more) : OpensPlain ('?' :: '.' :: more)
  | dot {more : List Char} (hs : StopsAt Char.isDigit more) : OpensPlain ('.' :: more)
  | literal {body : List Char} (hclosed : ¬ Unclosed body) : OpensPlain ('"' :: body)

theorem isAlpha_of_letter (h : Initial.of d = .letter) : d.isAlpha = true := by
  unfold Initial.of at h
  split at h
  · assumption
  all_goals split_ifs at h

theorem opensPlain_of_sign (hk : k ∈ Kind.signs)
    (hv : k.verdict settings text = .matched k.spelling k.spelling more) : OpensPlain text := by
  have check : ∀ k ∈ Kind.signs, openers.any (fun d => [d] <+: k.spelling) = true ∨
      ['!', '='] <+: k.spelling ∨
        ['?', '(', '['].any (fun e => ['?', e] <+: k.spelling) = true ∨
          k = .optionalDot ∨ k = .dot ∧ k.spelling = ['.'] := by
    decide +kernel
  obtain ⟨-, -, rfl, hallows⟩ := (verdict_sign_iff hk).1 hv
  rcases check k hk with hopener | ⟨tail, htail⟩ | hoptional | rfl | ⟨rfl, hdot⟩
  · obtain ⟨d, hd, hp⟩ := List.any_eq_true.1 hopener
    obtain ⟨tail, htail⟩ := of_decide_eq_true hp
    rw [← htail]
    exact .opener hd
  · rw [← htail]
    exact .unequal
  · obtain ⟨e, he, hp⟩ := List.any_eq_true.1 hoptional
    obtain ⟨tail, htail⟩ := of_decide_eq_true hp
    rw [← htail]
    exact .optional he
  · rw [Kind.spelling_optionalDot]
    exact .optionalDot (stopsAt_iff_bars.2 hallows)
  · rw [hdot]
    exact .dot (stopsAt_iff_bars.2 hallows)

theorem opensPlain_of_hit (hk : k ∈ Kind.nonNumeric)
    (hhit : (k.verdict settings (d :: rest)).isHit = true)
    (hclosed : ∀ body, d :: rest = '"' :: body → ¬ Unclosed body) : OpensPlain (d :: rest) := by
  have check : ∀ k ∈ Kind.nonNumeric, ∀ i ∈ k.rule.initials,
      i = .letter ∨ k = .string ∨ k = .comment ∨ k ∈ Kind.signs := by decide +kernel
  rcases check k hk _ (mem_initials_of_isHit hhit) with hletter | rfl | rfl | hsign
  · exact .letter (isAlpha_of_letter hletter)
  · rw [Kind.verdict_of_ne (List.cons_ne_nil d rest)] at hhit
    obtain rfl := Verdict.isHit_ofString.1 hhit
    exact .literal (hclosed rest rfl)
  · rw [Kind.verdict_of_ne (List.cons_ne_nil d rest)] at hhit
    obtain rfl := Verdict.isHit_ofComment.1 hhit
    exact .opener (by decide)
  · obtain ⟨more, hv⟩ := matched_of_sign hsign hhit
    exact opensPlain_of_sign hsign hv

/-- Where a sign is spelled, one answers, unless the sign is barred by the digit behind its dot. -/
theorem exists_sign_hit (ho : OpensSign d rest) (hj : j ∈ Kind.signs) (hp : j.spelling <+: d :: rest)
    (hdigit : ∀ more, d :: rest = '?' :: '.' :: more → StopsAt Char.isDigit more) :
    ∃ k ∈ Kind.nonNumeric, (k.verdict settings (d :: rest)).isHit = true := by
  have plain : ∀ k ∈ Kind.signs, k ∈ Kind.nonNumeric := by decide
  obtain ⟨k, more, hlongest⟩ := exists_longest hj hp
  have hstops : k = .optionalDot → StopsAt Char.isDigit more := by
    rintro rfl
    apply hdigit
    rw [hlongest.cut, Kind.spelling_optionalDot]
    rfl
  refine ⟨k, plain k hlongest.mem, ?_⟩
  exact Verdict.isHit_of_matched (verdict_longest ho hlongest hstops)

theorem opensSign_of_ne (h : d.isAlpha = false ∧ d.isDigit = false ∧ d ≠ '"' ∧ d ≠ '#' ∧ d ≠ '.') :
    OpensSign d rest := by
  obtain ⟨hletter, hdigit, hquote, hhash, hdot⟩ := h
  exact ⟨hletter, hdigit, hquote, hhash, fun he => absurd he hdot⟩

theorem exists_hit_of_opensPlain (settings : LexerSettings) (h : OpensPlain text) :
    ∃ k ∈ Kind.nonNumeric, (k.verdict settings text).isHit = true := by
  cases h with
  | @letter d more hd =>
    refine ⟨.identifier, by decide, ?_⟩
    rw [Kind.verdict_of_ne (List.cons_ne_nil d more)]
    exact Verdict.isHit_ofIdentifier.2 hd
  | @opener d more hd =>
    by_cases hhash : d = '#'
    · subst hhash
      exact ⟨.comment, by decide, rfl⟩
    · have check : openers.all (fun d => d ≠ '#' → d ≠ '?' ∧
          (d.isAlpha = false ∧ d.isDigit = false ∧ d ≠ '"' ∧ d ≠ '#' ∧ d ≠ '.') ∧
            ∃ j ∈ Kind.signs, j.spelling = [d]) = true := by decide +kernel
      obtain ⟨hmark, hopens, j, hj, hspelling⟩ :=
        of_decide_eq_true (List.all_eq_true.1 check d hd) hhash
      refine exists_sign_hit (opensSign_of_ne hopens) hj ⟨more, by rw [hspelling]; rfl⟩ ?_
      intro more he
      exact absurd (List.cons.inj he).1 hmark
  | @unequal more =>
    have hspelling : Kind.valueNotEquals.spelling = ['!', '='] := by decide +kernel
    refine exists_sign_hit (opensSign_of_ne (by decide)) (j := .valueNotEquals) (by decide)
      ⟨more, by rw [hspelling]; rfl⟩ ?_
    intro more he
    cases he
  | @optional e more he =>
    have check : ['?', '(', '['].all (fun e => e ≠ '.' ∧ ∃ j ∈ Kind.signs, j.spelling = ['?', e]) =
        true := by decide +kernel
    obtain ⟨hdot, j, hj, hspelling⟩ := of_decide_eq_true (List.all_eq_true.1 check e he)
    refine exists_sign_hit (opensSign_of_ne (by decide)) hj ⟨more, by rw [hspelling]; rfl⟩ ?_
    intro more he
    exact absurd (List.cons.inj (List.cons.inj he).2).1 hdot
  | @optionalDot more hs =>
    refine exists_sign_hit (opensSign_of_ne (by decide)) (j := .optionalDot) (by decide)
      ⟨more, by rw [Kind.spelling_optionalDot]; rfl⟩ ?_
    rintro _ ⟨⟩
    exact hs
  | @dot more hs =>
    have hspelling : Kind.dot.spelling = ['.'] := by decide +kernel
    refine exists_sign_hit ⟨by decide, by decide, by decide, by decide, fun _ => hs⟩ (j := .dot)
      (by decide) ⟨more, by rw [hspelling]; rfl⟩ ?_
    intro more he
    cases he
  | @literal body hclosed =>
    refine ⟨.string, by decide, ?_⟩
    rw [Kind.verdict_of_ne (List.cons_ne_nil '"' body)]
    exact Verdict.isHit_ofString.2 rfl

theorem OpensPlain.closed (h : OpensPlain ('"' :: body)) : ¬ Unclosed body := by
  cases h with
  | letter hd => exact absurd hd (by decide)
  | opener hd => exact absurd hd (by decide)
  | literal hclosed => exact hclosed

/-- At a quote, strings alone are found. -/
theorem followEnd_quote (hopen : Unclosed body) :
    followEnd Kind.nonNumeric ('"' :: body) = .unterminated := by
  have hstring : Kind.string.rule.plainVerdict ('"' :: body) = .unterminated [] := by
    show Verdict.ofString ('"' :: body) = _
    simp only [Verdict.ofString, show Recognizer.literalBody [] 0 body = none from hopen]
  unfold followEnd
  cases hf : Kind.nonNumeric.find? fun k => (k.rule.plainVerdict ('"' :: body)).isHit with
  | none =>
    have hmiss := List.find?_eq_none.1 hf .string (by decide)
    rw [hstring] at hmiss
    exact absurd rfl hmiss
  | some k =>
    have hhit := List.find?_some hf
    rw [isHit_plainVerdict {} (List.mem_of_find?_eq_some hf)] at hhit
    obtain rfl := eq_string_of_isHit hhit
    simp only [hstring]

/-- The lookahead lets digits end where a token begins that is no number, and nowhere else. -/
theorem followEnd_eq_good_iff : followEnd Kind.nonNumeric text = .good ↔ OpensPlain text := by
  constructor
  · intro h
    obtain ⟨k, hk, hhit⟩ := followEnd_ne_bad_iff.1 (show followEnd Kind.nonNumeric text ≠ .bad by
      rw [h]
      decide)
    rw [isHit_plainVerdict {} hk] at hhit
    obtain ⟨d, rest, rfl⟩ := List.exists_cons_of_ne_nil (ne_nil_of_isHit hhit)
    refine opensPlain_of_hit hk hhit fun body he hopen => ?_
    rw [he, followEnd_quote hopen] at h
    cases h
  · intro h
    obtain ⟨k, hk, hhit⟩ := exists_hit_of_opensPlain {} h
    rw [← isHit_plainVerdict {} hk] at hhit
    cases hend : followEnd Kind.nonNumeric text with
    | good => rfl
    | bad => exact absurd hend (followEnd_ne_bad_iff.2 ⟨k, hk, hhit⟩)
    | unterminated =>
      obtain ⟨body, rfl, hopen⟩ := open_of_followEnd hend
      exact absurd hopen h.closed

/-- What the lookahead finds is found when the next token is asked for: no number answers there, and
no literal is left open. -/
theorem exists_plain_verdict (settings : LexerSettings) (h : OpensPlain text) :
    ∃ k t slice more, k.isNumeric = false ∧ firstHit settings Kind.trialOrder text = some k ∧
      k.verdict settings text = .matched t slice more := by
  obtain ⟨k, hk, hhit⟩ := exists_hit_of_opensPlain settings h
  obtain ⟨j, hj⟩ := firstHit_isSome ranks_trialOrder hhit
  have hjhit := isHit_of_firstHit hj
  have hplain : j.isNumeric = false := by
    rw [Bool.eq_false_iff]
    intro hnumeric
    rw [isHit_numeric_eq_false (not_numeric_of_mem hk) hhit hnumeric] at hjhit
    cases hjhit
  cases hv : j.verdict settings text with
  | matched t slice more => exact ⟨j, t, slice, more, hplain, hj, hv⟩
  | mismatch =>
    rw [hv] at hjhit
    cases hjhit
  | unterminated skipped =>
    rw [Kind.verdict_of_not_numeric hplain (ne_nil_of_isHit hjhit)] at hv
    obtain ⟨-, body, rfl, hopen⟩ := open_of_plainVerdict hv
    exact absurd hopen h.closed

/-- Where a number may end. -/
inductive Borders (settings : LexerSettings) : List Char → Prop
  | ended : Borders settings []
  | separator {d : Char} {more : List Char} (hd : settings.isSeparator d = true) :
    Borders settings (d :: more)
  | token {more : List Char} (h : OpensPlain more) : Borders settings more

theorem endBefore_eq_good_iff : endBefore settings false more = .good ↔ Borders settings more := by
  cases more with
  | nil => exact iff_of_true rfl .ended
  | cons d more =>
    by_cases hd : settings.isSeparator d = true
    · exact iff_of_true (by simp [endBefore, hd]) (.separator hd)
    · have hfollow : endBefore settings false (d :: more) = followEnd Kind.nonNumeric (d :: more) := by
        simp [endBefore, hd]
      rw [hfollow, followEnd_eq_good_iff]
      refine ⟨.token, fun h => ?_⟩
      cases h with
      | separator hd' => exact absurd hd' hd
      | token h => exact h

theorem endBefore_eq_unterminated_iff : endBefore settings false more = .unterminated ↔
    ∃ body, more = '"' :: body ∧ settings.isSeparator '"' = false ∧ Unclosed body := by
  constructor
  · intro h
    cases more with
    | nil => cases h
    | cons d more =>
      by_cases hd : settings.isSeparator d = true
      · simp [endBefore, hd] at h
      · simp only [endBefore, hd, Bool.false_and, Bool.or_false, if_false, Bool.false_eq_true] at h
        obtain ⟨body, hbody, hopen⟩ := open_of_followEnd h
        obtain ⟨rfl, rfl⟩ := List.cons.inj hbody
        exact ⟨more, rfl, Bool.eq_false_iff.2 hd, hopen⟩
  · rintro ⟨body, rfl, hquote, hopen⟩
    simp [endBefore, hquote, followEnd_quote hopen]

theorem endBefore_eq_bad (hborders : ¬ Borders settings more)
    (hclosed : ∀ body, more = '"' :: body → ¬ Unclosed body) :
    endBefore settings false more = .bad := by
  cases hend : endBefore settings false more with
  | bad => rfl
  | good => exact absurd (endBefore_eq_good_iff.1 hend) hborders
  | unterminated =>
    obtain ⟨body, hmore, -, hopen⟩ := endBefore_eq_unterminated_iff.1 hend
    exact absurd hopen (hclosed body hmore)

/-! ## Numbers -/

/-- A text that begins with a digit, or with a dot and a digit. -/
inductive OpensNumber : List Char → Prop
  | whole {d : Char} {rest : List Char} (hd : d.isDigit = true) : OpensNumber (d :: rest)
  | fraction {d : Char} {rest : List Char} (hd : d.isDigit = true) : OpensNumber ('.' :: d :: rest)

/-- A number: the kind and the text of its token, the slice that is read for it, and what is left. -/
structure Numeral where
  kind : Kind
  text : List Char
  slice : List Char
  more : List Char

namespace Numeral

/-- The number that a text begins with: all the digits there, and if a dot and a digit come next, the
dot and all the digits behind it. -/
inductive Opens : List Char → Numeral → Prop
  | whole {digits more : List Char} (hne : digits ≠ []) (hd : ∀ d ∈ digits, d.isDigit = true)
    (hs : StopsAt Char.isDigit more)
    (hdot : ∀ after, more = '.' :: after → StopsAt Char.isDigit after) :
    Opens (digits ++ more) ⟨.long, digits, digits, more⟩
  | fraction {whole part more : List Char} (hw : ∀ d ∈ whole, d.isDigit = true) (hne : part ≠ [])
    (hp : ∀ d ∈ part, d.isDigit = true) (hs : StopsAt Char.isDigit more) :
    Opens (whole ++ '.' :: (part ++ more))
      ⟨.double, Verdict.fractionText whole part, whole ++ '.' :: part, more⟩

theorem exists_opens (ho : OpensNumber text) : ∃ n, Opens text n := by
  obtain ⟨hcut, hdigits, hstop⟩ := cut_where_stops Char.isDigit text
  have hnil : text.takeWhile Char.isDigit = [] → ∃ d rest, text = '.' :: d :: rest ∧
      d.isDigit = true := by
    intro hnil
    cases ho with
    | whole hd => simp [hd] at hnil
    | fraction hd => exact ⟨_, _, rfl, hd⟩
  generalize text.takeWhile Char.isDigit = digits at hcut hdigits hnil
  generalize text.dropWhile Char.isDigit = behind at hcut hstop
  by_cases hfraction : ∃ d rest, behind = '.' :: d :: rest ∧ d.isDigit = true
  · obtain ⟨d, rest, rfl, hd⟩ := hfraction
    obtain ⟨hpart, hparts, hstop'⟩ := cut_where_stops Char.isDigit (d :: rest)
    have hne : (d :: rest).takeWhile Char.isDigit ≠ [] := by simp [hd]
    rw [hcut, hpart]
    exact ⟨_, .fraction hdigits hne hparts hstop'⟩
  · rw [hcut]
    refine ⟨_, .whole ?_ hdigits hstop ?_⟩
    · rintro rfl
      obtain ⟨d, rest, rfl, hd⟩ := hnil rfl
      exact hfraction ⟨d, rest, hcut.symm, hd⟩
    · rintro after rfl
      intro d hd
      obtain ⟨rest, rfl⟩ := List.head?_eq_some_iff.1 (Option.mem_def.1 hd)
      exact Bool.eq_false_iff.2 fun hdigit => hfraction ⟨d, rest, rfl, hdigit⟩

variable {n : Numeral}

theorem Opens.cut (h : Opens text n) : text = n.slice ++ n.more := by
  cases h with
  | whole hne hd hs hdot => rfl
  | fraction hw hne hp hs => simp

/-- The verdict of a number's own kind hangs on what stands behind it. -/
theorem Opens.verdict (h : Opens text n) : n.kind.verdict settings text =
    .ofDigits (endBefore settings false n.more) n.text n.slice n.more := by
  cases h with
  | @whole digits more hne hd hs hdot =>
    rw [Kind.verdict_of_ne (List.append_ne_nil_of_left_ne_nil hne more)]
    exact Verdict.ofLong_append hne hd hs
  | @fraction whole part more hw hne hp hs =>
    rw [Kind.verdict_of_ne (List.append_ne_nil_of_right_ne_nil whole (List.cons_ne_nil _ _))]
    show Verdict.ofDouble settings (whole ++ '.' :: (part ++ more)) = _
    by_cases hnil : whole = []
    · subst hnil
      rw [List.nil_append, Verdict.ofDouble, if_pos List.head?_cons, List.tail_cons,
        Verdict.ofFraction_append hne hp hs]
      rfl
    · rw [Verdict.ofDouble_append hnil hw (stopsAt_cons.2 rfl),
        show endBefore settings true ('.' :: (part ++ more)) = .good by simp [endBefore]]
      show Verdict.ofFraction settings [] (whole ++ ['.']) (part ++ more) = _
      rw [Verdict.ofFraction_append hne hp hs]
      simp [Verdict.fractionText, hnil]

/-- No other kind answers, unless a literal behind the digits is never closed. -/
theorem Opens.eq_or_open (h : Opens text n) (hsep : settings.isSeparator '.' = false)
    (hhit : (j.verdict settings text).isHit = true) :
    j = n.kind ∨ endBefore settings false n.more = .unterminated ∧
      j.verdict settings text = .unterminated n.slice := by
  have hne := ne_nil_of_isHit hhit
  cases h with
  | @whole digits more hnil hd hs hdot =>
    obtain ⟨d, digits, rfl⟩ := List.exists_cons_of_ne_nil hnil
    rcases long_or_double_of_isHit (hd d List.mem_cons_self) hhit with rfl | rfl
    · exact .inl rfl
    · rw [Kind.verdict_of_ne hne] at hhit ⊢
      exact .inr (Verdict.open_of_isHit_ofDouble hnil hd hs hdot hhit)
  | @fraction whole part more hw hpart hp hs =>
    obtain ⟨e, part, rfl⟩ := List.exists_cons_of_ne_nil hpart
    have hdigit := hp e List.mem_cons_self
    have hbarred : ¬ StopsAt Char.isDigit ((e :: part) ++ more) := by
      intro hstop
      rw [stopsAt_cons.1 hstop] at hdigit
      cases hdigit
    left
    cases whole with
    | nil =>
      rcases dot_or_double_of_isHit hhit with rfl | rfl
      · exact absurd (stopsAt_of_dot hhit).2 hbarred
      · rfl
    | cons d whole =>
      rcases long_or_double_of_isHit (hw d List.mem_cons_self) hhit with rfl | rfl
      · rw [Kind.verdict_of_ne hne] at hhit
        exact absurd (Verdict.stopsAt_of_isHit_ofLong hsep (List.cons_ne_nil d whole) hw hhit) hbarred
      · rfl

section
variable (h : Opens text n) (hsep : settings.isSeparator '.' = false)
include h hsep

theorem Opens.firstHit_of_good (hend : endBefore settings false n.more = .good) :
    firstHit settings Kind.trialOrder text = some n.kind ∧
      n.kind.verdict settings text = .matched n.text n.slice n.more := by
  have hv : n.kind.verdict settings text = .matched n.text n.slice n.more := by
    rw [h.verdict, hend]
    rfl
  obtain ⟨j, hj⟩ := firstHit_isSome ranks_trialOrder (Verdict.isHit_of_matched hv)
  rcases h.eq_or_open hsep (isHit_of_firstHit hj) with rfl | ⟨hopen, -⟩
  · exact ⟨hj, hv⟩
  · rw [hend] at hopen
    cases hopen

theorem Opens.firstHit_of_unterminated (hend : endBefore settings false n.more = .unterminated) :
    ∃ j, firstHit settings Kind.trialOrder text = some j ∧
      j.verdict settings text = .unterminated n.slice := by
  have hv : n.kind.verdict settings text = .unterminated n.slice := by
    rw [h.verdict, hend]
    rfl
  have hhit : (n.kind.verdict settings text).isHit = true := by
    rw [hv]
    rfl
  obtain ⟨j, hj⟩ := firstHit_isSome ranks_trialOrder hhit
  rcases h.eq_or_open hsep (isHit_of_firstHit hj) with rfl | ⟨-, hopen⟩
  · exact ⟨_, hj, hv⟩
  · exact ⟨j, hj, hopen⟩

theorem Opens.firstHit_of_bad (hend : endBefore settings false n.more = .bad) :
    firstHit settings Kind.trialOrder text = none := by
  cases hj : firstHit settings Kind.trialOrder text with
  | none => rfl
  | some j =>
    have hhit := isHit_of_firstHit hj
    rcases h.eq_or_open hsep hhit with rfl | ⟨hopen, -⟩
    · rw [h.verdict, hend] at hhit
      cases hhit
    · rw [hend] at hopen
      cases hopen

end

end Numeral

/-- Where a number begins, the next token is that number if a border follows it; if a literal follows
that is never closed, that literal fails, and anywhere else the first character of the number is not
recognized. -/
theorem number_read (hshort : c.source.length < counterBound)
    (hdot : c.settings.isWhitespace '.' = false) (h : c.Faces before gap text)
    (ho : OpensNumber text) :
    (∃ n, Numeral.Opens text n) ∧ ∀ n, Numeral.Opens text n →
      (Borders c.settings n.more → c.Yields before ⟨gap, n.slice, n.kind, n.text⟩ n.more) ∧
      (∀ body, n.more = '"' :: body → c.settings.isWhitespace '"' = false → Unclosed body →
        c.Refuses (unterminatedBehind c.source (before ++ (gap ++ n.slice))) (before ++ gap) text) ∧
      (¬ Borders c.settings n.more → (∀ body, n.more = '"' :: body → ¬ Unclosed body) →
        ∃ d ∈ text.head?,
          c.Refuses (unrecognizedBehind c.source (before ++ gap) d) (before ++ gap) text) := by
  have hsep : c.settings.isSeparator '.' = false := by
    rw [LexerSettings.isSeparator, hdot]
    rfl
  refine ⟨Numeral.exists_opens ho, fun n hn => ⟨fun hborders => ?_, ?_, ?_⟩⟩
  · obtain ⟨hfirst, hv⟩ := hn.firstHit_of_good hsep (endBefore_eq_good_iff.2 hborders)
    rw [hn.cut] at h hfirst hv
    exact h.yields hshort hfirst hv
  · intro body hmore hquote hopen
    have hsepquote : c.settings.isSeparator '"' = false := by
      rw [LexerSettings.isSeparator, hquote]
      rfl
    have hend := endBefore_eq_unterminated_iff.2 ⟨body, hmore, hsepquote, hopen⟩
    obtain ⟨j, hfirst, hv⟩ := hn.firstHit_of_unterminated hsep hend
    exact h.refuses_unterminated hshort hfirst hv
  · intro hborders hclosed
    have hfirst := hn.firstHit_of_bad hsep (endBefore_eq_bad hborders hclosed)
    cases ho with
    | whole hd => exact ⟨_, rfl, h.refuses_unrecognized hshort hfirst⟩
    | fraction hd => exact ⟨_, rfl, h.refuses_unrecognized hshort hfirst⟩

/-- A number behind which a member is asked for, one behind which a literal is left open, and one
behind which the sign for a member is barred by a digit. -/
theorem number_read_optional :
    ("1.5?.x".length < counterBound ∧ ".5\"a".length < counterBound ∧
      "1.5?.2".length < counterBound) ∧
    (Cursor.ofSource "1.5?.x").Yields [] ⟨[], ['1', '.', '5'], .double, ['1', '.', '5']⟩
      ['?', '.', 'x'] ∧
    (Cursor.ofSource ".5\"a").Refuses (.unterminatedString 0 2 ".5\"a") [] ['.', '5', '"', 'a'] ∧
    (Cursor.ofSource "1.5?.2").Refuses (.unrecognizedCharacter 0 0 '1' "1.5?.2") []
      ['1', '.', '5', '?', '.', '2'] := by
  have hshort : "1.5?.x".length < counterBound := by decide
  have hshort' : ".5\"a".length < counterBound := by decide
  have hshort'' : "1.5?.2".length < counterBound := by decide
  have hfaces : (Cursor.ofSource "1.5?.x").Faces [] [] ['1', '.', '5', '?', '.', 'x'] :=
    Cursor.faces_ofSource (by decide) (stopsAt_cons.2 (by decide))
  have hfaces' : (Cursor.ofSource ".5\"a").Faces [] [] ['.', '5', '"', 'a'] :=
    Cursor.faces_ofSource (by decide) (stopsAt_cons.2 (by decide))
  have hfaces'' : (Cursor.ofSource "1.5?.2").Faces [] [] ['1', '.', '5', '?', '.', '2'] :=
    Cursor.faces_ofSource (by decide) (stopsAt_cons.2 (by decide))
  have hone : ∀ more, StopsAt Char.isDigit more → Numeral.Opens ('1' :: '.' :: '5' :: more)
      ⟨.double, ['1', '.', '5'], ['1', '.', '5'], more⟩ := by
    intro more hs
    show Numeral.Opens (['1'] ++ '.' :: (['5'] ++ more))
      ⟨.double, Verdict.fractionText ['1'] ['5'], ['1'] ++ '.' :: ['5'], more⟩
    exact .fraction (by simp) (by decide) (by simp) hs
  have hhalf : Numeral.Opens ['.', '5', '"', 'a']
      ⟨.double, ['0', '.', '5'], ['.', '5'], ['"', 'a']⟩ := by
    show Numeral.Opens ([] ++ '.' :: (['5'] ++ ['"', 'a']))
      ⟨.double, Verdict.fractionText [] ['5'], [] ++ '.' :: ['5'], ['"', 'a']⟩
    exact .fraction (by simp) (by decide) (by simp) (stopsAt_cons.2 (by decide))
  refine ⟨⟨hshort, hshort', hshort''⟩, ?_, ?_, ?_⟩
  · have hread := (number_read hshort (by decide) hfaces (.whole (by decide))).2 _
      (hone _ (stopsAt_cons.2 (by decide)))
    exact hread.1 (.token (.optionalDot (stopsAt_cons.2 (by decide))))
  · have hread := (number_read hshort' (by decide) hfaces' (.fraction (by decide))).2 _ hhalf
    exact hread.2.1 ['a'] rfl (by decide) (by decide : Recognizer.literalBody [] 0 ['a'] = none)
  · have hread := (number_read hshort'' (by decide) hfaces'' (.whole (by decide))).2 _
      (hone _ (stopsAt_cons.2 (by decide)))
    have hbarred : ¬ Borders {} ['?', '.', '2'] := by
      intro hborders
      cases hborders with
      | separator hd => exact absurd hd (by decide)
      | token ho =>
        cases ho with
        | letter hd => exact absurd hd (by decide)
        | opener hd => exact absurd hd (by decide)
        | optional he => exact absurd he (by decide)
        | optionalDot hs => exact absurd (stopsAt_cons.1 hs) (by decide)
    obtain ⟨d, ⟨⟩, hrefuses⟩ := hread.2.2 hbarred (by rintro body ⟨⟩)
    exact hrefuses

/-! ## Behind a number -/

theorem Cursor.Faces.yields_plain (hshort : c.source.length < counterBound)
    (h : c.Faces before gap text) (ho : OpensPlain text) :
    ∃ slice k t more, k.isNumeric = false ∧ c.Yields before ⟨gap, slice, k, t⟩ more := by
  obtain ⟨k, t, slice, more, hplain, hfirst, hv⟩ := exists_plain_verdict c.settings ho
  rw [(cut_of_verdict hv).1] at h hfirst hv
  exact ⟨slice, k, t, more, hplain, h.yields hshort hfirst hv⟩

theorem opensPlain_behind_number (hk : k = .long ∨ k = .double)
    (hv : k.verdict settings text = .matched t slice (d :: rest))
    (hd : settings.isSeparator d = false) : OpensPlain (d :: rest) := by
  obtain ⟨-, -, hallows⟩ := verdict_eq_matched_iff.1 hv
  have hborders : Borders settings (d :: rest) := by
    rcases hk with rfl | rfl
    · exact endBefore_eq_good_iff.1 hallows.2
    · exact endBefore_eq_good_iff.1 hallows.2
  cases hborders with
  | separator hsep =>
    rw [hd] at hsep
    cases hsep
  | token h => exact h

/-- Behind a number that no separator follows, the next token begins at once, and it is no number. -/
theorem token_behind_number {l l' : Lexer} {tok : Token} {events : List LexEvent}
    (hshort : source.length < counterBound) (h : Lexer.Reached source settings l)
    (hrun : l.nextToken = .ok (⟨.token tok, events⟩, l')) (hk : tok.kind = .long ∨ tok.kind = .double) :
    ∃ read left, splitAtByte source.toList tok.span.stop = some (read, left) ∧
      ∀ d ∈ left.head?, settings.isSeparator d = false →
        ∃ tok' events' l'', l'.nextToken = .ok (⟨.token tok', events'⟩, l'') ∧
          tok'.span.start = tok.span.stop ∧ tok'.kind ≠ .long ∧ tok'.kind ≠ .double := by
  obtain ⟨rfl, rfl, before, text, hat⟩ := h.stands
  obtain ⟨read, left, last', hstop, hadvances⟩ :=
    advances_of_nextToken hat (Lexer.scan_of_nextToken hrun).1
  have hcut : l.cursor.source.toList = read ++ left := hat.1.trans hadvances.cut
  change Advances _ _ _ _ (.token tok) _ _ at hadvances
  cases hadvances with
  | @token gap slice _ t k hg hs hfirst hv =>
    have hspan : (Lexeme.token before ⟨gap, slice, k, t⟩).span.stop =
        byteLength (before ++ (gap ++ slice)) := by
      rw [← List.append_assoc]
      rfl
    refine ⟨before ++ (gap ++ slice), left, ?_, fun d hd hplain => ?_⟩
    · rw [hspan, hcut, splitAtByte_append]
    obtain ⟨rest, rfl⟩ := List.head?_eq_some_iff.1 (Option.mem_def.1 hd)
    have hfaces : l'.cursor.Faces (before ++ (gap ++ slice)) [] (d :: rest) := by
      rw [hstop]
      exact ⟨Cursor.standsAt_behind last' hcut, by simp, stopsAt_cons.2 hplain⟩
    have hshort' : l'.cursor.source.length < counterBound := by
      rw [hstop]
      exact hshort
    obtain ⟨slice', k', t', more', hnumeric, events', last'', hnext⟩ :=
      hfaces.yields_plain hshort' (opensPlain_behind_number hk hv hplain)
    refine ⟨_, events', _, Lexer.nextToken_of_scan hnext, ?_, ?_, ?_⟩
    · rw [hspan]
      simp [Lexeme.token]
    · intro he
      rw [show k' = .long from he] at hnumeric
      cases hnumeric
    · intro he
      rw [show k' = .double from he] at hnumeric
      cases hnumeric

/-- Two kinds of tokens begin with the question mark behind the number. -/
theorem token_behind_number_optional : "1?.x".length < counterBound ∧ ∃ events l',
    (Lexer.ofSource "1?.x").nextToken =
      .ok (⟨.token ⟨.long, .value, "1", 0, 0, ⟨0, 1, 0, 0⟩⟩, events⟩, l') ∧
    ∃ tok' events' l'', l'.nextToken = .ok (⟨.token tok', events'⟩, l'') ∧ tok'.span.start = 1 ∧
      tok'.kind ≠ .long ∧ tok'.kind ≠ .double := by
  have hshort : "1?.x".length < counterBound := by decide
  have hfound : (Lexer.ofSource "1?.x").nextToken.map (fun answer => answer.1.found) =
      .ok (.token ⟨.long, .value, "1", 0, 0, ⟨0, 1, 0, 0⟩⟩) := by decide +kernel
  cases hrun : (Lexer.ofSource "1?.x").nextToken with
  | error fault =>
    rw [hrun] at hfound
    cases hfound
  | ok answer =>
    obtain ⟨⟨found, events⟩, l'⟩ := answer
    rw [hrun] at hfound
    obtain rfl : found = .token _ := Except.ok.inj hfound
    obtain ⟨read, left, hsplit, hnext⟩ := token_behind_number hshort .fresh hrun (.inl rfl)
    rw [show splitAtByte "1?.x".toList 1 = some (['1'], ['?', '.', 'x']) by decide] at hsplit
    cases hsplit
    exact ⟨hshort, events, l', rfl, hnext '?' rfl (by decide)⟩

end ExprLex
