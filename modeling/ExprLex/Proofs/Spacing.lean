/-
  ExprLex.Proofs.Spacing — where the whitespace set has a say.

  Separators are looked for between tokens and behind digits, nowhere else. Of the kinds only the
  numbers ask for them, and a number asks about the character behind its slice or about the dot in
  it; a kind that is no number answers where no number does, whatever separates tokens
  (`isHit_numeric_eq_false`). So a run finds the same lexemes under two whitespace sets that agree on
  the characters between the tokens, on their first characters and on the dot (`lexing_of_agrees`).
  In a source these are the characters that do not stand inside a token (`AgreesOutside`).

  A quote or a hash is read the same way under every whitespace set, so two runs over one source that
  both read a literal or a comment at a place read the same token there.
-/

import ExprLex.Proofs.Breaks
import Mathlib.Control.Monad.Basic

namespace ExprLex

variable {settings other : LexerSettings} {source : String} {before text slice more t : List Char}
  {lexemes : List Lexeme} {ending : Ending} {k j : Kind}

/-! ## Where digits end -/

/-- The character that a text begins with separates tokens for both or for neither. -/
def AgreesAhead (settings other : LexerSettings) (text : List Char) : Prop :=
  ∀ d ∈ text.head?, other.isSeparator d = settings.isSeparator d

theorem endBefore_of_agrees (h : AgreesAhead settings other text) (dotEnds : Bool) :
    endBefore other dotEnds text = endBefore settings dotEnds text := by
  cases text with
  | nil => rfl
  | cons d text => rw [endBefore, endBefore, h d rfl]

/-- What may stand behind a slice is a matter of separators only for its next character. -/
theorem Rule.Allows.of_agrees {rule : Rule} (hmore : AgreesAhead settings other more)
    (h : rule.Allows settings more) : rule.Allows other more := by
  cases rule with
  | spelling word notBefore => exact h
  | identifier => exact h
  | long => exact ⟨h.1, (endBefore_of_agrees hmore false).trans h.2⟩
  | double => exact ⟨h.1, (endBefore_of_agrees hmore false).trans h.2⟩
  | string => trivial
  | comment => exact h

theorem verdict_of_agrees (hmore : AgreesAhead settings other more)
    (hv : k.verdict settings text = .matched t slice more) :
    k.verdict other text = .matched t slice more := by
  obtain ⟨hcut, hshape, hallows⟩ := verdict_eq_matched_iff.1 hv
  exact verdict_eq_matched_iff.2 ⟨hcut, hshape, hallows.of_agrees hmore⟩

/-! ## The first kind to answer -/

theorem isHit_plain (hk : k.isNumeric = false) :
    (k.verdict other text).isHit = (k.verdict settings text).isHit := by
  by_cases hne : text = []
  · rw [hne]
    rfl
  · rw [Kind.verdict_of_not_numeric hk hne, Kind.verdict_of_not_numeric hk hne]

/-- Where a kind answers that is no number, no number answers, whatever separates tokens. -/
theorem isHit_numeric_eq_false (hk : k.isNumeric = false)
    (hhit : (k.verdict settings text).isHit = true) (hj : j.isNumeric = true) :
    (j.verdict other text).isHit = false := by
  have check : ∀ k ∈ Kind.all, ∀ j ∈ Kind.all, k.isNumeric = false → j.isNumeric = true →
      ∀ i ∈ k.rule.initials, i ∈ j.rule.initials → k = .dot ∧ j = .double := by decide +kernel
  have hother : (k.verdict other text).isHit = true := by rwa [isHit_plain hk]
  rw [Bool.eq_false_iff]
  intro hboth
  obtain ⟨d, rest, rfl⟩ := List.exists_cons_of_ne_nil (ne_nil_of_isHit hother)
  obtain ⟨rfl, rfl⟩ := check k k.mem_all j j.mem_all hk hj _ (mem_initials_of_isHit hother)
    (mem_initials_of_isHit hboth)
  exact not_dot_and_double hother hboth

/-- A whole number that does not answer in front of a fraction does not answer there with another
whitespace set, since it asks about the dot. -/
theorem isHit_long_of_fraction (hdot : other.isSeparator '.' = settings.isSeparator '.')
    (hv : Kind.double.verdict settings text = .matched t slice more) :
    (Kind.long.verdict other text).isHit = (Kind.long.verdict settings text).isHit := by
  obtain ⟨rfl, ⟨whole, part, rfl, -, hwhole, -⟩, -⟩ := verdict_eq_matched_iff.1 hv
  have hcut : (whole ++ '.' :: part) ++ more = whole ++ '.' :: (part ++ more) := by simp
  have hne : whole ++ '.' :: (part ++ more) ≠ [] := by simp
  have hstop : StopsAt Char.isDigit ('.' :: (part ++ more)) := stopsAt_cons.2 rfl
  have hagrees : AgreesAhead settings other ('.' :: (part ++ more)) := by
    rintro d ⟨⟩
    exact hdot
  rw [hcut, Kind.verdict_of_ne hne, Kind.verdict_of_ne hne]
  show (Verdict.ofLong other _).isHit = (Verdict.ofLong settings _).isHit
  by_cases hnil : whole = []
  · subst hnil
    rw [List.nil_append, Verdict.ofLong, Verdict.ofLong, digitsEnd_of_stopsAt hstop,
      digitsEnd_of_stopsAt hstop]
  · rw [Verdict.ofLong_append hnil hwhole hstop, Verdict.ofLong_append hnil hwhole hstop,
      endBefore_of_agrees hagrees]

theorem Kind.eq_of_isNumeric (h : k.isNumeric = true) : k = .long ∨ k = .double := by
  cases k <;> simp_all [isNumeric]

section
variable (hdot : other.isSeparator '.' = settings.isSeparator '.')
  (hmore : AgreesAhead settings other more)
  (hv : k.verdict settings text = .matched t slice more)
include hdot hmore hv

/-- Where a kind reads a slice, the kinds tried before it answer under both whitespace sets or under
neither. A fraction is tried behind a whole number. -/
theorem isHit_of_agrees (hj : k = .long → j ≠ .double) :
    (j.verdict other text).isHit = (j.verdict settings text).isHit := by
  by_cases hjk : j = k
  · rw [hjk, verdict_of_agrees hmore hv, hv]
  by_cases hjn : j.isNumeric = true
  · by_cases hkn : k.isNumeric = true
    · rcases Kind.eq_of_isNumeric hkn with rfl | rfl
      · exact absurd (Kind.eq_of_isNumeric hjn) (not_or.2 ⟨hjk, hj rfl⟩)
      · obtain rfl := (Kind.eq_of_isNumeric hjn).resolve_right hjk
        exact isHit_long_of_fraction hdot hv
    · have hhit := Verdict.isHit_of_matched hv
      have hplain : k.isNumeric = false := Bool.eq_false_iff.2 hkn
      rw [isHit_numeric_eq_false hplain hhit hjn, isHit_numeric_eq_false hplain hhit hjn]
  · exact isHit_plain (Bool.eq_false_iff.2 hjn)

/-- The kind that reads a slice is the first to answer under both whitespace sets. -/
theorem firstHit_of_agrees (hk : firstHit settings Kind.trialOrder text = some k) :
    firstHit other Kind.trialOrder text = some k := by
  rw [← hk]
  by_cases hl : k = .long
  · have hcut : Kind.trialOrder = Kind.trialOrder.takeWhile (· ≠ .long) ++
        .long :: (Kind.trialOrder.dropWhile (· ≠ .long)).tail := by decide
    have hfront : ∀ j ∈ Kind.trialOrder.takeWhile (· ≠ .long), j ≠ .double := by decide
    have hhit : (Kind.long.verdict settings text).isHit = true := by
      rw [← hl, hv]
      rfl
    have hsame : ∀ j : Kind, j ≠ .double →
        (j.verdict other text).isHit = (j.verdict settings text).isHit :=
      fun j hj => isHit_of_agrees hdot hmore hv fun _ => hj
    rw [hcut, firstHit_append_order, firstHit_append_order, firstHit_cons_hit hhit,
      firstHit_cons_hit ((hsame .long (by decide)).trans hhit)]
    exact congrArg (Option.or · _) (List.find?_congr fun j hj => hsame j (hfront j hj))
  · exact List.find?_congr fun j _ => isHit_of_agrees hdot hmore hv fun he => absurd he hl

end

/-! ## Whole texts -/

/-- A character on which the whitespace sets differ is no dot, and it stands only inside one of the
tokens of the text behind `before`. -/
def AgreesOutside (settings other : LexerSettings) (before text : List Char) (tokens : List Token) :
    Prop :=
  ∀ d, other.isSeparator d ≠ settings.isSeparator d → d ≠ '.' ∧
    ∀ earlier later, text = earlier ++ d :: later →
      ∃ t ∈ tokens, t.span.start < byteLength (before ++ earlier) ∧
        byteLength (before ++ earlier) < t.span.stop

namespace AgreesOutside

theorem dot {tokens : List Token} (h : AgreesOutside settings other before text tokens) :
    other.isSeparator '.' = settings.isSeparator '.' := by
  by_contra hne
  exact (h '.' hne).1 rfl

/-- A character that no token begins in front of and goes on behind is no exception. -/
theorem agrees_at {tokens : List Token} {earlier later : List Char} {d : Char}
    (h : AgreesOutside settings other before (earlier ++ d :: later) tokens)
    (hout : ∀ t ∈ tokens, t.span.stop ≤ byteLength (before ++ earlier) ∨
      byteLength (before ++ earlier) ≤ t.span.start) :
    other.isSeparator d = settings.isSeparator d := by
  by_contra hne
  obtain ⟨t, ht, hstart, hstop⟩ := (h d hne).2 earlier later rfl
  rcases hout t ht with hle | hle
  · omega
  · omega

variable {l : Lexeme} (h : AgreesOutside settings other before (l.gap ++ (l.slice ++ more))
  (tokensBehind before (l :: lexemes)))
include h

/-- In front of the slice of the first lexeme there is no token, and at its beginning none has begun. -/
theorem agrees_upto {earlier later : List Char} {d : Char}
    (hcut : l.gap ++ (l.slice ++ more) = earlier ++ d :: later)
    (hle : byteLength earlier ≤ byteLength l.gap) : other.isSeparator d = settings.isSeparator d := by
  rw [hcut] at h
  refine h.agrees_at fun t ht => .inr ?_
  rcases List.mem_cons.1 ht with rfl | ht
  · simp only [Lexeme.token, byteLength_append]
    omega
  · have hstart := (le_start_of_mem ht).1
    simp only [Lexeme.whole, byteLength_append] at hstart ⊢
    omega

theorem agrees_gap : ∀ d ∈ l.gap, other.isSeparator d = settings.isSeparator d := by
  intro d hd
  obtain ⟨earlier, later, hgap⟩ := List.append_of_mem hd
  have hcut : l.gap ++ (l.slice ++ more) = earlier ++ d :: (later ++ (l.slice ++ more)) := by
    simp [hgap]
  refine h.agrees_upto hcut ?_
  rw [hgap, byteLength_append]
  exact Nat.le_add_right _ _

theorem agrees_slice : AgreesAhead settings other (l.slice ++ more) := by
  intro d hd
  obtain ⟨later, hcut⟩ := List.head?_eq_some_iff.1 (Option.mem_def.1 hd)
  exact h.agrees_upto (by rw [hcut]) (Nat.le_refl _)

theorem agrees_behind : AgreesAhead settings other more := by
  intro d hd
  obtain ⟨later, rfl⟩ := List.head?_eq_some_iff.1 (Option.mem_def.1 hd)
  rw [← List.append_assoc] at h
  refine h.agrees_at fun t ht => ?_
  rcases List.mem_cons.1 ht with rfl | ht
  · left
    simp [Lexeme.token]
  · right
    simpa [Lexeme.whole] using (le_start_of_mem ht).1

theorem rest : AgreesOutside settings other (before ++ l.whole) more
    (tokensBehind (before ++ l.whole) lexemes) := by
  intro d hd
  refine ⟨(h d hd).1, fun earlier later hmore => ?_⟩
  obtain ⟨t, ht, hstart, hstop⟩ := (h d hd).2 (l.whole ++ earlier) later (by simp [Lexeme.whole, hmore])
  rw [← List.append_assoc] at hstart hstop
  rcases List.mem_cons.1 ht with rfl | ht
  · simp only [Lexeme.token, Lexeme.whole, byteLength_append] at hstop
    omega
  · exact ⟨t, ht, hstart, hstop⟩

end AgreesOutside

/-- A text falls into the same lexemes under another whitespace set. -/
theorem lexing_of_agrees (hl : Lexing settings text lexemes .complete)
    (h : AgreesOutside settings other before text (tokensBehind before lexemes)) :
    Lexing other text lexemes .complete := by
  generalize he : Ending.complete = ending at hl
  induction hl generalizing before with
  | @complete gap hg =>
    refine .complete fun d hd => ?_
    obtain ⟨earlier, later, rfl⟩ := List.append_of_mem hd
    rw [h.agrees_at (fun t ht => by cases ht)]
    exact hg d hd
  | unrecognized hg hd hnone => cases he
  | unterminated hg hs hk hv => cases he
  | @lexeme gap slice more t k lexemes ending hg hs hk hv rest ih =>
    have hl : AgreesOutside settings other before
        ((⟨gap, slice, k, t⟩ : Lexeme).gap ++ ((⟨gap, slice, k, t⟩ : Lexeme).slice ++ more))
        (tokensBehind before (⟨gap, slice, k, t⟩ :: lexemes)) := h
    refine .lexeme (fun d hd => ?_) (fun d hd => ?_) ?_ ?_ (ih hl.rest he)
    · rw [hl.agrees_gap d hd]
      exact hg d hd
    · rw [hl.agrees_slice d hd]
      exact hs d hd
    · exact firstHit_of_agrees h.dot hl.agrees_behind hv hk
    · exact verdict_of_agrees hl.agrees_behind hv

/-! ## Literals and comments -/

/-- Of the kinds, only its own begins with the first character of a string or a comment. -/
theorem kind_eq_of_firstHit (hk : k = .string ∨ k = .comment)
    (hhit : (k.verdict settings text).isHit = true)
    (hj : firstHit other Kind.trialOrder text = some j) : j = k := by
  have check : ∀ k ∈ Kind.all, ∀ j ∈ Kind.all, k = .string ∨ k = .comment →
      ∀ i ∈ k.rule.initials, i ∈ j.rule.initials → j = k := by decide +kernel
  obtain ⟨d, rest, rfl⟩ := List.exists_cons_of_ne_nil (ne_nil_of_firstHit hj)
  exact check k k.mem_all j j.mem_all hk _ (mem_initials_of_isHit hhit)
    (mem_initials_of_isHit (isHit_of_firstHit hj))

/-- A literal or a comment is read from its first character on in one way, whatever the settings. -/
theorem token_eq_of_start {lexemes' : List Lexeme} {ending' : Ending} {tok tok' : Token}
    (hl : Lexing settings text lexemes ending) (hl' : Lexing other text lexemes' ending')
    (ht : tok ∈ tokensBehind before lexemes) (ht' : tok' ∈ tokensBehind before lexemes')
    (hkind : tok.kind = .string ∨ tok.kind = .comment) (hstart : tok'.span.start = tok.span.start) :
    tok' = tok := by
  obtain ⟨earlier, l, more, rfl, hcut, hk, hv⟩ := exists_lexeme_of_mem hl ht
  obtain ⟨earlier', l', more', rfl, hcut', hk', hv'⟩ := exists_lexeme_of_mem hl' ht'
  have hsplit := splitAtByte_append (earlier ++ l.gap) (l.slice ++ more)
  have hsplit' := splitAtByte_append (earlier' ++ l'.gap) (l'.slice ++ more')
  have hbytes : byteLength (earlier' ++ l'.gap) = byteLength (earlier ++ l.gap) := hstart
  rw [← hcut', hbytes, hcut, hsplit] at hsplit'
  obtain ⟨hbefore, htext⟩ := Prod.mk.inj (Option.some.inj hsplit')
  rw [← htext] at hk' hv'
  change l.kind = .string ∨ l.kind = .comment at hkind
  have hj := kind_eq_of_firstHit hkind (isHit_of_firstHit hk) hk'
  have hplain : l.kind.isNumeric = false := by
    rcases hkind with h | h
    · rw [h]
      rfl
    · rw [h]
      rfl
  rw [hj, Kind.verdict_of_not_numeric hplain (ne_nil_of_firstHit hk)] at hv'
  rw [Kind.verdict_of_not_numeric hplain (ne_nil_of_firstHit hk), hv'] at hv
  obtain ⟨htoken, hslice, -⟩ := Verdict.matched.inj hv
  simp only [Lexeme.token, ← hbefore, hj, htoken, hslice]

/-- The whitespace set is heard between tokens and at their beginnings only. A source that falls
into tokens does so under every other set that differs on no dot and, of the characters of the source,
only on those inside the tokens. And a string or a comment of one run is a token of every other run
that has a token at its place, whatever the two sets are. -/
theorem whitespace_heard_between_tokens {tokens : List Token} (hshort : source.length < counterBound)
    (h : tokenize source settings = .ok (.ok tokens))
    (hinside : ∀ d, settings.isWhitespace d ≠ other.isWhitespace d → d ≠ '\n' → d ≠ '.' ∧
      ∀ earlier later, source.toList = earlier ++ d :: later →
        ∃ t ∈ tokens, t.span.start < byteLength earlier ∧ byteLength earlier < t.span.stop) :
    tokenize source other = .ok (.ok tokens) ∧
      ∀ (first second : LexerSettings) (run run' : Run), runSource source first = .ok run →
        runSource source second = .ok run' → ∀ t ∈ run.tokens, t.kind = .string ∨ t.kind = .comment →
          ∀ t' ∈ run'.tokens, t'.span.start = t.span.start → t' = t := by
  constructor
  · obtain ⟨lexemes, hl, rfl⟩ := exists_lexing_of_tokenize h
    have hagrees : AgreesOutside settings other [] source.toList (tokensBehind [] lexemes) := by
      intro d hd
      refine hinside d (fun he => hd ?_) (fun he => hd ?_)
      · rw [LexerSettings.isSeparator, LexerSettings.isSeparator, he]
      · subst he
        simp [LexerSettings.isSeparator]
    have hfinds : Finds other source [] source.toList (tokensBehind [] lexemes) none :=
      ⟨lexemes, .complete, lexing_of_agrees hl hagrees, rfl, rfl⟩
    exact hfinds.tokenize_ok hshort
  · intro first second run run' hrun hrun' t ht hkind t' ht' hstart
    obtain ⟨lexemes, ending, hl⟩ := exists_lexing first source.toList
    obtain ⟨lexemes', ending', hl'⟩ := exists_lexing second source.toList
    obtain ⟨events, hends⟩ := runSource_settles hl
    obtain ⟨events', hends'⟩ := runSource_settles hl'
    rw [hends.eq_of_ok hrun] at ht
    rw [hends'.eq_of_ok hrun'] at ht'
    exact token_eq_of_start hl hl' ht ht' hkind hstart

/-- What holds of the text in front of a character, place by place. -/
theorem forall_cut_of_getElem? {cs : List Char} {d : Char} {P : List Char → Prop}
    (h : ∀ i < cs.length, cs[i]? = some d → P (cs.take i)) :
    ∀ earlier later, cs = earlier ++ d :: later → P earlier := by
  rintro earlier later rfl
  simpa using h earlier.length (by simp) (by simp)

/-- The sets differ on the space and on a letter, which stand in a literal and in a comment. -/
theorem whitespace_heard_between_tokens_space : "a\t\"x y\"\n#c d".length < counterBound ∧
    tokenize "a\t\"x y\"\n#c d" ⟨['\t', 'y']⟩ =
      .ok (.ok [⟨.identifier, .value, "a", 0, 0, ⟨0, 1, 0, 0⟩⟩,
        ⟨.string, .value, "x y", 0, 2, ⟨2, 7, 0, 2⟩⟩,
        ⟨.comment, .invisible, "c d", 1, 0, ⟨8, 12, 1, 0⟩⟩]) := by
  have hshort : "a\t\"x y\"\n#c d".length < counterBound := by decide
  have h : tokenize "a\t\"x y\"\n#c d" ⟨[' ', '\t']⟩ =
      .ok (.ok [⟨.identifier, .value, "a", 0, 0, ⟨0, 1, 0, 0⟩⟩,
        ⟨.string, .value, "x y", 0, 2, ⟨2, 7, 0, 2⟩⟩,
        ⟨.comment, .invisible, "c d", 1, 0, ⟨8, 12, 1, 0⟩⟩]) := by
    decide +kernel
  refine ⟨hshort, (whitespace_heard_between_tokens hshort h fun d hd _ => ?_).1⟩
  have hd' : d = ' ' ∨ d = 'y' := by
    by_contra hnot
    obtain ⟨hspace, hletter⟩ := not_or.1 hnot
    simp [LexerSettings.isWhitespace, hspace, hletter] at hd
  rcases hd' with rfl | rfl
  · exact ⟨by decide, forall_cut_of_getElem? (by decide +kernel)⟩
  · exact ⟨by decide, forall_cut_of_getElem? (by decide +kernel)⟩

end ExprLex
