/-
  ExprLex.Proofs.Signs — operators and symbols are read by the longest spelling.

  No sign has a letter, so a sign is written as it is spelled, and a text is read as a sign exactly if
  it begins with the spelling and no barred character follows (`verdict_sign_iff`). A barred character
  makes a sign another, longer one, but for the digit behind a dot (`longer_of_barred`). So the longest
  of the signs that a text begins with is not barred, and it is the first kind to answer
  (`firstHit_longest`); where none may be read, nothing answers (`firstHit_none`).
-/

import ExprLex.Proofs.Advancing
import ExprLex.Proofs.Casing
import ExprLex.Proofs.TrialOrder
import Mathlib.Data.List.MinMax

namespace ExprLex

variable {settings : LexerSettings} {c : Cursor} {before gap text slice more rest t : List Char}
  {k j : Kind} {d : Char}

namespace Kind

/-- The operators and the symbols. -/
def signs : List Kind := all.filter fun k => k.category = .operator || k.category = .symbol

/-- The characters that may not follow the kind's spelling. -/
def notBefore? (k : Kind) : Option CharClass :=
  match k.rule with
  | .spelling _ notBefore => notBefore
  | _ => none

theorem rule_of_mem_signs (hk : k ∈ signs) :
    ∃ word, k.rule = .spelling word k.notBefore? ∧ word.toList = k.spelling := by
  have check : ∀ k ∈ signs, k.representation?.isSome = true := by decide
  obtain ⟨word, notBefore, hr⟩ := rule_of_representation (check k hk)
  refine ⟨word, ?_, (spelling_of_rule hr).symm⟩
  rw [notBefore?, hr]

theorem spelling_optionalDot : optionalDot.spelling = ['?', '.'] := by decide +kernel

theorem letterless_of_mem_signs (hk : k ∈ signs) : ∀ d ∈ k.spelling, d.isAlpha = false := by
  have check : ∀ k ∈ signs, k.spelling.all (fun d => !d.isAlpha) = true := by decide +kernel
  intro d hd
  simpa using List.all_eq_true.1 (check k hk) d hd

end Kind

theorem shapes_sign_iff (hk : k ∈ Kind.signs) :
    k.rule.Shapes slice t ↔ slice = k.spelling ∧ t = k.spelling := by
  obtain ⟨word, hr, hword⟩ := Kind.rule_of_mem_signs hk
  have hletterless := Kind.letterless_of_mem_signs hk
  rw [hr, ← hword] at *
  show slice.map Char.toLower = word.toList.map Char.toLower ∧ t = word.toList ↔ _
  refine and_congr_left fun _ => ⟨fun h => ?_, fun h => by rw [h]⟩
  have hsame : Alike word.toList slice := h.symm
  exact (hsame.eq_of_letterless hletterless).symm

theorem verdict_sign_iff (hk : k ∈ Kind.signs) :
    k.verdict settings text = .matched t slice more ↔
      slice = k.spelling ∧ t = k.spelling ∧ text = k.spelling ++ more ∧
        k.rule.Allows settings more := by
  rw [verdict_eq_matched_iff, shapes_sign_iff hk]
  constructor
  · rintro ⟨hcut, ⟨rfl, rfl⟩, hallows⟩
    exact ⟨rfl, rfl, hcut, hallows⟩
  · rintro ⟨rfl, rfl, hcut, hallows⟩
    exact ⟨hcut, ⟨rfl, rfl⟩, hallows⟩

theorem matched_of_sign (hk : k ∈ Kind.signs) (h : (k.verdict settings text).isHit = true) :
    ∃ more, k.verdict settings text = .matched k.spelling k.spelling more := by
  obtain ⟨word, hr, -⟩ := Kind.rule_of_mem_signs hk
  obtain ⟨slice, more, hv⟩ := matched_of_spelling hr h
  obtain ⟨rfl, hword, -, -⟩ := (verdict_sign_iff hk).1 hv
  rw [hword] at hv
  exact ⟨more, hv⟩

/-! ## What bars a sign -/

/-- A character that may not follow a sign goes on with a longer one, but for the digit behind a dot. -/
theorem longer_of_barred (hk : k ∈ Kind.signs) (hbar : ¬ k.rule.Allows settings (d :: more)) :
    (k = .dot ∨ k = .optionalDot) ∧ d.isDigit = true ∨
      ∃ j ∈ Kind.signs, j.spelling = k.spelling ++ [d] := by
  have equals : ∀ k ∈ Kind.signs, k.notBefore? = some .equalsSign →
      ∃ j ∈ Kind.signs, j.spelling = k.spelling ++ ['='] := by decide +kernel
  have greater : ∀ k ∈ Kind.signs, k.notBefore? = some .greaterSign →
      ∃ j ∈ Kind.signs, j.spelling = k.spelling ++ ['>'] := by decide +kernel
  have dots : ∀ k ∈ Kind.signs, k.notBefore? = some .digit → k = .dot ∨ k = .optionalDot := by
    decide +kernel
  have words : ∀ k ∈ Kind.signs, k.notBefore? ≠ some .wordPart := by decide +kernel
  obtain ⟨word, hr, -⟩ := Kind.rule_of_mem_signs hk
  rw [hr] at hbar
  change ¬ CharClass.bars k.notBefore? (d :: more) = false at hbar
  cases hclass : k.notBefore? with
  | none =>
    rw [hclass] at hbar
    exact absurd rfl hbar
  | some barred =>
    rw [hclass] at hbar
    have hd : barred.contains d = true := by simpa [CharClass.bars] using hbar
    cases barred with
    | equalsSign =>
      obtain rfl : d = '=' := by simpa [CharClass.contains] using hd
      exact .inr (equals k hk hclass)
    | greaterSign =>
      obtain rfl : d = '>' := by simpa [CharClass.contains] using hd
      exact .inr (greater k hk hclass)
    | digit => exact .inl ⟨dots k hk hclass, hd⟩
    | wordPart => exact absurd hclass (words k hk)

/-- The sign with the longest spelling that a text begins with, and what follows it. -/
structure LongestSign (text : List Char) (k : Kind) (more : List Char) : Prop where
  mem : k ∈ Kind.signs
  cut : text = k.spelling ++ more
  longest : ∀ j ∈ Kind.signs, j.spelling <+: text → j.spelling.length ≤ k.spelling.length

theorem exists_longest (hj : j ∈ Kind.signs) (hp : j.spelling <+: text) :
    ∃ k more, LongestSign text k more := by
  let begun := Kind.signs.filter fun k => k.spelling.isPrefixOf text
  have hmem : ∀ i, i ∈ begun ↔ i ∈ Kind.signs ∧ i.spelling <+: text := by
    intro i
    simp only [begun, List.mem_filter, List.isPrefixOf_iff_prefix]
  cases hk : begun.argmax fun k => k.spelling.length with
  | none =>
    have hnil : begun = [] := List.argmax_eq_none.1 hk
    have hjmem := (hmem j).2 ⟨hj, hp⟩
    rw [hnil] at hjmem
    cases hjmem
  | some k =>
    obtain ⟨hkmem, more, hcut⟩ := (hmem k).1 (List.argmax_mem hk)
    refine ⟨k, more, hkmem, hcut.symm, fun i hi hpi => ?_⟩
    have hle := List.le_of_mem_argmax ((hmem i).2 ⟨hi, hpi⟩) hk
    exact hle

/-- A text that no word, no number, no literal and no comment begins. -/
structure OpensSign (d : Char) (rest : List Char) : Prop where
  not_letter : d.isAlpha = false
  not_digit : d.isDigit = false
  not_quote : d ≠ '"'
  not_hash : d ≠ '#'
  not_fraction : d = '.' → StopsAt Char.isDigit rest

/-- Only signs answer at such a text. -/
theorem mem_signs_of_isHit (ho : OpensSign d rest)
    (h : (k.verdict settings (d :: rest)).isHit = true) : k ∈ Kind.signs := by
  by_cases hdot : d = '.'
  · subst hdot
    rcases dot_or_double_of_isHit h with rfl | rfl
    · decide
    · have hmiss : Kind.double.verdict settings ('.' :: rest) = .mismatch :=
        (Kind.verdict_of_ne (List.cons_ne_nil _ _)).trans
          (Verdict.ofDouble_dot (ho.not_fraction rfl))
      rw [hmiss] at h
      cases h
  · have check : ∀ k ∈ Kind.all, Initial.sign ∈ k.rule.initials → k ∈ Kind.signs := by
      decide +kernel
    have hsign : Initial.of d = .sign := by
      simp [Initial.of, ho.not_letter, ho.not_digit, ho.not_quote, ho.not_hash, hdot]
    have hmem := mem_initials_of_isHit h
    rw [hsign] at hmem
    exact check k k.mem_all hmem

/-- The longest sign that a text begins with is not barred, unless it is a dot behind a question mark
and a digit follows. -/
theorem allows_of_longest (ho : OpensSign d rest) (h : LongestSign (d :: rest) k more)
    (hdigit : k = .optionalDot → StopsAt Char.isDigit more) : k.rule.Allows settings more := by
  by_contra hbar
  cases more with
  | nil =>
    obtain ⟨word, hr, -⟩ := Kind.rule_of_mem_signs h.mem
    rw [hr] at hbar
    apply hbar
    show CharClass.bars k.notBefore? [] = false
    cases k.notBefore? <;> rfl
  | cons e more =>
    rcases longer_of_barred h.mem hbar with ⟨rfl | rfl, he⟩ | ⟨j, hj, hlonger⟩
    · obtain ⟨rfl, rfl⟩ := List.cons.inj h.cut
      have hstop := stopsAt_cons.1 (ho.not_fraction rfl)
      rw [he] at hstop
      cases hstop
    · have hstop := stopsAt_cons.1 (hdigit rfl)
      rw [he] at hstop
      cases hstop
    · have hp : j.spelling <+: d :: rest := ⟨more, by rw [hlonger, h.cut]; simp⟩
      have hle := h.longest j hj hp
      rw [hlonger, List.length_append, List.length_singleton] at hle
      omega

theorem verdict_longest (ho : OpensSign d rest) (h : LongestSign (d :: rest) k more)
    (hdigit : k = .optionalDot → StopsAt Char.isDigit more) :
    k.verdict settings (d :: rest) = .matched k.spelling k.spelling more :=
  (verdict_sign_iff h.mem).2 ⟨rfl, rfl, h.cut, allows_of_longest ho h hdigit⟩

/-! ## The first sign to answer -/

/-- Two signs answer at one text only if they are the arrow and the sign for assignment. -/
theorem eq_or_arrow_of_hits (hk : k ∈ Kind.signs) (hj : j ∈ Kind.signs)
    (hkhit : (k.verdict settings text).isHit = true)
    (hjhit : (j.verdict settings text).isHit = true) :
    k = j ∨ k = .arrow ∧ j = .assign ∨ k = .assign ∧ j = .arrow := by
  have plain : ∀ w ∈ Kind.reserved, w ∉ Kind.signs := by decide
  obtain ⟨word, hr, -⟩ := Kind.rule_of_mem_signs hk
  obtain ⟨word', hr', -⟩ := Kind.rule_of_mem_signs hj
  rcases overlap_of_spellings hr hr' hkhit hjhit with rfl | hkj | hjk
  · exact .inl rfl
  · cases hkj with
    | word hw _ _ => exact absurd hk (plain k hw)
    | arrow _ _ => exact .inr (.inl ⟨rfl, rfl⟩)
    | number _ _ => exact absurd hk (by decide)
  · cases hjk with
    | word hw _ _ => exact absurd hj (plain j hw)
    | arrow _ _ => exact .inr (.inr ⟨rfl, rfl⟩)
    | number _ _ => exact absurd hj (by decide)

theorem firstHit_longest (ho : OpensSign d rest) (h : LongestSign (d :: rest) k more)
    (hdigit : k = .optionalDot → StopsAt Char.isDigit more) :
    firstHit settings Kind.trialOrder (d :: rest) = some k := by
  have hhit : (k.verdict settings (d :: rest)).isHit = true :=
    Verdict.isHit_of_matched (verdict_longest ho h hdigit)
  obtain ⟨j, hj⟩ := firstHit_isSome ranks_trialOrder hhit
  have hjhit := isHit_of_firstHit hj
  have hjmem := mem_signs_of_isHit ho hjhit
  rcases eq_or_arrow_of_hits h.mem hjmem hhit hjhit with rfl | ⟨rfl, rfl⟩ | ⟨rfl, rfl⟩
  · exact hj
  · -- the arrow is tried before the sign for assignment
    exact absurd hhit (not_isHit_of_idxOf_lt hj ranks_trialOrder.arrow)
  · obtain ⟨more', hv⟩ := matched_of_sign hjmem hjhit
    obtain ⟨-, -, hcut, -⟩ := (verdict_sign_iff hjmem).1 hv
    exact absurd (h.longest _ hjmem ⟨more', hcut.symm⟩) (by decide)

/-- Nothing answers where no sign is the longest, or only the barred one is. -/
theorem firstHit_none (ho : OpensSign d rest)
    (h : ∀ k more, LongestSign (d :: rest) k more →
      k = .optionalDot ∧ ¬ StopsAt Char.isDigit more) :
    firstHit settings Kind.trialOrder (d :: rest) = none := by
  have check : ∀ j ∈ Kind.signs, j.spelling <+: Kind.optionalDot.spelling → j = .optionalDot := by
    decide +kernel
  cases hj : firstHit settings Kind.trialOrder (d :: rest) with
  | none => rfl
  | some j =>
    have hjhit := isHit_of_firstHit hj
    have hjmem := mem_signs_of_isHit ho hjhit
    obtain ⟨more', hv⟩ := matched_of_sign hjmem hjhit
    obtain ⟨-, -, hcut, hallows⟩ := (verdict_sign_iff hjmem).1 hv
    have hp : j.spelling <+: d :: rest := ⟨more', hcut.symm⟩
    obtain ⟨k, more, hlongest⟩ := exists_longest hjmem hp
    obtain ⟨rfl, hdigit⟩ := h k more hlongest
    -- a sign that is no longer than the barred one begins it, so it is the barred one
    have hle := hlongest.longest j hjmem hp
    have hk : Kind.optionalDot.spelling <+: d :: rest := ⟨more, hlongest.cut.symm⟩
    obtain rfl := check j hjmem (List.prefix_of_prefix_length_le hp hk hle)
    obtain rfl : more = more' := List.append_cancel_left (hlongest.cut.symm.trans hcut)
    exact absurd (stopsAt_iff_bars.2 hallows) hdigit

/-- Where no word, number, literal or comment can begin, the next token is the longest of the operators
and symbols that stand there; `?.` in front of a digit does not count, and where there is none, nothing
begins. -/
theorem sign_read_longest (hshort : c.source.length < counterBound)
    (h : c.Faces before gap (d :: rest)) (ho : OpensSign d rest) :
    (∀ k more, LongestSign (d :: rest) k more →
      (k = .optionalDot → StopsAt Char.isDigit more) →
        c.Yields before ⟨gap, k.spelling, k, k.spelling⟩ more) ∧
    ((∀ k more, LongestSign (d :: rest) k more →
      k = .optionalDot ∧ ¬ StopsAt Char.isDigit more) →
        c.Refuses (unrecognizedBehind c.source (before ++ gap) d) (before ++ gap) (d :: rest)) := by
  constructor
  · intro k more hlongest hdigit
    have hk : firstHit c.settings Kind.trialOrder (d :: rest) = some k :=
      firstHit_longest ho hlongest hdigit
    have hv : k.verdict c.settings (d :: rest) = .matched k.spelling k.spelling more :=
      verdict_longest ho hlongest hdigit
    rw [hlongest.cut] at h hk hv
    exact h.yields hshort hk hv
  · intro hnone
    exact h.refuses_unrecognized hshort (firstHit_none ho hnone)

/-- Four signs begin the first text, and the longest leaves the arrow's head; the second begins with
a barred one. -/
theorem sign_read_longest_equals :
    ("x ===>".length < counterBound ∧ "?.5".length < counterBound) ∧
    ((Cursor.ofSource "x ===>").behind ['x'] " ===>".toList none).Yields ['x']
      ⟨[' '], ['=', '=', '='], .valueEqualsExact, ['=', '=', '=']⟩ ['>'] ∧
    (Cursor.ofSource "?.5").Refuses (.unrecognizedCharacter 0 0 '?' "?.5") [] ['?', '.', '5'] := by
  have hshort : "x ===>".length < counterBound := by decide
  have hshort' : "?.5".length < counterBound := by decide
  have hspelling : Kind.valueEqualsExact.spelling = ['=', '=', '='] := by decide +kernel
  have hlongest : LongestSign ['=', '=', '=', '>'] .valueEqualsExact ['>'] :=
    ⟨by decide, by decide +kernel, by decide +kernel⟩
  have hfaces : ((Cursor.ofSource "x ===>").behind ['x'] " ===>".toList none).Faces ['x'] [' ']
      ['=', '=', '=', '>'] :=
    ⟨⟨by decide, by decide⟩, List.forall_mem_singleton.2 (by decide), stopsAt_cons.2 (by decide)⟩
  have hfaces' : (Cursor.ofSource "?.5").Faces [] [] ['?', '.', '5'] :=
    Cursor.faces_ofSource (by decide) (stopsAt_cons.2 (by decide))
  have hopens : OpensSign '=' ['=', '=', '>'] :=
    ⟨by decide, by decide, by decide, by decide, fun he => absurd he (by decide)⟩
  have hopens' : OpensSign '?' ['.', '5'] :=
    ⟨by decide, by decide, by decide, by decide, fun he => absurd he (by decide)⟩
  have hread := (sign_read_longest hshort hfaces hopens).1 _ _ hlongest
    fun he => absurd he (by decide)
  rw [hspelling] at hread
  refine ⟨⟨hshort, hshort'⟩, hread, (sign_read_longest hshort' hfaces' hopens').2 ?_⟩
  intro k more h
  have check : ∀ k ∈ Kind.signs, k.spelling <+: ['?', '.', '5'] → k = .optionalDot := by
    decide +kernel
  obtain rfl := check k h.mem ⟨more, h.cut.symm⟩
  have hcut := h.cut
  rw [Kind.spelling_optionalDot] at hcut
  obtain rfl : ['5'] = more := by simpa using hcut
  exact ⟨rfl, fun hstop => absurd (stopsAt_cons.1 hstop) (by decide)⟩

end ExprLex
