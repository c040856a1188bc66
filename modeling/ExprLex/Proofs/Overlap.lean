/-
  ExprLex.Proofs.Overlap — two kinds hardly ever answer at the same place.

  What may begin with a character is a matter of a few classes (`Initial`), and a finite check over
  the kinds leaves four pairs of shapes that share one. Of these, two spellings exclude each other
  by the characters that bar them, but for the arrow and the sign for assignment; a dot bars the
  digit that a fraction needs; and a whole number and a fraction both fail or only one of them
  answers, as long as the dot is no separator. So `Overlap` names all that is left
  (`overlap_of_hits`): a reserved word and an identifier read the same slice, an arrow is also a
  sign for assignment, and two numbers meet the same literal that is never closed.
-/

import ExprLex.Proofs.Slices

namespace ExprLex

variable {settings : LexerSettings} {text : List Char}

/-! ## Upper and lower case -/

theorem isAlpha_iff {c : Char} :
    c.isAlpha = true ↔ 65 ≤ c.toNat ∧ c.toNat ≤ 90 ∨ 97 ≤ c.toNat ∧ c.toNat ≤ 122 := by
  change (decide (c.val ≥ 65 ∧ c.val ≤ 90) || decide (c.val ≥ 97) && decide (c.val ≤ 122)) = true ↔ _
  simp [UInt32.le_iff_toNat_le]

theorem toLower_cases (c : Char) :
    c.toLower = c ∨ c.isAlpha = true ∧ c.toLower.isAlpha = true := by
  by_cases h : c.val ≥ 65 ∧ c.val ≤ 90
  · have hlow : 65 ≤ c.toNat := h.1
    have hhigh : c.toNat ≤ 90 := h.2
    have hlower : c.toLower.toNat = c.toNat + 32 := by
      rw [show c.toLower = ⟨c.val + 32, _⟩ from dif_pos h]
      show (c.val + 32).toNat = _
      rw [UInt32.toNat_add]
      simp
      omega
    right
    rw [isAlpha_iff, isAlpha_iff]
    omega
  · exact .inl (dif_neg h)

/-- A property that no letter has does not tell the cases apart. -/
theorem toLower_of_letterless {p : Char → Bool} (hp : ∀ c, c.isAlpha = true → p c = false)
    (c : Char) : p c.toLower = p c := by
  rcases toLower_cases c with h | ⟨hc, hl⟩
  · rw [h]
  · rw [hp _ hc, hp _ hl]

theorem isAlpha_toLower (c : Char) : c.toLower.isAlpha = c.isAlpha := by
  rcases toLower_cases c with h | ⟨hc, hl⟩
  · rw [h]
  · rw [hc, hl]

theorem isDigit_of_isAlpha {c : Char} (h : c.isAlpha = true) : c.isDigit = false := by
  rw [isAlpha_iff] at h
  rw [Bool.eq_false_iff, ne_eq, Char.isDigit_iff_toNat]
  simp
  omega

theorem isDigit_toLower (c : Char) : c.toLower.isDigit = c.isDigit :=
  toLower_of_letterless (fun _ => isDigit_of_isAlpha) c

theorem eq_sign_toLower {sign : Char} (hs : sign.isAlpha = false) (c : Char) :
    decide (c.toLower = sign) = decide (c = sign) := by
  refine toLower_of_letterless (p := fun d => decide (d = sign)) (fun d hd => ?_) c
  simp only [decide_eq_false_iff_not]
  intro he
  subst he
  rw [hs] at hd
  cases hd

theorem CharClass.contains_toLower (barred : CharClass) (c : Char) :
    barred.contains c.toLower = barred.contains c := by
  cases barred with
  | equalsSign => exact eq_sign_toLower rfl c
  | greaterSign => exact eq_sign_toLower rfl c
  | digit => exact isDigit_toLower c
  | wordPart =>
    simp only [contains, isWordPart, Char.isAlphanum, isAlpha_toLower, isDigit_toLower,
      eq_sign_toLower (show ('_').isAlpha = false by decide)]

/-! ## First characters -/

/-- What a character may begin. -/
inductive Initial where
  | letter
  | digit
  | dot
  | quote
  | hash
  | sign
  deriving DecidableEq

def Initial.of (c : Char) : Initial :=
  if c.isAlpha then letter
  else if c.isDigit then digit
  else if c = '.' then dot
  else if c = '"' then quote
  else if c = '#' then hash
  else sign

theorem Initial.of_toLower (c : Char) : of c.toLower = of c := by
  rcases toLower_cases c with h | ⟨hc, hl⟩
  · rw [h]
  · simp [of, hc, hl]

/-- The classes in which a token of the rule may begin. -/
def Rule.initials : Rule → List Initial
  | spelling word _ => (word.toList.take 1).map Initial.of
  | identifier => [.letter]
  | long => [.digit]
  | double => [.digit, .dot]
  | string => [.quote]
  | comment => [.hash]

namespace Verdict

theorem isHit_ofSpelling {word : List Char} {notBefore : Option CharClass} :
    (ofSpelling word notBefore text).isHit = true ↔
      (text.take word.length).map Char.toLower = word.map Char.toLower ∧
        CharClass.bars notBefore (text.drop word.length) = false := by
  unfold ofSpelling
  split <;> simp_all

theorem isHit_ofIdentifier {d : Char} :
    (ofIdentifier (d :: text)).isHit = true ↔ d.isAlpha = true := by
  simp only [ofIdentifier]
  split <;> simp_all

theorem isHit_ofString {d : Char} : (ofString (d :: text)).isHit = true ↔ d = '"' := by
  constructor
  · intro h
    unfold ofString at h
    split at h
    · exact (List.cons.inj ‹_›).1
    · cases h
  · intro he
    subst he
    simp only [ofString]
    split <;> rfl

theorem isHit_ofComment {d : Char} : (ofComment (d :: text)).isHit = true ↔ d = '#' := by
  constructor
  · intro h
    unfold ofComment at h
    split at h
    · exact (List.cons.inj ‹_›).1
    · cases h
  · intro he
    subst he
    rfl

theorem isHit_ofDigits {ending : DigitsEnd} {t slice more : List Char} :
    (ofDigits ending t slice more).isHit = true ↔ ending ≠ .bad := by
  cases ending <;> simp

/-- Digits that end well or in front of an open literal are there. -/
theorem isDigit_of_digitsEnd {dotEnds : Bool} {d : Char}
    (h : digitsEnd settings dotEnds (d :: text) ≠ .bad) : d.isDigit = true := by
  cases hd : d.isDigit with
  | true => rfl
  | false => exact absurd (if_pos (by simp [hd])) h

theorem isDigit_of_isHit_ofLong {d : Char} (h : (ofLong settings (d :: text)).isHit = true) :
    d.isDigit = true := isDigit_of_digitsEnd (isHit_ofDigits.1 h)

theorem isDigit_of_isHit_ofDouble {d : Char} (hd : d ≠ '.')
    (h : (ofDouble settings (d :: text)).isHit = true) : d.isDigit = true := by
  unfold ofDouble at h
  rw [if_neg (by simpa using hd)] at h
  have hend : digitsEnd settings true (d :: text) ≠ .bad := by
    intro hbad
    rw [hbad] at h
    cases h
  exact isDigit_of_digitsEnd hend

end Verdict

theorem Initial.of_digit {c : Char} (h : c.isDigit = true) : of c = digit := by
  cases ha : c.isAlpha with
  | true =>
    rw [isDigit_of_isAlpha ha] at h
    cases h
  | false => simp [of, ha, h]

/-- A kind answers only where one of its tokens may begin. -/
theorem mem_initials_of_isHit {k : Kind} {d : Char}
    (h : (k.verdict settings (d :: text)).isHit = true) : Initial.of d ∈ k.rule.initials := by
  rw [Kind.verdict_of_ne (List.cons_ne_nil d text)] at h
  cases hr : k.rule with
  | spelling word notBefore =>
    rw [hr] at h
    have hword := (Verdict.isHit_ofSpelling.1 h).1
    obtain ⟨e, word', hcons⟩ := List.exists_cons_of_ne_nil (ne_nil_of_spelling hr)
    simp only [hcons, List.length_cons, List.take_succ_cons, List.map_cons, List.cons.injEq] at hword
    simp [Rule.initials, hcons, ← Initial.of_toLower d, hword.1, Initial.of_toLower e]
  | identifier =>
    rw [hr] at h
    simp [Rule.initials, Initial.of, Verdict.isHit_ofIdentifier.1 h]
  | long =>
    rw [hr] at h
    simp [Rule.initials, Initial.of_digit (Verdict.isDigit_of_isHit_ofLong h)]
  | double =>
    rw [hr] at h
    by_cases hd : d = '.'
    · subst hd
      decide
    · simp [Rule.initials, Initial.of_digit (Verdict.isDigit_of_isHit_ofDouble hd h)]
  | string =>
    rw [hr] at h
    rw [Verdict.isHit_ofString.1 h]
    decide
  | comment =>
    rw [hr] at h
    rw [Verdict.isHit_ofComment.1 h]
    decide

/-- Only a string begins with a quote. -/
theorem eq_string_of_isHit {k : Kind} (h : (k.verdict settings ('"' :: text)).isHit = true) :
    k = .string := by
  have check : ∀ k ∈ Kind.all, Initial.quote ∈ k.rule.initials → k = .string := by decide +kernel
  exact check k k.mem_all (mem_initials_of_isHit h)

/-- Only numbers begin with a digit. -/
theorem long_or_double_of_isHit {k : Kind} {d : Char} (hd : d.isDigit = true)
    (h : (k.verdict settings (d :: text)).isHit = true) : k = .long ∨ k = .double := by
  have check : ∀ k ∈ Kind.all, Initial.digit ∈ k.rule.initials → k = .long ∨ k = .double := by
    decide +kernel
  have hmem := mem_initials_of_isHit h
  rw [Initial.of_digit hd] at hmem
  exact check k k.mem_all hmem

/-- Only the dot and fractions begin with a dot. -/
theorem dot_or_double_of_isHit {k : Kind} (h : (k.verdict settings ('.' :: text)).isHit = true) :
    k = .dot ∨ k = .double := by
  have check : ∀ k ∈ Kind.all, Initial.dot ∈ k.rule.initials → k = .dot ∨ k = .double := by
    decide +kernel
  exact check k k.mem_all (mem_initials_of_isHit h)

/-! ## Pairs of kinds -/

namespace Kind

/-- The words that are no identifiers. -/
def reserved : List Kind :=
  [trueWord, falseWord, nullWord, notWord, andWord, orWord, ifWord, thenWord, elseWord]

/-- The pairs of shapes that begin alike. -/
def meets (k j : Kind) : Bool :=
  k.representation?.isSome && j.representation?.isSome || decide (k ∈ reserved) && j = identifier ||
    k = dot && j = double || k = long && j = double

theorem meets_of_mem_initials {k j : Kind} {i : Initial} (hk : i ∈ k.rule.initials)
    (hj : i ∈ j.rule.initials) : k = j ∨ k.meets j = true ∨ j.meets k = true := by
  have check : ∀ k ∈ all, ∀ j ∈ all, ∀ i ∈ k.rule.initials, i ∈ j.rule.initials →
      k = j ∨ k.meets j = true ∨ j.meets k = true := by decide +kernel
  exact check k k.mem_all j j.mem_all i hk hj

end Kind

theorem CharClass.bars_map_toLower (notBefore : Option CharClass) (text : List Char) :
    bars notBefore (text.map Char.toLower) = bars notBefore text := by
  cases notBefore with
  | none => rfl
  | some barred =>
    cases text with
    | nil => rfl
    | cons d text => exact barred.contains_toLower d

theorem CharClass.bars_take {notBefore : Option CharClass} (h : bars notBefore text = false)
    (n : Nat) : bars notBefore (text.take n) = false := by
  cases text with
  | nil => simpa using h
  | cons d text =>
    cases n with
    | zero => cases notBefore <;> rfl
    | succ n => exact h

/-- Whether the second spelling begins with the first and nothing in it bars the first. -/
def Rule.hides : Rule → Rule → Bool
  | spelling inner notBefore, spelling outer _ =>
    (inner.toList.map Char.toLower).isPrefixOf (outer.toList.map Char.toLower) &&
      !CharClass.bars notBefore ((outer.toList.map Char.toLower).drop inner.toList.length)
  | _, _ => false

/-- The sign for assignment is no longer barred by the arrow's second character. -/
theorem Kind.eq_of_hides {k j : Kind} (h : k.rule.hides j.rule = true) :
    k = j ∨ k = assign ∧ j = arrow := by
  have check : ∀ k ∈ all, ∀ j ∈ all, k.rule.hides j.rule = true → k = j ∨ k = assign ∧ j = arrow := by
    decide +kernel
  exact check k k.mem_all j j.mem_all h

theorem hides_of_isHit {inner outer : String} {notBefore notBefore' : Option CharClass}
    (hi : (Verdict.ofSpelling inner.toList notBefore text).isHit = true)
    (ho : (Verdict.ofSpelling outer.toList notBefore' text).isHit = true)
    (hle : inner.toList.length ≤ outer.toList.length) :
    (Rule.spelling inner notBefore).hides (.spelling outer notBefore') = true := by
  obtain ⟨hinner, hbars⟩ := Verdict.isHit_ofSpelling.1 hi
  obtain ⟨houter, -⟩ := Verdict.isHit_ofSpelling.1 ho
  simp only [Rule.hides, ← hinner, ← houter, Bool.and_eq_true, Bool.not_eq_true',
    List.isPrefixOf_iff_prefix, ← List.map_drop, CharClass.bars_map_toLower, List.drop_take]
  refine ⟨?_, CharClass.bars_take hbars _⟩
  rw [← Nat.min_eq_left hle, ← List.take_take]
  exact (List.take_prefix _ _).map _

/-- Two kinds that both answer at a text; the first is tried before the second. -/
inductive Overlap (settings : LexerSettings) (text : List Char) : Kind → Kind → Prop
  | word {w : Kind} (hw : w ∈ Kind.reserved) {t slice more : List Char}
    (hk : w.verdict settings text = .matched t slice more)
    (hi : Kind.identifier.verdict settings text = .matched slice slice more) :
    Overlap settings text w .identifier
  | arrow {t t' slice slice' more more' : List Char}
    (ha : Kind.arrow.verdict settings text = .matched t slice more)
    (hs : Kind.assign.verdict settings text = .matched t' slice' more') :
    Overlap settings text .arrow .assign
  | number {skipped : List Char} (hl : Kind.long.verdict settings text = .unterminated skipped)
    (hd : Kind.double.verdict settings text = .unterminated skipped) :
    Overlap settings text .long .double

variable {k j : Kind}

theorem ne_nil_of_isHit (h : (k.verdict settings text).isHit = true) : text ≠ [] := by
  intro he
  subst he
  cases h

theorem matched_of_spelling {word : String} {notBefore : Option CharClass}
    (hr : k.rule = .spelling word notBefore) (h : (k.verdict settings text).isHit = true) :
    ∃ slice more, k.verdict settings text = .matched word.toList slice more := by
  have hne := ne_nil_of_isHit h
  rw [Kind.verdict_of_ne hne, hr] at h ⊢
  exact ⟨_, _, if_pos (Verdict.isHit_ofSpelling.1 h)⟩

theorem Kind.rule_of_representation (h : k.representation?.isSome = true) :
    ∃ word notBefore, k.rule = .spelling word notBefore := by
  unfold representation? at h
  cases hr : k.rule with
  | spelling word notBefore => exact ⟨word, notBefore, rfl⟩
  | _ =>
    rw [hr] at h
    cases h

/-- The characters of the kind's spelling; there are none if it has no spelling. -/
def Kind.spelling (k : Kind) : List Char := (k.representation?.getD "").toList

theorem Kind.spelling_of_rule {word : String} {notBefore : Option CharClass}
    (h : k.rule = .spelling word notBefore) : k.spelling = word.toList := by
  rw [spelling, representation?, h]
  rfl

theorem overlap_of_spellings {word word' : String} {notBefore notBefore' : Option CharClass}
    (hr : k.rule = .spelling word notBefore) (hr' : j.rule = .spelling word' notBefore')
    (hk : (k.verdict settings text).isHit = true) (hj : (j.verdict settings text).isHit = true) :
    k = j ∨ Overlap settings text k j ∨ Overlap settings text j k := by
  obtain ⟨slice, more, hm⟩ := matched_of_spelling hr hk
  obtain ⟨slice', more', hm'⟩ := matched_of_spelling hr' hj
  rw [Kind.verdict_of_ne (ne_nil_of_isHit hk), hr] at hk
  rw [Kind.verdict_of_ne (ne_nil_of_isHit hj), hr'] at hj
  rcases Nat.le_total word.toList.length word'.toList.length with hle | hle
  · have hhides : k.rule.hides j.rule = true := by
      rw [hr, hr']
      exact hides_of_isHit hk hj hle
    rcases Kind.eq_of_hides hhides with rfl | ⟨rfl, rfl⟩
    · exact .inl rfl
    · exact .inr (.inr (.arrow hm' hm))
  · have hhides : j.rule.hides k.rule = true := by
      rw [hr, hr']
      exact hides_of_isHit hj hk hle
    rcases Kind.eq_of_hides hhides with rfl | ⟨rfl, rfl⟩
    · exact .inl rfl
    · exact .inr (.inl (.arrow hm hm'))

/-- A reserved word is spelled in letters and bars the parts of a longer word. -/
theorem Kind.rule_of_reserved (h : k ∈ reserved) :
    ∃ word, k.rule = .spelling word (some .wordPart) ∧ word.toList.all Char.isAlpha = true := by
  simp only [reserved, List.mem_cons, List.not_mem_nil, or_false] at h
  rcases h with rfl | rfl | rfl | rfl | rfl | rfl | rfl | rfl | rfl <;> exact ⟨_, rfl, by decide⟩

theorem overlap_of_reserved (hw : k ∈ Kind.reserved) (h : (k.verdict settings text).isHit = true) :
    Overlap settings text k .identifier := by
  have hne := ne_nil_of_isHit h
  obtain ⟨word, hr, halpha⟩ := Kind.rule_of_reserved hw
  obtain ⟨slice, more, hm⟩ := matched_of_spelling hr h
  refine .word hw hm ?_
  rw [Kind.verdict_of_ne hne, hr] at hm
  rw [Kind.verdict_of_ne hne]
  obtain ⟨hcut, hslice, -, hbars⟩ := Verdict.ofSpelling_eq_matched_iff.1 hm
  -- the slice is spelled in letters too, since the cases of letters are letters
  have hletters : ∀ d ∈ slice, d.isAlpha = true := by
    intro d hd
    have hmem : d.toLower ∈ word.toList.map Char.toLower := hslice ▸ List.mem_map_of_mem hd
    obtain ⟨e, he, hde⟩ := List.mem_map.1 hmem
    rw [← isAlpha_toLower, ← hde, isAlpha_toLower]
    exact List.all_eq_true.1 halpha e he
  refine Verdict.ofIdentifier_eq_matched_iff.2 ⟨hcut, rfl, ?_, ?_⟩
  · obtain ⟨d, rest, rfl⟩ := List.exists_cons_of_ne_nil (show slice ≠ [] by
      intro he
      subst he
      exact ne_nil_of_spelling hr (List.map_eq_nil_iff.1 hslice.symm))
    refine ⟨d, rest, rfl, hletters d List.mem_cons_self, fun e he => ?_⟩
    simp [isWordPart, Char.isAlphanum, hletters e (List.mem_cons_of_mem d he)]
  · exact stopsAt_iff_bars.2 hbars

/-! ## Numbers -/

namespace Verdict

variable {digits more : List Char} (hne : digits ≠ []) (hd : ∀ d ∈ digits, d.isDigit = true)
  (hs : StopsAt Char.isDigit more)
include hne hd hs

theorem ofFraction_append (lead whole : List Char) : ofFraction settings lead whole (digits ++ more) =
    ofDigits (endBefore settings false more) (lead ++ whole ++ digits) (whole ++ digits) more := by
  rw [ofFraction, digitsEnd_append settings false hne hd hs, takeWhile_append_of_stopsAt hd hs,
    dropWhile_append_of_stopsAt hd hs]

theorem ofLong_append : ofLong settings (digits ++ more) =
    ofDigits (endBefore settings false more) digits digits more := by
  rw [ofLong_eq_ofFraction, ofFraction_append hne hd hs]
  rfl

theorem ofDouble_append : ofDouble settings (digits ++ more) =
    match endBefore settings true more with
    | .good => ofWhole settings digits more
    | .bad => mismatch
    | .unterminated => unterminated digits := by
  have hdot : (digits ++ more).head? ≠ some '.' := by
    obtain ⟨e, digits, rfl⟩ := List.exists_cons_of_ne_nil hne
    have := hd e List.mem_cons_self
    rw [List.cons_append, List.head?_cons]
    intro he
    cases he
    cases this
  rw [ofDouble, if_neg hdot, digitsEnd_append settings true hne hd hs,
    takeWhile_append_of_stopsAt hd hs]
  cases endBefore settings true more <;> simp only [dropWhile_append_of_stopsAt hd hs]

end Verdict

theorem digitsEnd_of_stopsAt {dotEnds : Bool} (h : StopsAt Char.isDigit text) :
    digitsEnd settings dotEnds text = .bad := by
  have hnil : ([] ++ text).takeWhile Char.isDigit = [] := takeWhile_append_of_stopsAt (by simp) h
  exact if_pos hnil

/-- A number may end, or fail, in front of a text exactly if one of the kinds answers there. -/
theorem followEnd_ne_bad_iff {kinds : List Kind} :
    followEnd kinds text ≠ .bad ↔ ∃ k ∈ kinds, (k.rule.plainVerdict text).isHit = true := by
  unfold followEnd
  cases hf : kinds.find? fun k => (k.rule.plainVerdict text).isHit with
  | none =>
    have hmiss := List.find?_eq_none.1 hf
    refine iff_of_false (fun hne => hne rfl) ?_
    rintro ⟨k, hmem, hk⟩
    exact hmiss k hmem hk
  | some k =>
    have hk : (k.rule.plainVerdict text).isHit = true := List.find?_eq_some_iff_append.1 hf |>.1
    refine iff_of_true ?_ ⟨k, List.mem_of_find?_eq_some hf, hk⟩
    cases hv : k.rule.plainVerdict text <;> simp [hv]

/-- No settings bear on the verdicts of the kinds that are no numbers. -/
theorem isHit_plainVerdict (settings : LexerSettings) (hk : k ∈ Kind.nonNumeric) :
    (k.rule.plainVerdict text).isHit = (k.verdict settings text).isHit := by
  by_cases hne : text = []
  · rw [hne, k.plainVerdict_nil]
    rfl
  · rw [Kind.verdict_of_not_numeric (not_numeric_of_mem hk) hne]

/-- A dot is a token where no digit stands behind it. -/
theorem stopsAt_of_dot {d : Char} {more : List Char}
    (h : (Kind.dot.verdict settings (d :: more)).isHit = true) :
    d = '.' ∧ StopsAt Char.isDigit more := by
  rw [Kind.verdict_of_ne (List.cons_ne_nil d more)] at h
  obtain ⟨hd, hbars⟩ := Verdict.isHit_ofSpelling.1 h
  constructor
  · have hlower : d.toLower = '.' := by simpa using hd
    simpa [hlower] using eq_sign_toLower (show ('.').isAlpha = false from rfl) d
  · exact stopsAt_iff_bars.2 hbars

/-- What may follow a number and begins with a dot is a dot. -/
theorem stopsAt_of_followEnd_dot {more : List Char}
    (h : followEnd Kind.nonNumeric ('.' :: more) ≠ .bad) : StopsAt Char.isDigit more := by
  obtain ⟨k, hmem, hk⟩ := followEnd_ne_bad_iff.1 h
  rw [isHit_plainVerdict {} hmem] at hk
  rcases dot_or_double_of_isHit hk with rfl | rfl
  · exact (stopsAt_of_dot hk).2
  · exact absurd hmem (by decide)

theorem Verdict.ofDouble_dot {more : List Char} (h : StopsAt Char.isDigit more) :
    ofDouble settings ('.' :: more) = mismatch := by
  unfold ofDouble
  rw [if_pos List.head?_cons, ofFraction, List.tail_cons, digitsEnd_of_stopsAt h, ofDigits_bad]

/-- A digit behind the dot bars it, and nothing else could stand behind the digits. -/
theorem Verdict.stopsAt_of_isHit_ofLong {digits after : List Char}
    (hsep : settings.isSeparator '.' = false) (hne : digits ≠ [])
    (hd : ∀ d ∈ digits, d.isDigit = true)
    (h : (ofLong settings (digits ++ '.' :: after)).isHit = true) : StopsAt Char.isDigit after := by
  rw [ofLong_append hne hd (stopsAt_cons.2 rfl)] at h
  have hfollow : followEnd Kind.nonNumeric ('.' :: after) ≠ .bad := by
    simpa [endBefore, hsep] using isHit_ofDigits.1 h
  exact stopsAt_of_followEnd_dot hfollow

/-- Digits that no digit follows behind a dot are a fraction's only as far as they fail. -/
theorem Verdict.open_of_isHit_ofDouble {digits more : List Char} (hne : digits ≠ [])
    (hd : ∀ d ∈ digits, d.isDigit = true) (hs : StopsAt Char.isDigit more)
    (hdot : ∀ after, more = '.' :: after → StopsAt Char.isDigit after)
    (h : (ofDouble settings (digits ++ more)).isHit = true) :
    endBefore settings false more = .unterminated ∧
      ofDouble settings (digits ++ more) = unterminated digits := by
  rw [ofDouble_append hne hd hs] at h ⊢
  cases more with
  | nil => cases h
  | cons d more =>
    by_cases he : d = '.'
    · subst he
      rw [show endBefore settings true ('.' :: more) = .good by simp [endBefore]] at h
      change (ofFraction settings [] (digits ++ ['.']) more).isHit = true at h
      exact absurd (digitsEnd_of_stopsAt (hdot more rfl)) (isHit_ofDigits.1 h)
    · have hwhole : ofWhole settings digits (d :: more) = mismatch := by
        simp [ofWhole, he]
      have hsame : endBefore settings true (d :: more) = endBefore settings false (d :: more) := by
        simp [endBefore, he]
      rw [hsame, hwhole] at h ⊢
      cases hend : endBefore settings false (d :: more) with
      | unterminated => exact ⟨rfl, rfl⟩
      | good =>
        rw [hend] at h
        cases h
      | bad =>
        rw [hend] at h
        cases h

theorem not_dot_and_double (hk : (Kind.dot.verdict settings text).isHit = true)
    (hj : (Kind.double.verdict settings text).isHit = true) : False := by
  obtain ⟨d, more, rfl⟩ := List.exists_cons_of_ne_nil (ne_nil_of_isHit hk)
  obtain ⟨rfl, hstop⟩ := stopsAt_of_dot hk
  rw [Kind.verdict_of_ne (List.cons_ne_nil _ _)] at hj
  have hmiss : (Kind.double.rule.verdict settings ('.' :: more)) = .mismatch :=
    Verdict.ofDouble_dot hstop
  rw [hmiss] at hj
  cases hj

theorem overlap_of_numbers (hsep : settings.isSeparator '.' = false)
    (hk : (Kind.long.verdict settings text).isHit = true)
    (hj : (Kind.double.verdict settings text).isHit = true) :
    Overlap settings text .long .double := by
  have hne := ne_nil_of_isHit hk
  obtain ⟨hcut, hdigit, hstop⟩ := cut_where_stops Char.isDigit text
  have hdigits : text.takeWhile Char.isDigit ≠ [] := by
    intro hnil
    rw [Kind.verdict_of_ne hne] at hk
    exact Verdict.isHit_ofDigits.1 hk (if_pos hnil)
  generalize text.takeWhile Char.isDigit = digits at hcut hdigit hdigits
  generalize text.dropWhile Char.isDigit = more at hcut hstop
  subst hcut
  have hlong : Kind.long.verdict settings (digits ++ more) = _ :=
    (Kind.verdict_of_ne hne).trans (Verdict.ofLong_append hdigits hdigit hstop)
  have hdouble : Kind.double.verdict settings (digits ++ more) = Verdict.ofDouble settings _ :=
    Kind.verdict_of_ne hne
  have hdot : ∀ after, more = '.' :: after → StopsAt Char.isDigit after := by
    rintro after rfl
    rw [Kind.verdict_of_ne hne] at hk
    exact Verdict.stopsAt_of_isHit_ofLong hsep hdigits hdigit hk
  rw [hdouble] at hj
  obtain ⟨hend, hopen⟩ := Verdict.open_of_isHit_ofDouble hdigits hdigit hstop hdot hj
  exact .number (by rw [hlong, hend]; rfl) (hdouble.trans hopen)

theorem overlap_of_meets (hsep : settings.isSeparator '.' = false)
    (hk : (k.verdict settings text).isHit = true) (hj : (j.verdict settings text).isHit = true)
    (hm : k.meets j = true) : k = j ∨ Overlap settings text k j ∨ Overlap settings text j k := by
  simp only [Kind.meets, Bool.or_eq_true, Bool.and_eq_true, decide_eq_true_eq] at hm
  rcases hm with ((⟨hs, hs'⟩ | ⟨hw, rfl⟩) | ⟨rfl, rfl⟩) | ⟨rfl, rfl⟩
  · obtain ⟨word, notBefore, hr⟩ := Kind.rule_of_representation hs
    obtain ⟨word', notBefore', hr'⟩ := Kind.rule_of_representation hs'
    exact overlap_of_spellings hr hr' hk hj
  · exact .inr (.inl (overlap_of_reserved hw hk))
  · exact (not_dot_and_double hk hj).elim
  · exact .inr (.inl (overlap_of_numbers hsep hk hj))

/-- Two kinds answer at one text only as `Overlap` says. -/
theorem overlap_of_hits (hsep : settings.isSeparator '.' = false)
    (hk : (k.verdict settings text).isHit = true) (hj : (j.verdict settings text).isHit = true) :
    k = j ∨ Overlap settings text k j ∨ Overlap settings text j k := by
  obtain ⟨d, more, rfl⟩ := List.exists_cons_of_ne_nil (ne_nil_of_isHit hk)
  rcases Kind.meets_of_mem_initials (mem_initials_of_isHit hk) (mem_initials_of_isHit hj) with
    rfl | hm | hm
  · exact .inl rfl
  · exact overlap_of_meets hsep hk hj hm
  · rcases overlap_of_meets hsep hj hk hm with rfl | h | h
    · exact .inl rfl
    · exact .inr (.inr h)
    · exact .inr (.inl h)

end ExprLex
