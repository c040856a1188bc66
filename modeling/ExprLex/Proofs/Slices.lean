/-
  ExprLex.Proofs.Slices — which slices a kind reads, and what it makes of them.

  For every shape of rule, a match is described by the slice and by what follows it, in both
  directions: a text is cut so exactly if the slice has the shape and the rest begins with nothing
  that goes on with it or bars it (`ofSpelling_eq_matched_iff` and the others). For all kinds
  together, a match cuts the text in a slice of the kind's shape, which is never empty, and what is
  left (`shapes_of_verdict`, `cut_of_verdict`); and a literal that is never closed opens with a
  quote behind what was skipped (`open_of_verdict`).
-/

import ExprLex.Proofs.Verdict

namespace ExprLex

/-- No character with the property comes first. -/
def StopsAt (p : Char → Bool) (text : List Char) : Prop := ∀ d ∈ text.head?, p d = false

theorem stopsAt_nil (p : Char → Bool) : StopsAt p [] := by
  intro d hd
  cases hd

theorem stopsAt_cons {p : Char → Bool} {d : Char} {text : List Char} :
    StopsAt p (d :: text) ↔ p d = false := by
  simp [StopsAt]

theorem StopsAt.append {p : Char → Bool} {text tail : List Char} (h : StopsAt p text)
    (ht : StopsAt p tail) : StopsAt p (text ++ tail) := by
  cases text with
  | nil => exact ht
  | cons d text => exact stopsAt_cons.2 (stopsAt_cons.1 h)

/-- Only the first character counts. -/
theorem StopsAt.append_of_ne_nil {p : Char → Bool} {text : List Char} (h : StopsAt p text)
    (hne : text ≠ []) (tail : List Char) : StopsAt p (text ++ tail) := by
  obtain ⟨d, text, rfl⟩ := List.exists_cons_of_ne_nil hne
  exact stopsAt_cons.2 (stopsAt_cons.1 h)

theorem StopsAt.mono {p q : Char → Bool} {text : List Char} (h : StopsAt p text)
    (hpq : ∀ d, q d = true → p d = true) : StopsAt q text := by
  intro d hd
  cases hq : q d with
  | false => rfl
  | true => rw [← hpq d hq, h d hd]

theorem StopsAt.of_append {p : Char → Bool} {text tail : List Char} (h : StopsAt p (text ++ tail)) :
    StopsAt p text := by
  cases text with
  | nil => exact stopsAt_nil p
  | cons d text => exact stopsAt_cons.2 (stopsAt_cons.1 h)

theorem stopsAt_dropWhile (p : Char → Bool) (text : List Char) : StopsAt p (text.dropWhile p) := by
  intro d hd
  have := List.head?_dropWhile_not p text
  rw [Option.mem_def.1 hd] at this
  simpa using this

theorem stopsAt_iff_bars {barred : CharClass} {text : List Char} :
    StopsAt barred.contains text ↔ CharClass.bars (some barred) text = false := by
  cases text with
  | nil => exact iff_of_true (stopsAt_nil _) rfl
  | cons d text => exact stopsAt_cons

theorem takeWhile_append_of_stopsAt {p : Char → Bool} {run more : List Char}
    (hr : ∀ d ∈ run, p d = true) (hs : StopsAt p more) : (run ++ more).takeWhile p = run := by
  rw [List.takeWhile_append_of_pos hr]
  cases more with
  | nil => simp
  | cons d more => simp [stopsAt_cons.1 hs]

theorem dropWhile_append_of_stopsAt {p : Char → Bool} {run more : List Char}
    (hr : ∀ d ∈ run, p d = true) (hs : StopsAt p more) : (run ++ more).dropWhile p = more := by
  rw [List.dropWhile_append_of_pos hr]
  cases more with
  | nil => rfl
  | cons d more => simp [stopsAt_cons.1 hs]

theorem forall_mem_takeWhile (p : Char → Bool) (text : List Char) :
    ∀ d ∈ text.takeWhile p, p d = true := by
  induction text with
  | nil => simp
  | cons e text ih =>
    by_cases he : p e = true
    · simpa [he] using ih
    · simp [he]

/-- A text is cut where a property stops. -/
theorem cut_where_stops (p : Char → Bool) (text : List Char) :
    text = text.takeWhile p ++ text.dropWhile p ∧ (∀ d ∈ text.takeWhile p, p d = true) ∧
      StopsAt p (text.dropWhile p) :=
  ⟨List.takeWhile_append_dropWhile.symm, forall_mem_takeWhile p text, stopsAt_dropWhile p text⟩

theorem takeWhile_append_tail {p : Char → Bool} {tail : List Char} (ht : StopsAt p tail)
    (text : List Char) : (text ++ tail).takeWhile p = text.takeWhile p := by
  obtain ⟨hcut, hrun, hstop⟩ := cut_where_stops p text
  generalize text.takeWhile p = run at hcut hrun ⊢
  rw [hcut, List.append_assoc]
  exact takeWhile_append_of_stopsAt hrun (hstop.append ht)

theorem dropWhile_append_tail {p : Char → Bool} {tail : List Char} (ht : StopsAt p tail)
    (text : List Char) : (text ++ tail).dropWhile p = text.dropWhile p ++ tail := by
  obtain ⟨hcut, hrun, hstop⟩ := cut_where_stops p text
  generalize text.dropWhile p = more at hcut hstop ⊢
  rw [hcut, List.append_assoc]
  exact dropWhile_append_of_stopsAt hrun (hstop.append ht)

namespace Verdict

variable {text t slice more : List Char}

/-! ## Spellings, identifiers and comments -/

theorem ofSpelling_eq_matched_iff {word : List Char} {notBefore : Option CharClass} :
    ofSpelling word notBefore text = matched t slice more ↔
      text = slice ++ more ∧ slice.map Char.toLower = word.map Char.toLower ∧ t = word ∧
        CharClass.bars notBefore more = false := by
  constructor
  · intro h
    unfold ofSpelling at h
    split at h
    · rename_i hc
      cases h
      exact ⟨(List.take_append_drop _ _).symm, hc.1, rfl, hc.2⟩
    · cases h
  · intro h
    obtain ⟨rfl, hw, rfl, hb⟩ := h
    have hlen : t.length = slice.length := by simpa using (congrArg List.length hw).symm
    unfold ofSpelling
    rw [hlen, List.take_left, List.drop_left, if_pos ⟨hw, hb⟩]

theorem ofIdentifier_eq_matched_iff :
    ofIdentifier text = matched t slice more ↔
      text = slice ++ more ∧ t = slice ∧ (∃ d word, slice = d :: word ∧ d.isAlpha = true ∧
        ∀ e ∈ word, isWordPart e = true) ∧ StopsAt isWordPart more := by
  constructor
  · intro h
    cases text with
    | nil => cases h
    | cons d text =>
      simp only [ofIdentifier] at h
      split at h
      · rename_i hd
        cases h
        obtain ⟨hcut, hword, hstop⟩ := cut_where_stops isWordPart text
        exact ⟨by rw [List.cons_append, ← hcut], rfl, ⟨d, _, rfl, hd, hword⟩, hstop⟩
      · cases h
  · intro h
    obtain ⟨rfl, rfl, ⟨d, word, rfl, hd, hword⟩, hstop⟩ := h
    simp only [List.cons_append, ofIdentifier, hd, if_true, takeWhile_append_of_stopsAt hword hstop,
      dropWhile_append_of_stopsAt hword hstop]

theorem ofComment_eq_matched_iff :
    ofComment text = matched t slice more ↔
      text = slice ++ more ∧ slice = '#' :: t ∧ '\n' ∉ t ∧ StopsAt (· ≠ '\n') more := by
  constructor
  · intro h
    unfold ofComment at h
    split at h
    · rename_i body
      cases h
      obtain ⟨hcut, hline, hstop⟩ := cut_where_stops (· ≠ '\n') body
      refine ⟨by rw [List.cons_append, ← hcut], rfl, fun hm => ?_, hstop⟩
      simpa using hline _ hm
    · cases h
  · intro h
    obtain ⟨rfl, rfl, hline, hstop⟩ := h
    have hr : ∀ d ∈ t, (decide (d ≠ '\n')) = true := by
      intro d hd
      have hne : d ≠ '\n' := fun he => hline (by rwa [← he])
      simp [hne]
    simp only [List.cons_append, ofComment, takeWhile_append_of_stopsAt hr hstop,
      dropWhile_append_of_stopsAt hr hstop]

/-! ## Strings -/

/-- Reading a literal takes nothing from behind its closing quote into account. -/
theorem literalBody_append {older out rest : List Char} {count total : Nat}
    (h : Recognizer.literalBody older count rest = some (out, total)) :
    ∃ read more, rest = read ++ more ∧ total = count + read.length ∧
      ∀ count' more', Recognizer.literalBody older count' (read ++ more') =
        some (out, count' + read.length) := by
  induction rest generalizing older count with
  | nil => cases h
  | cons d rest ih =>
    unfold Recognizer.literalBody at h
    split at h
    · rename_i closed hstep
      cases h
      refine ⟨[d], rest, rfl, rfl, fun count' more' => ?_⟩
      simp [Recognizer.literalBody, hstep]
    · rename_i newer hstep
      obtain ⟨read, more, rfl, rfl, hread⟩ := ih h
      refine ⟨d :: read, more, rfl, by simp; omega, fun count' more' => ?_⟩
      simp only [List.cons_append, Recognizer.literalBody, hstep, hread, List.length_cons]
      congr 2
      omega

/-- `read` is the body of a literal with its closing quote, and `t` what it stands for. -/
def IsBody (read t : List Char) : Prop := Recognizer.literalBody [] 0 read = some (t, read.length)

theorem literalBody_of_isBody {read : List Char} (h : IsBody read t) (more : List Char) :
    Recognizer.literalBody [] 0 (read ++ more) = some (t, read.length) := by
  obtain ⟨read', more', hcut, hlen, hread⟩ := literalBody_append h
  have hnil : more' = [] := by
    have := congrArg List.length hcut
    rw [List.length_append] at this
    exact List.eq_nil_of_length_eq_zero (by omega)
  rw [hcut, hnil, List.append_nil, hread 0 more, Nat.zero_add]

theorem isBody_of_literalBody {rest : List Char} {count : Nat}
    (h : Recognizer.literalBody [] 0 rest = some (t, count)) :
    ∃ read more, rest = read ++ more ∧ read.length = count ∧ IsBody read t := by
  obtain ⟨read, more, hcut, hlen, hread⟩ := literalBody_append h
  refine ⟨read, more, hcut, by omega, ?_⟩
  have := hread 0 []
  rwa [List.append_nil, Nat.zero_add] at this

theorem eq_quote_of_closed {older out : List Char} {d : Char}
    (h : Recognizer.pushLiteral older d = .closed out) : d = '"' := by
  unfold Recognizer.pushLiteral Recognizer.pushPlain at h
  repeat' split at h
  all_goals first | assumption | cases h

/-- A body ends with the quote that closes it. -/
theorem getLast?_of_literalBody {older out read : List Char} {count : Nat}
    (h : Recognizer.literalBody older count read = some (out, count + read.length)) :
    read.getLast? = some '"' := by
  induction read generalizing older count with
  | nil => cases h
  | cons d read ih =>
    unfold Recognizer.literalBody at h
    split at h
    · rename_i closed hstep
      have hlen := congrArg Prod.snd (Option.some.inj h)
      obtain rfl : read = [] := List.eq_nil_of_length_eq_zero (by
        simp only [List.length_cons] at hlen
        omega)
      rw [eq_quote_of_closed hstep]
      rfl
    · rw [List.length_cons, show count + (read.length + 1) = count + 1 + read.length by omega] at h
      rw [List.getLast?_cons, ih h]
      rfl

theorem getLast?_of_isBody {read : List Char} (h : IsBody read t) : read.getLast? = some '"' := by
  rw [IsBody, ← Nat.zero_add read.length] at h
  exact getLast?_of_literalBody h

theorem ofString_eq_matched_iff :
    ofString text = matched t slice more ↔
      text = slice ++ more ∧ ∃ read, slice = '"' :: read ∧ IsBody read t := by
  constructor
  · intro h
    unfold ofString at h
    split at h
    · rename_i body
      split at h
      · rename_i out count hbody
        cases h
        obtain ⟨read, more, rfl, rfl, hread⟩ := isBody_of_literalBody hbody
        rw [List.take_left, List.drop_left]
        exact ⟨rfl, read, rfl, hread⟩
      · cases h
    · cases h
  · intro h
    obtain ⟨rfl, read, rfl, hread⟩ := h
    simp only [List.cons_append, ofString, literalBody_of_isBody hread, List.take_left,
      List.drop_left]

/-! ## Numbers -/

theorem ofDigits_eq_matched_iff {ending : DigitsEnd} {t' slice' more' : List Char} :
    ofDigits ending t' slice' more' = matched t slice more ↔
      ending = .good ∧ t' = t ∧ slice' = slice ∧ more' = more := by
  cases ending <;> simp

/-- Digits, and what must hold behind them. -/
structure IsNumeral (settings : LexerSettings) (digits more : List Char) : Prop where
  ne_nil : digits ≠ []
  digit : ∀ d ∈ digits, d.isDigit = true
  stops : StopsAt Char.isDigit more
  ends : endBefore settings false more = .good

theorem digitsEnd_append (settings : LexerSettings) (dotEnds : Bool) {digits : List Char}
    (hne : digits ≠ []) (hd : ∀ d ∈ digits, d.isDigit = true) (hs : StopsAt Char.isDigit more) :
    digitsEnd settings dotEnds (digits ++ more) = endBefore settings dotEnds more := by
  rw [digitsEnd, takeWhile_append_of_stopsAt hd hs, dropWhile_append_of_stopsAt hd hs, if_neg hne]

theorem digitsEnd_eq_good {settings : LexerSettings} {dotEnds : Bool}
    (h : digitsEnd settings dotEnds text = .good) :
    text.takeWhile Char.isDigit ≠ [] ∧
      endBefore settings dotEnds (text.dropWhile Char.isDigit) = .good := by
  unfold digitsEnd at h
  split at h
  · cases h
  · exact ⟨‹_›, h⟩

theorem ofFraction_eq_matched_iff {settings : LexerSettings} {lead whole : List Char} :
    ofFraction settings lead whole text = matched t slice more ↔
      ∃ part, text = part ++ more ∧ slice = whole ++ part ∧ t = lead ++ whole ++ part ∧
        IsNumeral settings part more := by
  rw [ofFraction, ofDigits_eq_matched_iff]
  constructor
  · intro h
    obtain ⟨hend, rfl, rfl, rfl⟩ := h
    obtain ⟨hcut, hdigit, hstop⟩ := cut_where_stops Char.isDigit text
    obtain ⟨hne, hends⟩ := digitsEnd_eq_good hend
    exact ⟨_, hcut, rfl, rfl, hne, hdigit, hstop, hends⟩
  · intro h
    obtain ⟨part, rfl, rfl, rfl, hne, hdigit, hstop, hends⟩ := h
    rw [digitsEnd_append settings false hne hdigit hstop, takeWhile_append_of_stopsAt hdigit hstop,
      dropWhile_append_of_stopsAt hdigit hstop]
    exact ⟨hends, rfl, rfl, rfl⟩

theorem ofLong_eq_ofFraction (settings : LexerSettings) (text : List Char) :
    ofLong settings text = ofFraction settings [] [] text := rfl

theorem ofLong_eq_matched_iff {settings : LexerSettings} :
    ofLong settings text = matched t slice more ↔
      text = slice ++ more ∧ t = slice ∧ IsNumeral settings slice more := by
  rw [ofLong_eq_ofFraction, ofFraction_eq_matched_iff]
  constructor
  · intro h
    obtain ⟨part, rfl, rfl, rfl, hnum⟩ := h
    exact ⟨rfl, rfl, hnum⟩
  · intro h
    obtain ⟨rfl, rfl, hnum⟩ := h
    exact ⟨t, rfl, rfl, rfl, hnum⟩

/-- The token text of a fraction has a digit before the dot. -/
def fractionText (whole part : List Char) : List Char :=
  (if whole = [] then ['0'] else []) ++ (whole ++ '.' :: part)

theorem ofDouble_eq_matched_iff {settings : LexerSettings} :
    ofDouble settings text = matched t slice more ↔
      text = slice ++ more ∧ ∃ whole part, slice = whole ++ '.' :: part ∧
        t = fractionText whole part ∧ (∀ d ∈ whole, d.isDigit = true) ∧
        IsNumeral settings part more := by
  constructor
  · intro h
    unfold ofDouble at h
    split at h
    · rename_i hdot
      obtain ⟨after, rfl⟩ := List.head?_eq_some_iff.1 hdot
      obtain ⟨part, hcut, rfl, rfl, hnum⟩ := ofFraction_eq_matched_iff.1 h
      rw [List.tail_cons] at hcut
      exact ⟨by simp [hcut], [], part, rfl, rfl, by simp, hnum⟩
    · split at h
      · rename_i hend
        obtain ⟨hcut, hdigit, -⟩ := cut_where_stops Char.isDigit text
        obtain ⟨hne, -⟩ := digitsEnd_eq_good hend
        generalize text.takeWhile Char.isDigit = whole at h hcut hdigit hne
        generalize text.dropWhile Char.isDigit = behind at h hcut
        unfold ofWhole at h
        split at h
        · rename_i after
          obtain ⟨part, rfl, rfl, rfl, hnum⟩ := ofFraction_eq_matched_iff.1 h
          exact ⟨by simp [hcut], whole, part, by simp, by simp [fractionText, hne], hdigit, hnum⟩
        · cases h
      · cases h
      · cases h
  · intro h
    obtain ⟨rfl, whole, part, rfl, rfl, hdigit, hnum⟩ := h
    cases whole with
    | nil =>
      rw [show ([] ++ '.' :: part) ++ more = '.' :: (part ++ more) from rfl]
      unfold ofDouble
      rw [if_pos List.head?_cons]
      exact ofFraction_eq_matched_iff.2 ⟨part, rfl, rfl, rfl, hnum⟩
    | cons d whole =>
      have hd := hdigit d List.mem_cons_self
      have hne : d ≠ '.' := by
        intro he
        subst he
        cases hd
      have hstop : StopsAt Char.isDigit ('.' :: (part ++ more)) := stopsAt_cons.2 rfl
      have hend : digitsEnd settings true ((d :: whole) ++ '.' :: (part ++ more)) = .good := by
        rw [digitsEnd_append settings true (List.cons_ne_nil d whole) hdigit hstop]
        simp [endBefore]
      rw [show (d :: whole ++ '.' :: part) ++ more = (d :: whole) ++ '.' :: (part ++ more) by simp]
      unfold ofDouble
      rw [if_neg (by simpa using hne), hend, takeWhile_append_of_stopsAt hdigit hstop,
        dropWhile_append_of_stopsAt hdigit hstop]
      exact ofFraction_eq_matched_iff.2 ⟨part, rfl, by simp, by simp [fractionText], hnum⟩

end Verdict

/-! ## Literals that are never closed -/

/-- Digits with at most one dot among them, a digit at the end. -/
structure IsNumberSlice (slice : List Char) : Prop where
  digits : ∀ d ∈ slice, d.isDigit = true ∨ d = '.'
  dots : slice.count '.' ≤ 1
  ends : ∃ d ∈ slice.getLast?, d.isDigit = true

theorem count_dot_of_digits {digits : List Char} (hd : ∀ d ∈ digits, d.isDigit = true) :
    digits.count '.' = 0 := by
  refine List.count_eq_zero.2 fun hmem => ?_
  have hdot := hd '.' hmem
  simp at hdot

section
variable {whole part : List Char} (hne : part ≠ []) (hp : ∀ d ∈ part, d.isDigit = true)
include hne hp

theorem isDigit_getLast : ∃ d ∈ part.getLast?, d.isDigit = true :=
  ⟨part.getLast hne, List.getLast?_eq_some_getLast hne, hp _ (List.getLast_mem hne)⟩

theorem isNumberSlice_of_digits : IsNumberSlice part where
  digits d hd := .inl (hp d hd)
  dots := by
    rw [count_dot_of_digits hp]
    exact Nat.zero_le 1
  ends := isDigit_getLast hne hp

theorem isNumberSlice_of_fraction (hw : ∀ d ∈ whole, d.isDigit = true) :
    IsNumberSlice (whole ++ '.' :: part) where
  digits d hd := by
    rcases List.mem_append.1 hd with hd | hd
    · exact .inl (hw d hd)
    · rcases List.mem_cons.1 hd with rfl | hd
      · exact .inr rfl
      · exact .inl (hp d hd)
  dots := Nat.le_of_eq (by
    rw [List.count_append, List.count_cons_self, count_dot_of_digits hw, count_dot_of_digits hp])
  ends := by
    obtain ⟨d, hd, hdigit⟩ := isDigit_getLast hne hp
    refine ⟨d, ?_, hdigit⟩
    rw [Option.mem_def] at hd ⊢
    rw [List.getLast?_append, List.getLast?_cons, hd]
    rfl

end

theorem open_of_followEnd {kinds : List Kind} {text : List Char}
    (h : followEnd kinds text = .unterminated) : ∃ body, text = '"' :: body ∧ Unclosed body := by
  unfold followEnd at h
  split at h
  · cases h
  · split at h
    · rename_i k _ skipped hv
      exact (open_of_plainVerdict hv).2
    · cases h

theorem open_of_digitsEnd {settings : LexerSettings} {dotEnds : Bool} {text : List Char}
    (h : digitsEnd settings dotEnds text = .unterminated) :
    text.takeWhile Char.isDigit ≠ [] ∧
      ∃ body, text = text.takeWhile Char.isDigit ++ '"' :: body ∧ Unclosed body := by
  unfold digitsEnd at h
  split at h
  · cases h
  · rename_i hne
    refine ⟨hne, ?_⟩
    have hcut : text.takeWhile Char.isDigit ++ text.dropWhile Char.isDigit = text :=
      List.takeWhile_append_dropWhile
    generalize text.takeWhile Char.isDigit = digits at hcut ⊢
    generalize text.dropWhile Char.isDigit = more at h hcut
    subst hcut
    cases more with
    | nil => cases h
    | cons d more =>
      simp only [endBefore] at h
      split at h
      · cases h
      · obtain ⟨body, hbody, hopen⟩ := open_of_followEnd h
        exact ⟨body, by rw [hbody], hopen⟩

namespace Verdict

variable {settings : LexerSettings} {text skipped : List Char}

theorem open_of_ofFraction {lead whole : List Char}
    (h : ofFraction settings lead whole text = unterminated skipped) :
    ∃ part body, text = part ++ '"' :: body ∧ Unclosed body ∧ skipped = whole ++ part ∧
      part ≠ [] ∧ ∀ d ∈ part, d.isDigit = true := by
  unfold ofFraction at h
  cases hend : digitsEnd settings false text with
  | good =>
    rw [hend] at h
    cases h
  | bad =>
    rw [hend] at h
    cases h
  | unterminated =>
    rw [hend] at h
    cases h
    obtain ⟨hne, body, hbody, hopen⟩ := open_of_digitsEnd hend
    exact ⟨_, body, hbody, hopen, rfl, hne, forall_mem_takeWhile Char.isDigit text⟩

theorem open_of_ofLong (h : ofLong settings text = unterminated skipped) :
    ∃ body, text = skipped ++ '"' :: body ∧ Unclosed body ∧ IsNumberSlice skipped := by
  rw [ofLong_eq_ofFraction] at h
  obtain ⟨part, body, hcut, hopen, rfl, hne, hpart⟩ := open_of_ofFraction h
  exact ⟨body, hcut, hopen, isNumberSlice_of_digits hne hpart⟩

theorem open_of_ofDouble (h : ofDouble settings text = unterminated skipped) :
    ∃ body, text = skipped ++ '"' :: body ∧ Unclosed body ∧ IsNumberSlice skipped := by
  unfold ofDouble at h
  split at h
  · rename_i hdot
    obtain ⟨after, rfl⟩ := List.head?_eq_some_iff.1 hdot
    obtain ⟨part, body, hcut, hopen, rfl, hne, hpart⟩ := open_of_ofFraction h
    rw [List.tail_cons] at hcut
    exact ⟨body, by rw [hcut]; rfl, hopen,
      show IsNumberSlice ([] ++ '.' :: part) from isNumberSlice_of_fraction hne hpart (by simp)⟩
  · split at h
    · obtain ⟨hcut, hwhole, -⟩ := cut_where_stops Char.isDigit text
      generalize text.takeWhile Char.isDigit = whole at h hcut hwhole
      generalize text.dropWhile Char.isDigit = more at h hcut
      subst hcut
      unfold ofWhole at h
      split at h
      · obtain ⟨part, body, rfl, hopen, rfl, hne, hpart⟩ := open_of_ofFraction h
        rw [List.append_assoc, List.singleton_append]
        exact ⟨body, by simp, hopen, isNumberSlice_of_fraction hne hpart hwhole⟩
      · cases h
    · cases h
    · rename_i hend
      cases h
      obtain ⟨hne, body, hcut, hopen⟩ := open_of_digitsEnd hend
      exact ⟨body, hcut, hopen,
        isNumberSlice_of_digits hne (forall_mem_takeWhile Char.isDigit text)⟩

end Verdict

/-! ## Every kind -/

open Verdict

variable {settings : LexerSettings} {text t slice more : List Char}

theorem ne_nil_of_spelling {k : Kind} {word : String} {notBefore : Option CharClass}
    (h : k.rule = .spelling word notBefore) : word.toList ≠ [] := by
  cases k <;> cases h <;> decide

/-- The slices that the rule reads for a token with the text `t`. -/
def Rule.Shapes (rule : Rule) (slice t : List Char) : Prop :=
  match rule with
  | spelling word _ => slice.map Char.toLower = word.toList.map Char.toLower ∧ t = word.toList
  | identifier =>
    t = slice ∧ ∃ d word, slice = d :: word ∧ d.isAlpha = true ∧ ∀ e ∈ word, isWordPart e = true
  | long => t = slice ∧ slice ≠ [] ∧ ∀ d ∈ slice, d.isDigit = true
  | double =>
    ∃ whole part, slice = whole ++ '.' :: part ∧ t = fractionText whole part ∧
      (∀ d ∈ whole, d.isDigit = true) ∧ part ≠ [] ∧ ∀ d ∈ part, d.isDigit = true
  | string => ∃ read, slice = '"' :: read ∧ IsBody read t
  | comment => slice = '#' :: t ∧ '\n' ∉ t

/-- What may stand behind a slice of the rule. -/
def Rule.Allows (settings : LexerSettings) (rule : Rule) (more : List Char) : Prop :=
  match rule with
  | spelling _ notBefore => CharClass.bars notBefore more = false
  | identifier => StopsAt isWordPart more
  | long | double => StopsAt Char.isDigit more ∧ endBefore settings false more = .good
  | string => True
  | comment => StopsAt (· ≠ '\n') more

theorem ne_nil_of_shapes {k : Kind} (h : k.rule.Shapes slice t) : slice ≠ [] := by
  cases hr : k.rule with
  | spelling word notBefore =>
    rw [hr] at h
    intro hnil
    rw [hnil] at h
    exact ne_nil_of_spelling hr (List.map_eq_nil_iff.1 h.1.symm)
  | identifier =>
    rw [hr] at h
    obtain ⟨-, d, word, rfl, -⟩ := h
    exact List.cons_ne_nil d word
  | long =>
    rw [hr] at h
    exact h.2.1
  | double =>
    rw [hr] at h
    obtain ⟨whole, part, rfl, -⟩ := h
    exact List.append_ne_nil_of_right_ne_nil whole (List.cons_ne_nil _ part)
  | string =>
    rw [hr] at h
    obtain ⟨read, rfl, -⟩ := h
    exact List.cons_ne_nil _ read
  | comment =>
    rw [hr] at h
    rw [h.1]
    exact List.cons_ne_nil _ t

theorem Rule.verdict_eq_matched_iff {rule : Rule} :
    rule.verdict settings text = .matched t slice more ↔
      text = slice ++ more ∧ rule.Shapes slice t ∧ rule.Allows settings more := by
  cases rule with
  | spelling word notBefore =>
    refine ofSpelling_eq_matched_iff.trans ⟨fun h => ?_, fun h => ?_⟩
    · exact ⟨h.1, ⟨h.2.1, h.2.2.1⟩, h.2.2.2⟩
    · exact ⟨h.1, h.2.1.1, h.2.1.2, h.2.2⟩
  | identifier =>
    refine ofIdentifier_eq_matched_iff.trans ⟨fun h => ?_, fun h => ?_⟩
    · exact ⟨h.1, ⟨h.2.1, h.2.2.1⟩, h.2.2.2⟩
    · exact ⟨h.1, h.2.1.1, h.2.1.2, h.2.2⟩
  | long =>
    refine ofLong_eq_matched_iff.trans ⟨fun h => ?_, fun h => ?_⟩
    · obtain ⟨hcut, ht, hnum⟩ := h
      exact ⟨hcut, ⟨ht, hnum.ne_nil, hnum.digit⟩, hnum.stops, hnum.ends⟩
    · obtain ⟨hcut, ⟨ht, hne, hdigit⟩, hstops, hends⟩ := h
      exact ⟨hcut, ht, hne, hdigit, hstops, hends⟩
  | double =>
    refine ofDouble_eq_matched_iff.trans ⟨fun h => ?_, fun h => ?_⟩
    · obtain ⟨hcut, whole, part, hslice, ht, hwhole, hnum⟩ := h
      exact ⟨hcut, ⟨whole, part, hslice, ht, hwhole, hnum.ne_nil, hnum.digit⟩, hnum.stops, hnum.ends⟩
    · obtain ⟨hcut, ⟨whole, part, hslice, ht, hwhole, hne, hdigit⟩, hstops, hends⟩ := h
      exact ⟨hcut, whole, part, hslice, ht, hwhole, hne, hdigit, hstops, hends⟩
  | string =>
    refine ofString_eq_matched_iff.trans ⟨fun h => ?_, fun h => ?_⟩
    · exact ⟨h.1, h.2, trivial⟩
    · exact ⟨h.1, h.2.1⟩
  | comment =>
    refine ofComment_eq_matched_iff.trans ⟨fun h => ?_, fun h => ?_⟩
    · exact ⟨h.1, ⟨h.2.1, h.2.2.1⟩, h.2.2.2⟩
    · exact ⟨h.1, h.2.1.1, h.2.1.2, h.2.2⟩

/-- A match cuts the text in a slice of the kind's shape and something that may stand behind it. -/
theorem verdict_eq_matched_iff {k : Kind} : k.verdict settings text = .matched t slice more ↔
    text = slice ++ more ∧ k.rule.Shapes slice t ∧ k.rule.Allows settings more := by
  by_cases hne : text = []
  · subst hne
    constructor
    · intro h
      cases h
    · intro h
      exact absurd (List.append_eq_nil_iff.1 h.1.symm).1 (ne_nil_of_shapes h.2.1)
  · rw [Kind.verdict_of_ne hne]
    exact Rule.verdict_eq_matched_iff

theorem shapes_of_verdict {k : Kind} (h : k.verdict settings text = .matched t slice more) :
    text = slice ++ more ∧ k.rule.Shapes slice t :=
  ⟨(verdict_eq_matched_iff.1 h).1, (verdict_eq_matched_iff.1 h).2.1⟩

/-- A match cuts the text in what was read and what is left, and something was read. -/
theorem cut_of_verdict {k : Kind} (h : k.verdict settings text = .matched t slice more) :
    text = slice ++ more ∧ slice ≠ [] := by
  obtain ⟨hcut, hshape⟩ := shapes_of_verdict h
  exact ⟨hcut, ne_nil_of_shapes hshape⟩

/-- A literal that is never closed opens behind what was skipped, which is nothing or one number. -/
theorem open_of_verdict {k : Kind} {skipped : List Char}
    (h : k.verdict settings text = .unterminated skipped) :
    ∃ body, text = skipped ++ '"' :: body ∧ Unclosed body ∧
      (skipped = [] ∨ IsNumberSlice skipped) := by
  have hne : text ≠ [] := by
    intro he
    subst he
    cases h
  rw [Kind.verdict_of_ne hne] at h
  by_cases hl : k.rule = .long
  · rw [hl] at h
    obtain ⟨body, hcut, hopen, hnumber⟩ := open_of_ofLong h
    exact ⟨body, hcut, hopen, .inr hnumber⟩
  by_cases hd : k.rule = .double
  · rw [hd] at h
    obtain ⟨body, hcut, hopen, hnumber⟩ := open_of_ofDouble h
    exact ⟨body, hcut, hopen, .inr hnumber⟩
  rw [Rule.verdict_eq_plainVerdict hl hd] at h
  obtain ⟨rfl, body, hbody, hopen⟩ := open_of_plainVerdict h
  exact ⟨body, hbody, hopen, .inl rfl⟩

end ExprLex
