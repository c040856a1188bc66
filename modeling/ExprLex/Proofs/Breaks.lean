/-
  ExprLex.Proofs.Breaks — what is read in front of a break does not depend on what begins there.

  A break is the end of the text, a line break or a hash. No spelling goes over one, no class bars
  one, every run of letters or digits stops at one, and a number may end in front of one. Only a
  literal waits for something behind a break, so text there matters only by closing a literal
  (`DigitsEnd.ClosesTo`). Hence the kinds answer in front of a break as they do at the end of the
  text (`isHit_append`), the first that answers is the same (`firstHit_append`), and so is what may
  stand behind a slice (`Rule.Allows.append`).
-/

import ExprLex.Proofs.Lexing
import ExprLex.Proofs.Overlap
import Mathlib.Data.List.Find

namespace ExprLex

variable {settings : LexerSettings} {text tail m : List Char}

/-- The text is over or begins with a line break or a hash. -/
def Breaks (tail : List Char) : Prop := ∀ d ∈ tail.head?, d = '\n' ∨ d = '#'

theorem breaks_of_line (hstop : StopsAt (· ≠ '\n') tail) : Breaks tail := by
  intro d hd
  exact .inl (by simpa using hstop d hd)

theorem Breaks.stopsAt (hb : Breaks tail) {p : Char → Bool} (hline : p '\n' = false)
    (hhash : p '#' = false) : StopsAt p tail := by
  intro d hd
  rcases hb d hd with rfl | rfl
  · exact hline
  · exact hhash

/-! ## Kinds that do not look ahead -/

theorem bars_append (hb : Breaks tail) (notBefore : Option CharClass) (text : List Char) :
    CharClass.bars notBefore (text ++ tail) = CharClass.bars notBefore text := by
  cases notBefore with
  | none => rfl
  | some barred =>
    cases text with
    | cons d text => rfl
    | nil =>
      have hstop : StopsAt barred.contains tail :=
        hb.stopsAt (by cases barred <;> decide) (by cases barred <;> decide)
      exact stopsAt_iff_bars.1 hstop

/-- No spelling goes over a break. -/
theorem Kind.unbroken {k : Kind} {word : String} {notBefore : Option CharClass}
    (h : k.rule = .spelling word notBefore) :
    '\n' ∉ word.toList.map Char.toLower ∧ '#' ∉ word.toList.map Char.toLower := by
  have check : ∀ k ∈ all, ∀ word ∈ k.representation?,
      '\n' ∉ word.toList.map Char.toLower ∧ '#' ∉ word.toList.map Char.toLower := by
    decide +kernel
  exact check k k.mem_all word (by rw [representation?, h]; rfl)

namespace Verdict

theorem isHit_ofSpelling_append {word : List Char} (hline : '\n' ∉ word.map Char.toLower)
    (hhash : '#' ∉ word.map Char.toLower) (notBefore : Option CharClass) (hb : Breaks tail)
    (text : List Char) :
    (ofSpelling word notBefore (text ++ tail)).isHit = (ofSpelling word notBefore text).isHit := by
  rw [Bool.eq_iff_iff, isHit_ofSpelling, isHit_ofSpelling]
  by_cases hle : word.length ≤ text.length
  · rw [List.take_append_of_le_length hle, List.drop_append_of_le_length hle, bars_append hb]
  · have hshort : ¬ ((text.take word.length).map Char.toLower = word.map Char.toLower) := by
      intro hword
      have hlen := congrArg List.length hword
      simp only [List.length_map, List.length_take] at hlen
      omega
    refine iff_of_false ?_ fun h => hshort h.1
    rintro ⟨hword, -⟩
    cases tail with
    | nil => exact hshort (by simpa using hword)
    | cons d tail =>
      -- the spelling reaches over the break, so it holds the break's character
      obtain ⟨n, hn⟩ : ∃ n, word.length = text.length + (n + 1) :=
        ⟨word.length - text.length - 1, by omega⟩
      have hmem : d.toLower ∈ word.map Char.toLower := by
        rw [← hword, hn, List.take_length_add_append]
        simp
      rcases hb d rfl with rfl | rfl
      · exact hline hmem
      · exact hhash hmem

end Verdict

theorem isHit_plainVerdict_append (k : Kind) (hne : text ≠ []) (hb : Breaks tail) :
    (k.rule.plainVerdict (text ++ tail)).isHit = (k.rule.plainVerdict text).isHit := by
  obtain ⟨d, text, rfl⟩ := List.exists_cons_of_ne_nil hne
  cases hr : k.rule with
  | spelling word notBefore =>
    obtain ⟨hline, hhash⟩ := Kind.unbroken hr
    exact Verdict.isHit_ofSpelling_append hline hhash notBefore hb (d :: text)
  | identifier =>
    exact Bool.eq_iff_iff.2 (Verdict.isHit_ofIdentifier.trans Verdict.isHit_ofIdentifier.symm)
  | string => exact Bool.eq_iff_iff.2 (Verdict.isHit_ofString.trans Verdict.isHit_ofString.symm)
  | comment => exact Bool.eq_iff_iff.2 (Verdict.isHit_ofComment.trans Verdict.isHit_ofComment.symm)
  | long => rfl
  | double => rfl

/-! ## Where digits end -/

/-- `e'` is what `e` becomes with more text behind: the same, or a literal is now closed. -/
def DigitsEnd.ClosesTo (e e' : DigitsEnd) : Prop := e' = e ∨ e = .unterminated ∧ e' = .good

namespace DigitsEnd.ClosesTo

variable {e e' : DigitsEnd} (h : e.ClosesTo e')
include h

theorem bad_iff : e' = .bad ↔ e = .bad := by
  rcases h with rfl | ⟨rfl, rfl⟩ <;> simp

theorem good (hgood : e = .good) : e' = .good := by
  rcases h with rfl | ⟨-, rfl⟩
  · exact hgood
  · rfl

theorem good_of_closed (hgood : e' = .good) (hclosed : e ≠ .unterminated) : e = .good := by
  rcases h with rfl | ⟨hopen, -⟩
  · exact hgood
  · exact absurd hopen hclosed

end DigitsEnd.ClosesTo

/-- A literal that stays open was open already. -/
theorem unterminated_of_append {k : Kind} {skipped : List Char} (hne : text ≠ [])
    (h : k.rule.plainVerdict (text ++ tail) = .unterminated skipped) :
    ∃ skipped', k.rule.plainVerdict text = .unterminated skipped' := by
  have hr := rule_of_plainVerdict h
  rw [hr] at h ⊢
  obtain ⟨-, body, hbody, -⟩ := open_of_plainVerdict h
  obtain ⟨d, text, rfl⟩ := List.exists_cons_of_ne_nil hne
  obtain ⟨rfl, -⟩ := List.cons.inj hbody
  have hhit : (Verdict.ofString ('"' :: text)).isHit = true := Verdict.isHit_ofString.2 rfl
  change ∃ skipped', Verdict.ofString ('"' :: text) = .unterminated skipped'
  cases hv : Verdict.ofString ('"' :: text) with
  | unterminated skipped' => exact ⟨skipped', rfl⟩
  | mismatch =>
    rw [hv] at hhit
    cases hhit
  | matched t slice more =>
    obtain ⟨hcut, hread⟩ := Verdict.ofString_eq_matched_iff.1 hv
    have hclosed : Verdict.ofString ('"' :: text ++ tail) = .matched t slice (more ++ tail) :=
      Verdict.ofString_eq_matched_iff.2 ⟨by rw [hcut, List.append_assoc], hread⟩
    cases hclosed.symm.trans h

theorem followEnd_closesTo (kinds : List Kind) (hne : text ≠ []) (hb : Breaks tail) :
    (followEnd kinds text).ClosesTo (followEnd kinds (text ++ tail)) := by
  have hsame : (fun k : Kind => (k.rule.plainVerdict (text ++ tail)).isHit) =
      fun k => (k.rule.plainVerdict text).isHit :=
    funext fun k => isHit_plainVerdict_append k hne hb
  unfold followEnd
  rw [hsame]
  cases kinds.find? fun k => (k.rule.plainVerdict text).isHit with
  | none => exact .inl rfl
  | some k =>
    cases hv' : k.rule.plainVerdict (text ++ tail) with
    | unterminated skipped =>
      obtain ⟨skipped', hv⟩ := unterminated_of_append hne hv'
      simp [hv, hv', DigitsEnd.ClosesTo]
    | _ => cases hv : k.rule.plainVerdict text <;> simp [hv, hv', DigitsEnd.ClosesTo]

/-- A number may end at a break. -/
theorem endBefore_of_breaks (hb : Breaks tail) (dotEnds : Bool) :
    endBefore settings dotEnds tail = .good := by
  cases tail with
  | nil => rfl
  | cons d tail =>
    rcases hb d rfl with rfl | rfl
    · simp [endBefore, LexerSettings.isSeparator]
    · have hfollow : followEnd Kind.nonNumeric ('#' :: tail) = .good := by
        cases hend : followEnd Kind.nonNumeric ('#' :: tail) with
        | good => rfl
        | bad => exact absurd hend (followEnd_ne_bad_iff.2 ⟨.comment, by decide, rfl⟩)
        | unterminated =>
          obtain ⟨body, hbody, -⟩ := open_of_followEnd hend
          cases hbody
      simp [endBefore, hfollow]

theorem endBefore_closesTo (dotEnds : Bool) (hb : Breaks tail) (text : List Char) :
    (endBefore settings dotEnds text).ClosesTo (endBefore settings dotEnds (text ++ tail)) := by
  cases text with
  | nil => exact .inl (endBefore_of_breaks hb dotEnds)
  | cons d text =>
    simp only [List.cons_append, endBefore]
    split
    · exact .inl rfl
    · exact followEnd_closesTo Kind.nonNumeric (List.cons_ne_nil d text) hb

theorem digitsEnd_closesTo (dotEnds : Bool) (hb : Breaks tail) (text : List Char) :
    (digitsEnd settings dotEnds text).ClosesTo (digitsEnd settings dotEnds (text ++ tail)) := by
  have hstop : StopsAt Char.isDigit tail := hb.stopsAt rfl rfl
  unfold digitsEnd
  rw [takeWhile_append_tail hstop, dropWhile_append_tail hstop]
  split
  · exact .inl rfl
  · exact endBefore_closesTo dotEnds hb _

/-! ## Numbers -/

namespace Verdict

theorem isHit_ofFraction_append (lead whole : List Char) (hb : Breaks tail) (text : List Char) :
    (ofFraction settings lead whole (text ++ tail)).isHit =
      (ofFraction settings lead whole text).isHit := by
  rw [Bool.eq_iff_iff, ofFraction, ofFraction, isHit_ofDigits, isHit_ofDigits, ne_eq, ne_eq,
    (digitsEnd_closesTo false hb text).bad_iff]

theorem isHit_ofWhole_append (digits : List Char) (hb : Breaks tail) (text : List Char) :
    (ofWhole settings digits (text ++ tail)).isHit = (ofWhole settings digits text).isHit := by
  have hother : ∀ d more, d ≠ '.' → ofWhole settings digits (d :: more) = mismatch := by
    intro d more hd
    simp [ofWhole, hd]
  cases text with
  | nil =>
    cases tail with
    | nil => rfl
    | cons d tail =>
      have hd : d ≠ '.' := by
        rcases hb d rfl with rfl | rfl <;> decide
      rw [List.nil_append, hother d tail hd]
      rfl
  | cons d text =>
    by_cases hd : d = '.'
    · subst hd
      exact isHit_ofFraction_append [] (digits ++ ['.']) hb text
    · rw [List.cons_append, hother d _ hd, hother d _ hd]

/-- Where a fraction meets a literal never closed in place of its dot, so does a whole number. -/
theorem isHit_ofLong_of_unterminated (h : digitsEnd settings true text = .unterminated) :
    (ofLong settings text).isHit = true := by
  obtain ⟨hne, body, hbody, -⟩ := open_of_digitsEnd h
  have hmore : text.dropWhile Char.isDigit = '"' :: body := by
    have hcut := List.takeWhile_append_dropWhile (p := Char.isDigit) (l := text)
    conv_rhs at hcut => rw [hbody]
    exact List.append_cancel_left hcut
  have hsame : digitsEnd settings false text = digitsEnd settings true text := by
    simp [digitsEnd, hne, hmore, endBefore]
  rw [ofLong, isHit_ofDigits, hsame, h]
  decide

theorem isHit_ofDouble_append (hne : text ≠ []) (hlong : (ofLong settings text).isHit = false)
    (hb : Breaks tail) :
    (ofDouble settings (text ++ tail)).isHit = (ofDouble settings text).isHit := by
  obtain ⟨d, text, rfl⟩ := List.exists_cons_of_ne_nil hne
  unfold ofDouble
  rw [List.cons_append, List.head?_cons, List.head?_cons]
  by_cases hd : some d = some '.'
  · rw [if_pos hd, if_pos hd]
    exact isHit_ofFraction_append ['0'] ['.'] hb text
  · rw [if_neg hd, if_neg hd, ← List.cons_append]
    have hends : (digitsEnd settings true (d :: text)).ClosesTo
        (digitsEnd settings true (d :: text ++ tail)) := digitsEnd_closesTo true hb (d :: text)
    have hstop : StopsAt Char.isDigit tail := hb.stopsAt rfl rfl
    cases hend : digitsEnd settings true (d :: text) with
    | good =>
      rw [hends.good hend, takeWhile_append_tail hstop, dropWhile_append_tail hstop]
      exact isHit_ofWhole_append _ hb _
    | bad => rw [hends.bad_iff.2 hend]
    | unterminated =>
      rw [isHit_ofLong_of_unterminated hend] at hlong
      cases hlong

end Verdict

/-! ## Every kind -/

variable {rule : Rule} {k : Kind}

/-- A kind answers in front of a break as at the end of the text. For a fraction this may fail where
a literal stands in place of its dot, which text behind the break may close; a whole number answers
there. -/
theorem isHit_append (hne : text ≠ [])
    (hlong : k.rule = .double → (Kind.long.verdict settings text).isHit = false)
    (hb : Breaks tail) :
    (k.verdict settings (text ++ tail)).isHit = (k.verdict settings text).isHit := by
  have hne' : text ++ tail ≠ [] := List.append_ne_nil_of_left_ne_nil hne tail
  rw [Kind.verdict_of_ne hne']
  rw [Kind.verdict_of_ne hne] at hlong ⊢
  by_cases hl : k.rule = .long
  · rw [hl]
    exact Verdict.isHit_ofFraction_append [] [] hb text
  by_cases hd : k.rule = .double
  · rw [hd]
    exact Verdict.isHit_ofDouble_append hne (hlong hd) hb
  rw [Rule.verdict_eq_plainVerdict hl hd]
  exact isHit_plainVerdict_append k hne hb

/-- The first kind to answer in front of a break is the first to answer at the end of the text. -/
theorem firstHit_append (hne : text ≠ []) (hb : Breaks tail) :
    firstHit settings Kind.trialOrder (text ++ tail) = firstHit settings Kind.trialOrder text := by
  have hcut : Kind.trialOrder = Kind.trialOrder.takeWhile (· ≠ .long) ++
      .long :: (Kind.trialOrder.dropWhile (· ≠ .long)).tail := by decide
  have hfront : ∀ k ∈ Kind.trialOrder.takeWhile (· ≠ .long), k.rule ≠ .double := by decide
  have hlong : (Kind.long.verdict settings (text ++ tail)).isHit =
      (Kind.long.verdict settings text).isHit := isHit_append hne (fun h => by cases h) hb
  by_cases hl : (Kind.long.verdict settings text).isHit = true
  · -- a whole number answers both times, so fractions are not tried
    rw [hcut, firstHit_append_order, firstHit_append_order, firstHit_cons_hit hl,
      firstHit_cons_hit (hlong.trans hl)]
    exact congrArg (Option.or · _) (List.find?_congr fun k hk =>
      isHit_append hne (fun hd => absurd hd (hfront k hk)) hb)
  · exact List.find?_congr fun k _ => isHit_append hne (fun _ => Bool.eq_false_iff.2 hl) hb

/-! ## Behind a slice -/

theorem Rule.Allows.append (h : rule.Allows settings m) (hb : Breaks tail)
    (hcomment : rule = .comment → StopsAt (· ≠ '\n') tail) : rule.Allows settings (m ++ tail) := by
  cases rule with
  | spelling word notBefore => exact (bars_append hb notBefore m).trans h
  | identifier => exact StopsAt.append h (hb.stopsAt (by decide) (by decide))
  | long => exact ⟨h.1.append (hb.stopsAt rfl rfl), (endBefore_closesTo false hb m).good h.2⟩
  | double => exact ⟨h.1.append (hb.stopsAt rfl rfl), (endBefore_closesTo false hb m).good h.2⟩
  | string => trivial
  | comment => exact StopsAt.append h (hcomment rfl)

theorem Rule.Allows.of_append (h : rule.Allows settings (m ++ tail)) (hb : Breaks tail)
    (hclosed : endBefore settings false m ≠ .unterminated) : rule.Allows settings m := by
  cases rule with
  | spelling word notBefore => exact (bars_append hb notBefore m).symm.trans h
  | identifier => exact StopsAt.of_append h
  | long => exact ⟨h.1.of_append, (endBefore_closesTo false hb m).good_of_closed h.2 hclosed⟩
  | double => exact ⟨h.1.of_append, (endBefore_closesTo false hb m).good_of_closed h.2 hclosed⟩
  | string => trivial
  | comment => exact StopsAt.of_append h

end ExprLex
