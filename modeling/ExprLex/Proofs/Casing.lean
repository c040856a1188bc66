/-
  ExprLex.Proofs.Casing — what a run finds does not depend on the case of letters.

  Two texts are alike if they are the same in lower case (`Alike`). What every kind asks of a
  character, but for the letters of a spelling, it asks alike of both cases (`CaseBlind`), and so
  do separators where the whitespace set has both cases of its letters. Hence two texts that are alike
  are cut in the same places and by the same kinds (`verdict_alike`), and two sources that are alike
  fall into lexemes that are (`lexing_alike`).

  The literals are the exception that has to be looked at: `\s` stands for an apostrophe and `\S` for
  itself, so the texts read so far differ, and where a literal closes is decided by that text. But only
  by how many backslashes it ends in, none, one or more (`slashes`), and that is alike.
-/

import ExprLex.Proofs.Escaping
import ExprLex.Proofs.Lexing
import ExprLex.Proofs.Overlap
import Mathlib.Data.List.Find
import Mathlib.Data.List.Forall2
import Mathlib.Data.Option.Defs

namespace ExprLex

variable {settings : LexerSettings} {text text' more more' : List Char} {c d : Char}

/-! ## Characters -/

/-- The property holds of both cases of a letter or of neither. -/
def CaseBlind (p : Char → Bool) : Prop := ∀ c, p c.toLower = p c

theorem CaseBlind.eq {p : Char → Bool} (hp : CaseBlind p) (h : c.toLower = d.toLower) : p c = p d := by
  rw [← hp c, h, hp d]

theorem caseBlind_isAlpha : CaseBlind Char.isAlpha := isAlpha_toLower

theorem caseBlind_isDigit : CaseBlind Char.isDigit := isDigit_toLower

theorem caseBlind_isWordPart : CaseBlind isWordPart := CharClass.contains_toLower .wordPart

theorem caseBlind_eq {sign : Char} (hs : sign.isAlpha = false) : CaseBlind fun c => decide (c = sign) :=
  eq_sign_toLower hs

theorem caseBlind_ne {sign : Char} (hs : sign.isAlpha = false) : CaseBlind fun c => decide (c ≠ sign) := by
  intro c
  have := eq_sign_toLower hs c
  simpa using this

/-- Only letters have two cases. -/
theorem eq_of_toLower_eq (h : c.toLower = d.toLower) (hc : c.isAlpha = false) : c = d := by
  have hd : d.isAlpha = false := by rwa [← caseBlind_isAlpha.eq h]
  rcases toLower_cases c with hlow | ⟨hletter, -⟩
  · rcases toLower_cases d with hlow' | ⟨hletter, -⟩
    · rw [← hlow, h, hlow']
    · rw [hd] at hletter
      cases hletter
  · rw [hc] at hletter
    cases hletter

theorem eq_sign_iff {sign : Char} (hs : sign.isAlpha = false) (h : c.toLower = d.toLower) :
    c = sign ↔ d = sign := by
  have := (caseBlind_eq hs).eq h
  simpa using this

theorem utf8Size_of_isAlpha (h : c.isAlpha = true) : c.utf8Size = 1 := by
  rw [isAlpha_iff] at h
  rw [Char.utf8Size_eq_one_iff, UInt32.le_iff_toNat_le]
  show c.toNat ≤ 127
  omega

theorem utf8Size_toLower (c : Char) : c.toLower.utf8Size = c.utf8Size := by
  rcases toLower_cases c with h | ⟨hc, hl⟩
  · rw [h]
  · rw [utf8Size_of_isAlpha hc, utf8Size_of_isAlpha hl]

/-- The whitespace set has a letter in both cases or in neither. -/
def LexerSettings.CaseClosed (s : LexerSettings) : Prop :=
  ∀ c ∈ s.whitespace, c.toLower ∈ s.whitespace ∧ c.toUpper ∈ s.whitespace

/-- A character is in lower case, or raising its lower case gives it back. -/
theorem toUpper_toLower_or (c : Char) : c.toLower.toUpper = c ∨ c.toLower = c := by
  by_cases h : c.val ≥ 65 ∧ c.val ≤ 90
  · left
    have hlow : 65 ≤ c.toNat := h.1
    have hhigh : c.toNat ≤ 90 := h.2
    have hlower : c.toLower.val = c.val + 32 := by
      rw [show c.toLower = ⟨c.val + 32, _⟩ from dif_pos h]
    have hnat : c.toLower.val.toNat = c.toNat + 32 := by
      rw [hlower, UInt32.toNat_add]
      show (c.toNat + 32) % _ = _
      omega
    have hupper : c.toLower.val ≥ 97 ∧ c.toLower.val ≤ 122 := by
      constructor
      · show 97 ≤ c.toLower.val.toNat
        omega
      · show c.toLower.val.toNat ≤ 122
        omega
    rw [show c.toLower.toUpper = ⟨c.toLower.val + (-32), _⟩ from dif_pos hupper]
    apply Char.ext
    show c.toLower.val + -32 = c.val
    rw [hlower, UInt32.add_assoc, show (32 + -32 : UInt32) = 0 by decide, UInt32.add_zero]
  · exact .inr (dif_neg h)

theorem caseBlind_isSeparator (h : settings.CaseClosed) : CaseBlind settings.isSeparator := by
  intro c
  have hset : settings.isWhitespace c.toLower = settings.isWhitespace c := by
    rw [LexerSettings.isWhitespace, LexerSettings.isWhitespace, Bool.eq_iff_iff, List.contains_iff_mem,
      List.contains_iff_mem]
    constructor
    · intro hmem
      rcases toUpper_toLower_or c with hc | hc
      · rw [← hc]
        exact (h _ hmem).2
      · rwa [← hc]
    · exact fun hmem => (h c hmem).1
  rw [LexerSettings.isSeparator, LexerSettings.isSeparator, hset,
    eq_sign_toLower (show ('\n').isAlpha = false by decide)]

/-! ## Texts -/

/-- The texts have the same characters but for the case of letters. -/
def Alike (text text' : List Char) : Prop := text.map Char.toLower = text'.map Char.toLower

theorem alike_cons : Alike (c :: text) (d :: text') ↔ c.toLower = d.toLower ∧ Alike text text' := by
  simp [Alike]

theorem alike_cons_left : Alike (c :: text) text' ↔
    ∃ d rest, text' = d :: rest ∧ c.toLower = d.toLower ∧ Alike text rest := by
  constructor
  · intro h
    cases text' with
    | nil => cases h
    | cons d rest => exact ⟨d, rest, rfl, alike_cons.1 h⟩
  · rintro ⟨d, rest, rfl, h⟩
    exact alike_cons.2 h

theorem alike_append_left {left right : List Char} : Alike (left ++ right) text' ↔
    ∃ left' right', text' = left' ++ right' ∧ Alike left left' ∧ Alike right right' := by
  rw [Alike, eq_comm, List.map_append, List.map_eq_append_iff]
  simp only [Alike, eq_comm]

namespace Alike

theorem refl (text : List Char) : Alike text text := rfl

theorem append (h : Alike text text') (hmore : Alike more more') :
    Alike (text ++ more) (text' ++ more') := by
  rw [Alike, List.map_append, List.map_append, h, hmore]

variable (h : Alike text text')
include h

theorem length_eq : text.length = text'.length := by simpa using congrArg List.length h

theorem take (n : Nat) : Alike (text.take n) (text'.take n) := by
  rw [Alike, List.map_take, List.map_take, h]

theorem drop (n : Nat) : Alike (text.drop n) (text'.drop n) := by
  rw [Alike, List.map_drop, List.map_drop, h]

theorem reverse : Alike text.reverse text'.reverse := by
  rw [Alike, List.map_reverse, List.map_reverse, h]

section
variable {p : Char → Bool} (hp : CaseBlind p)
include hp

theorem takeWhile : Alike (text.takeWhile p) (text'.takeWhile p) := by
  have hcomp : p ∘ Char.toLower = p := funext hp
  have hmap := congrArg (List.takeWhile p) h
  rwa [List.takeWhile_map, List.takeWhile_map, hcomp] at hmap

theorem dropWhile : Alike (text.dropWhile p) (text'.dropWhile p) := by
  have hcomp : p ∘ Char.toLower = p := funext hp
  have hmap := congrArg (List.dropWhile p) h
  rwa [List.dropWhile_map, List.dropWhile_map, hcomp] at hmap

theorem forall_iff : (∀ d ∈ text, p d = true) ↔ ∀ d ∈ text', p d = true := by
  have hall : ∀ cs : List Char, (∀ d ∈ cs, p d = true) ↔ ∀ d ∈ cs.map Char.toLower, p d = true := by
    intro cs
    simp [hp _]
  rw [hall text, h, ← hall text']

theorem stopsAt_iff : StopsAt p text ↔ StopsAt p text' := by
  cases text with
  | nil =>
    cases text' with
    | nil => exact Iff.rfl
    | cons d text' => cases h
  | cons c text =>
    obtain ⟨d, rest, rfl, hc, -⟩ := alike_cons_left.1 h
    rw [stopsAt_cons, stopsAt_cons, hp.eq hc]

end

theorem bars_eq (notBefore : Option CharClass) :
    CharClass.bars notBefore text = CharClass.bars notBefore text' := by
  rw [← CharClass.bars_map_toLower, h, CharClass.bars_map_toLower]

theorem byteLength_eq : byteLength text = byteLength text' := by
  have hmap : ∀ cs : List Char, byteLength (cs.map Char.toLower) = byteLength cs := by
    intro cs
    induction cs with
    | nil => rfl
    | cons c cs ih => rw [List.map_cons, byteLength_cons, byteLength_cons, utf8Size_toLower, ih]
  rw [← hmap text, h, hmap text']

theorem count_break : text.count '\n' = text'.count '\n' := by
  have hmap : ∀ cs : List Char, (cs.map Char.toLower).count '\n' = cs.count '\n' := by
    intro cs
    induction cs with
    | nil => rfl
    | cons c cs ih =>
      have hbreak : c.toLower = '\n' ↔ c = '\n' := by
        simpa using eq_sign_toLower (show ('\n').isAlpha = false by decide) c
      simp only [List.map_cons, List.count_cons, ih, beq_iff_eq, hbreak]
  rw [← hmap text, h, hmap text']

theorem lastLine : Alike (lastLine text) (lastLine text') :=
  (h.reverse.takeWhile (caseBlind_ne (by decide))).reverse

/-- Where there is no letter, being alike is being the same. -/
theorem eq_of_letterless (hl : ∀ d ∈ text, d.isAlpha = false) : text = text' := by
  induction text generalizing text' with
  | nil =>
    cases text' with
    | nil => rfl
    | cons d text' => cases h
  | cons c text ih =>
    obtain ⟨d, rest, rfl, hc, hrest⟩ := alike_cons_left.1 h
    obtain ⟨hletter, hmore⟩ := List.forall_mem_cons.1 hl
    rw [eq_of_toLower_eq hc hletter, ih hrest hmore]

theorem eq_of_digits (hd : ∀ d ∈ text, d.isDigit = true) : text = text' := by
  apply h.eq_of_letterless
  intro d hmem
  cases ha : d.isAlpha with
  | false => rfl
  | true =>
    have hdigit := hd d hmem
    rw [isDigit_of_isAlpha ha] at hdigit
    cases hdigit

end Alike

/-! ## Literals -/

open Recognizer

/-- How many backslashes a text ends in that has its newest character first: none, one or more. -/
def slashes : List Char → Nat
  | '\\' :: '\\' :: _ => 2
  | '\\' :: _ => 1
  | _ => 0

/-- Both steps close the literal, or both go on behind equally many backslashes. -/
inductive StepsAlike : LiteralStep → LiteralStep → Prop
  | closed (text text' : List Char) : StepsAlike (.closed text) (.closed text')
  | more {text text' : List Char} (h : slashes text = slashes text') : StepsAlike (.more text) (.more text')

theorem slashes_cons (c : Char) (text : List Char) :
    slashes (c :: text) = if c = '\\' then min 2 (slashes text + 1) else 0 := by
  by_cases hc : c = '\\'
  · subst hc
    rw [if_pos rfl]
    cases text with
    | nil => rfl
    | cons d text =>
      by_cases hd : d = '\\'
      · subst hd
        cases text with
        | nil => rfl
        | cons e text => by_cases he : e = '\\' <;> simp [slashes, he]
      · simp [slashes, hd]
  · simp [slashes, hc]

theorem slashes_cons_backslash (c : Char) (older : List Char) :
    slashes (c :: '\\' :: older) = if c = '\\' then 2 else 0 := by
  rw [slashes_cons, slashes_cons, if_pos rfl]
  split
  · omega
  · rfl

theorem slashes_of_head (h : text.head? ≠ some '\\') : slashes text = 0 := by
  cases text with
  | nil => rfl
  | cons c text =>
    rw [slashes_cons, if_neg]
    simpa using h

/-- A text goes on counting its backslashes alike with characters that are alike. -/
theorem slashes_cons_eq (h : c.toLower = d.toLower) (hs : slashes text = slashes text') :
    slashes (c :: text) = slashes (d :: text') := by
  have hslash : c = '\\' ↔ d = '\\' := eq_sign_iff (by decide) h
  rw [slashes_cons, slashes_cons, hs]
  by_cases hc : c = '\\'
  · rw [if_pos hc, if_pos (hslash.1 hc)]
  · rw [if_neg hc, if_neg (mt hslash.2 hc)]

theorem pushPlain_alike (h : c.toLower = d.toLower)
    (hs : slashes (c :: text) = slashes (d :: text')) :
    StepsAlike (pushPlain text c) (pushPlain text' d) := by
  have hquote : c = '"' ↔ d = '"' := eq_sign_iff (by decide) h
  unfold pushPlain
  by_cases hc : c = '"'
  · rw [if_pos hc, if_pos (hquote.1 hc)]
    exact .closed text text'
  · rw [if_neg hc, if_neg (mt hquote.2 hc)]
    exact .more hs

/-- What a backslash escapes ends in no backslash, and all else counts on. -/
theorem slashes_of_escape {older : List Char} (h : older.head? ≠ some '\\') (c : Char) :
    ∃ newer, pushLiteral ('\\' :: older) c = .more newer ∧
      slashes newer = slashes (c :: '\\' :: older) := by
  rw [pushLiteral_backslash h]
  by_cases hquote : c = '"'
  · rw [if_pos hquote]
    exact ⟨_, rfl, by simp [slashes_cons, hquote]⟩
  by_cases hletter : c = 's'
  · rw [if_neg hquote, if_pos hletter]
    exact ⟨_, rfl, by simp [slashes_cons, hletter]⟩
  · rw [if_neg hquote, if_neg hletter]
    exact ⟨_, rfl, rfl⟩

/-- The ends of a text that its escapes depend on. -/
theorem slashes_cases (text : List Char) :
    (text.head? ≠ some '\\' ∧ slashes text = 0) ∨
      (∃ older, text = '\\' :: older ∧ older.head? ≠ some '\\' ∧ slashes text = 1) ∨
        ∃ older, text = '\\' :: '\\' :: older ∧ slashes text = 2 := by
  by_cases h : text.head? = some '\\'
  · obtain ⟨older, rfl⟩ := List.head?_eq_some_iff.1 h
    by_cases h' : older.head? = some '\\'
    · obtain ⟨older, rfl⟩ := List.head?_eq_some_iff.1 h'
      exact .inr (.inr ⟨older, rfl, rfl⟩)
    · refine .inr (.inl ⟨older, rfl, h', ?_⟩)
      rw [slashes_cons, if_pos rfl, slashes_of_head h']
      rfl
  · exact .inl ⟨h, slashes_of_head h⟩

theorem pushLiteral_alike (h : c.toLower = d.toLower) (hs : slashes text = slashes text') :
    StepsAlike (pushLiteral text c) (pushLiteral text' d) := by
  rcases slashes_cases text with ⟨hhead, hn⟩ | ⟨older, rfl, hhead, hn⟩ | ⟨older, rfl, hn⟩
  · rcases slashes_cases text' with ⟨hhead', -⟩ | ⟨older', rfl, -, hn'⟩ | ⟨older', rfl, hn'⟩
    · rw [pushLiteral_plain hhead, pushLiteral_plain hhead']
      exact pushPlain_alike h (slashes_cons_eq h hs)
    · omega
    · omega
  · rcases slashes_cases text' with ⟨-, hn'⟩ | ⟨older', rfl, hhead', -⟩ | ⟨older', rfl, hn'⟩
    · omega
    · obtain ⟨newer, hstep, hnewer⟩ := slashes_of_escape hhead c
      obtain ⟨newer', hstep', hnewer'⟩ := slashes_of_escape hhead' d
      rw [hstep, hstep']
      exact .more (by rw [hnewer, hnewer', slashes_cons_eq h hs])
    · omega
  · rcases slashes_cases text' with ⟨-, hn'⟩ | ⟨older', rfl, -, hn'⟩ | ⟨older', rfl, -⟩
    · omega
    · omega
    · rw [pushLiteral_backslashes, pushLiteral_backslashes]
      -- one of the backslashes is dropped, and another after it makes two or more again
      refine pushPlain_alike h ?_
      have hslash : c = '\\' ↔ d = '\\' := eq_sign_iff (by decide) h
      simp only [slashes_cons_backslash, hslash]

/-- Literals that are alike close behind equally many characters or not at all. -/
theorem literalBody_alike {rest rest' : List Char} (h : Alike rest rest')
    (hs : slashes text = slashes text') (count : Nat) :
    (literalBody text count rest).map Prod.snd = (literalBody text' count rest').map Prod.snd := by
  induction rest generalizing text text' rest' count with
  | nil =>
    cases rest' with
    | nil => rfl
    | cons d rest' => cases h
  | cons c rest ih =>
    obtain ⟨d, rest', rfl, hc, hrest⟩ := alike_cons_left.1 h
    have hstep := pushLiteral_alike hc hs
    rw [literalBody, literalBody]
    generalize pushLiteral text c = step at hstep
    generalize pushLiteral text' d = step' at hstep
    cases hstep with
    | closed out out' => rfl
    | more hnewer => exact ih hrest hnewer (count + 1)

/-! ## Verdicts -/

/-- How the texts of two tokens of the rule compare whose slices are alike. -/
def Rule.TextsAlike (rule : Rule) (t t' : List Char) : Prop :=
  match rule with
  | spelling .. | long | double => t = t'
  | identifier | comment => Alike t t'
  | string => True

/-- The verdicts cut texts that are alike in the same places. -/
inductive VerdictsAlike (rule : Rule) : Verdict → Verdict → Prop
  | matched {t t' slice slice' more more' : List Char} (ht : rule.TextsAlike t t')
    (hslice : Alike slice slice') (hmore : Alike more more') :
    VerdictsAlike rule (.matched t slice more) (.matched t' slice' more')
  | mismatch : VerdictsAlike rule .mismatch .mismatch
  | unterminated {skipped skipped' : List Char} (h : Alike skipped skipped') :
    VerdictsAlike rule (.unterminated skipped) (.unterminated skipped')

theorem VerdictsAlike.isHit_eq {rule : Rule} {v v' : Verdict} (h : VerdictsAlike rule v v') :
    v.isHit = v'.isHit := by
  cases h <;> rfl

theorem ofComment_of_head (hne : text.head? ≠ some '#') : Verdict.ofComment text = .mismatch := by
  unfold Verdict.ofComment
  split
  · simp at hne
  · rfl

theorem ofString_of_head (hne : text.head? ≠ some '"') : Verdict.ofString text = .mismatch := by
  unfold Verdict.ofString
  split
  · simp at hne
  · rfl

theorem ofWhole_of_head (hne : text.head? ≠ some '.') (digits : List Char) :
    Verdict.ofWhole settings digits text = .mismatch := by
  unfold Verdict.ofWhole
  split
  · simp at hne
  · rfl

section
variable (h : Alike text text')
include h

theorem ofSpelling_alike (word : String) (notBefore : Option CharClass) :
    VerdictsAlike (.spelling word notBefore) (.ofSpelling word.toList notBefore text)
      (.ofSpelling word.toList notBefore text') := by
  have htake := h.take word.toList.length
  have hdrop := h.drop word.toList.length
  unfold Verdict.ofSpelling
  rw [htake, hdrop.bars_eq notBefore]
  split
  · exact .matched rfl htake hdrop
  · exact .mismatch

theorem ofIdentifier_alike :
    VerdictsAlike .identifier (.ofIdentifier text) (.ofIdentifier text') := by
  cases text with
  | nil =>
    cases text' with
    | nil => exact .mismatch
    | cons d text' => cases h
  | cons c text =>
    obtain ⟨d, text', rfl, hc, hrest⟩ := alike_cons_left.1 h
    have hslice := alike_cons.2 ⟨hc, hrest.takeWhile caseBlind_isWordPart⟩
    simp only [Verdict.ofIdentifier, caseBlind_isAlpha.eq hc]
    split
    · exact .matched hslice hslice (hrest.dropWhile caseBlind_isWordPart)
    · exact .mismatch

/-- A text begins with a sign if one that is alike does. -/
theorem Alike.head_sign {sign : Char} (hs : sign.isAlpha = false) :
    (∃ rest rest', text = sign :: rest ∧ text' = sign :: rest' ∧ Alike rest rest') ∨
      text.head? ≠ some sign ∧ text'.head? ≠ some sign := by
  cases text with
  | nil =>
    cases text' with
    | nil => exact .inr ⟨by simp, by simp⟩
    | cons d text' => cases h
  | cons c text =>
    obtain ⟨d, text', rfl, hc, hrest⟩ := alike_cons_left.1 h
    have hsign : c = sign ↔ d = sign := eq_sign_iff hs hc
    by_cases hcs : c = sign
    · obtain rfl := hsign.1 hcs
      subst hcs
      exact .inl ⟨text, text', rfl, rfl, hrest⟩
    · exact .inr ⟨by simpa using hcs, by simpa using mt hsign.2 hcs⟩

theorem ofComment_alike : VerdictsAlike .comment (.ofComment text) (.ofComment text') := by
  rcases h.head_sign (show ('#').isAlpha = false by decide) with
    ⟨rest, rest', rfl, rfl, hrest⟩ | ⟨hne, hne'⟩
  · have hline : CaseBlind fun c => decide (c ≠ '\n') := caseBlind_ne (by decide)
    have ht := hrest.takeWhile hline
    exact .matched ht (alike_cons.2 ⟨rfl, ht⟩) (hrest.dropWhile hline)
  · rw [ofComment_of_head hne, ofComment_of_head hne']
    exact .mismatch

theorem ofString_alike : VerdictsAlike .string (.ofString text) (.ofString text') := by
  rcases h.head_sign (show ('"').isAlpha = false by decide) with
    ⟨rest, rest', rfl, rfl, hrest⟩ | ⟨hne, hne'⟩
  · have hclose := literalBody_alike hrest (show slashes [] = slashes [] from rfl) 0
    simp only [Verdict.ofString]
    cases hbody : literalBody [] 0 rest with
    | none =>
      rw [hbody] at hclose
      rw [Option.map_eq_none_iff.1 hclose.symm]
      exact .unterminated (.refl [])
    | some closed =>
      rw [hbody] at hclose
      obtain ⟨⟨out', count'⟩, hbody', hcount⟩ := Option.map_eq_some_iff.1 hclose.symm
      obtain ⟨out, count⟩ := closed
      obtain rfl : count' = count := hcount
      rw [hbody']
      exact .matched trivial (alike_cons.2 ⟨rfl, hrest.take _⟩) (hrest.drop _)
  · rw [ofString_of_head hne, ofString_of_head hne']
    exact .mismatch

theorem plainVerdict_alike (rule : Rule) :
    VerdictsAlike rule (rule.plainVerdict text) (rule.plainVerdict text') := by
  cases rule with
  | spelling word notBefore => exact ofSpelling_alike h word notBefore
  | identifier => exact ofIdentifier_alike h
  | string => exact ofString_alike h
  | comment => exact ofComment_alike h
  | long => exact .mismatch
  | double => exact .mismatch

/-! ## Numbers -/

theorem followEnd_alike (kinds : List Kind) : followEnd kinds text = followEnd kinds text' := by
  have hsame : ∀ k : Kind, (k.rule.plainVerdict text).isHit = (k.rule.plainVerdict text').isHit :=
    fun k => (plainVerdict_alike h k.rule).isHit_eq
  unfold followEnd
  simp only [hsame]
  cases kinds.find? fun k => (k.rule.plainVerdict text').isHit with
  | none => rfl
  | some k =>
    have hk := plainVerdict_alike h k.rule
    dsimp only
    generalize k.rule.plainVerdict text = v at hk
    generalize k.rule.plainVerdict text' = v' at hk
    cases hk <;> rfl

theorem takeWhile_isDigit_alike : text.takeWhile Char.isDigit = text'.takeWhile Char.isDigit :=
  (h.takeWhile caseBlind_isDigit).eq_of_digits (forall_mem_takeWhile Char.isDigit text)

variable (hsep : CaseBlind settings.isSeparator)
include hsep

theorem endBefore_alike (dotEnds : Bool) :
    endBefore settings dotEnds text = endBefore settings dotEnds text' := by
  cases text with
  | nil =>
    cases text' with
    | nil => rfl
    | cons d text' => cases h
  | cons c text =>
    obtain ⟨d, text', rfl, hc, hrest⟩ := alike_cons_left.1 h
    have hdot : c = '.' ↔ d = '.' := eq_sign_iff (by decide) hc
    simp only [endBefore, hsep.eq hc, hdot, followEnd_alike h]

theorem digitsEnd_alike (dotEnds : Bool) :
    digitsEnd settings dotEnds text = digitsEnd settings dotEnds text' := by
  unfold digitsEnd
  rw [takeWhile_isDigit_alike h, endBefore_alike (h.dropWhile caseBlind_isDigit) hsep]

theorem ofFraction_alike {rule : Rule} (hr : rule = .long ∨ rule = .double) (lead whole : List Char) :
    VerdictsAlike rule (.ofFraction settings lead whole text)
      (.ofFraction settings lead whole text') := by
  have hdigits := takeWhile_isDigit_alike h
  have htext : ∀ t, rule.TextsAlike t t := by
    rcases hr with rfl | rfl
    · exact fun t => rfl
    · exact fun t => rfl
  unfold Verdict.ofFraction
  rw [digitsEnd_alike h hsep, hdigits]
  cases digitsEnd settings false text' with
  | good => exact .matched (htext _) (.refl _) (h.dropWhile caseBlind_isDigit)
  | bad => exact .mismatch
  | unterminated => exact .unterminated (.refl _)

theorem ofWhole_alike (digits : List Char) :
    VerdictsAlike .double (.ofWhole settings digits text) (.ofWhole settings digits text') := by
  rcases h.head_sign (show ('.').isAlpha = false by decide) with
    ⟨rest, rest', rfl, rfl, hrest⟩ | ⟨hne, hne'⟩
  · exact ofFraction_alike hrest hsep (.inr rfl) [] (digits ++ ['.'])
  · rw [ofWhole_of_head hne, ofWhole_of_head hne']
    exact .mismatch

theorem ofDouble_alike : VerdictsAlike .double (.ofDouble settings text) (.ofDouble settings text') := by
  unfold Verdict.ofDouble
  rcases h.head_sign (show ('.').isAlpha = false by decide) with
    ⟨rest, rest', rfl, rfl, hrest⟩ | ⟨hne, hne'⟩
  · exact ofFraction_alike hrest hsep (.inr rfl) ['0'] ['.']
  · rw [if_neg hne, if_neg hne', digitsEnd_alike h hsep, takeWhile_isDigit_alike h]
    cases digitsEnd settings true text' with
    | good => exact ofWhole_alike (h.dropWhile caseBlind_isDigit) hsep _
    | bad => exact .mismatch
    | unterminated => exact .unterminated (.refl _)

/-- A kind cuts texts that are alike in the same places. -/
theorem verdict_alike (k : Kind) :
    VerdictsAlike k.rule (k.verdict settings text) (k.verdict settings text') := by
  cases text with
  | nil =>
    cases text' with
    | nil => exact .mismatch
    | cons d text' => cases h
  | cons c text =>
    obtain ⟨d, text', rfl, -⟩ := alike_cons_left.1 h
    rw [Kind.verdict_of_ne (List.cons_ne_nil c text), Kind.verdict_of_ne (List.cons_ne_nil d text')]
    cases k.rule with
    | long => exact ofFraction_alike h hsep (.inl rfl) [] []
    | double => exact ofDouble_alike h hsep
    | spelling word notBefore => exact plainVerdict_alike h (.spelling word notBefore)
    | identifier => exact plainVerdict_alike h .identifier
    | string => exact plainVerdict_alike h .string
    | comment => exact plainVerdict_alike h .comment

theorem firstHit_alike (order : List Kind) :
    firstHit settings order text = firstHit settings order text' :=
  List.find?_congr fun k _ => (verdict_alike h hsep k).isHit_eq

end

/-! ## Lexemes -/

/-- The lexemes are read by one kind from slices that are alike, behind gaps that are. -/
structure Lexeme.Alike (l l' : Lexeme) : Prop where
  kind_eq : l'.kind = l.kind
  gap : ExprLex.Alike l.gap l'.gap
  slice : ExprLex.Alike l.slice l'.slice
  text : l.kind.rule.TextsAlike l.text l'.text

/-- The endings are of one sort, behind texts that are alike. -/
inductive Ending.Alike : Ending → Ending → Prop
  | complete : Alike .complete .complete
  | unterminated {ahead ahead' : List Char} (h : ExprLex.Alike ahead ahead') :
    Alike (.unterminated ahead) (.unterminated ahead')
  | unrecognized {ahead ahead' : List Char} {c d : Char} (h : ExprLex.Alike ahead ahead')
    (hc : c.toLower = d.toLower) : Alike (.unrecognized ahead c) (.unrecognized ahead' d)

/-- Texts that are alike fall into lexemes that are alike. -/
theorem lexing_alike {lexemes : List Lexeme} {ending : Ending}
    (hsep : CaseBlind settings.isSeparator) (hl : Lexing settings text lexemes ending) (h : Alike text text') :
    ∃ lexemes' ending', Lexing settings text' lexemes' ending' ∧
      List.Forall₂ Lexeme.Alike lexemes lexemes' ∧ ending.Alike ending' := by
  induction hl generalizing text' with
  | @complete gap hg => exact ⟨[], .complete, .complete ((h.forall_iff hsep).1 hg), .nil, .complete⟩
  | @unrecognized gap d text hg hd hnone =>
    obtain ⟨gap', rest, rfl, hgap, hrest⟩ := alike_append_left.1 h
    obtain ⟨e, text', rfl, he, -⟩ := alike_cons_left.1 hrest
    refine ⟨[], .unrecognized gap' e, .unrecognized ((hgap.forall_iff hsep).1 hg) ?_ ?_, .nil,
      .unrecognized hgap he⟩
    · rw [← hsep.eq he, hd]
    · rw [← firstHit_alike hrest hsep, hnone]
  | @unterminated gap text skipped k hg hs hk hv =>
    obtain ⟨gap', rest, rfl, hgap, hrest⟩ := alike_append_left.1 h
    have hverdict := verdict_alike hrest hsep k
    rw [hv] at hverdict
    rw [firstHit_alike hrest hsep] at hk
    generalize hv' : k.verdict settings rest = v' at hverdict
    cases hverdict with
    | @unterminated _ skipped' hskipped =>
      exact ⟨[], _, .unterminated ((hgap.forall_iff hsep).1 hg) ((hrest.stopsAt_iff hsep).1 hs) hk hv',
        .nil, .unterminated (hgap.append hskipped)⟩
  | @lexeme gap slice more t k lexemes ending hg hs hk hv rest ih =>
    obtain ⟨gap', rest, rfl, hgap, hrest⟩ := alike_append_left.1 h
    have hverdict := verdict_alike hrest hsep k
    rw [hv] at hverdict
    rw [firstHit_alike hrest hsep] at hk
    generalize hv' : k.verdict settings rest = v' at hverdict
    cases hverdict with
    | @matched _ t' _ slice' _ more' ht hslice hmore =>
      obtain ⟨rfl, -⟩ := cut_of_verdict hv'
      obtain ⟨lexemes', ending', hl', hlexemes, hending⟩ := ih hmore
      exact ⟨_, ending', .lexeme ((hgap.forall_iff hsep).1 hg) ((hrest.stopsAt_iff hsep).1 hs) hk hv' hl',
        .cons ⟨rfl, hgap, hslice, ht⟩ hlexemes, hending⟩

/-! ## Whole runs -/

/-- The tokens differ at most in the case of letters, or in the text of a literal. -/
structure Token.CaseAlike (t t' : Token) : Prop where
  kind_eq : t'.kind = t.kind
  category_eq : t'.category = t.category
  row_eq : t'.row = t.row
  col_eq : t'.col = t.col
  span_eq : t'.span = t.span
  text_eq : t.kind.representation?.isSome = true ∨ t.kind = .long ∨ t.kind = .double → t'.text = t.text
  text_alike : t.kind = .identifier ∨ t.kind = .comment → Alike t.text.toList t'.text.toList

/-- The failures are of one sort, at one place, about one character but for its case. -/
inductive LexError.CaseAlike : LexError → LexError → Prop
  | unterminated (row col : Nat) (source source' : String) :
    CaseAlike (.unterminatedString row col source) (.unterminatedString row col source')
  | unrecognized (row col : Nat) {c d : Char} (hc : c.toLower = d.toLower) (source source' : String) :
    CaseAlike (.unrecognizedCharacter row col c source) (.unrecognizedCharacter row col d source')

theorem eq_of_textsAlike {k : Kind} {t t' : List Char} (ht : k.rule.TextsAlike t t')
    (hk : k.representation?.isSome = true ∨ k = .long ∨ k = .double) : t' = t := by
  rcases hk with hk | rfl | rfl
  · obtain ⟨word, notBefore, hr⟩ := Kind.rule_of_representation hk
    rw [hr] at ht
    exact ht.symm
  · exact ht.symm
  · exact ht.symm

theorem token_alike {before before' : List Char} {l l' : Lexeme} (hb : Alike before before')
    (hl : l.Alike l') : (l.token before).CaseAlike (l'.token before') := by
  have hgap := hb.append hl.gap
  have hslice := hgap.append hl.slice
  constructor
  · exact hl.kind_eq
  · simp only [Lexeme.token, hl.kind_eq]
  · exact hgap.count_break.symm
  · exact hgap.lastLine.length_eq.symm
  · simp only [Lexeme.token, hgap.byteLength_eq, hslice.byteLength_eq, hgap.count_break,
      hgap.lastLine.length_eq]
  · intro hk
    exact congrArg String.ofList (eq_of_textsAlike hl.text hk)
  · intro hk
    have htext := hl.text
    simp only [Lexeme.token, String.toList_ofList] at hk ⊢
    rcases hk with hk | hk
    · rwa [hk] at htext
    · rwa [hk] at htext

theorem tokensBehind_alike {before before' : List Char} {lexemes lexemes' : List Lexeme}
    (hb : Alike before before') (h : List.Forall₂ Lexeme.Alike lexemes lexemes') :
    List.Forall₂ Token.CaseAlike (tokensBehind before lexemes) (tokensBehind before' lexemes') ∧
      Alike (before ++ lexemes.flatMap Lexeme.whole) (before' ++ lexemes'.flatMap Lexeme.whole) := by
  induction h generalizing before before' with
  | nil => exact ⟨.nil, by simpa using hb⟩
  | @cons l l' lexemes lexemes' hl _ ih =>
    obtain ⟨htokens, hwhole⟩ := ih (hb.append (hl.gap.append hl.slice))
    refine ⟨.cons (token_alike hb hl) htokens, ?_⟩
    simpa [Lexeme.whole] using hwhole

theorem failure_alike {before before' : List Char} {ending ending' : Ending} (source source' : String)
    (hb : Alike before before') (h : ending.Alike ending') :
    Option.Rel LexError.CaseAlike (ending.failure source before) (ending'.failure source' before') := by
  cases h with
  | complete => exact .none
  | unterminated hahead =>
    have hplace := hb.append hahead
    simp only [Ending.failure, unterminatedBehind, hplace.count_break, hplace.lastLine.length_eq]
    exact .some (.unterminated _ _ _ _)
  | unrecognized hahead hc =>
    have hplace := hb.append hahead
    simp only [Ending.failure, hplace.count_break, hplace.lastLine.length_eq]
    exact .some (.unrecognized _ _ hc _ _)

/-- The tokens of a run, or the failure that ended it. -/
def Run.outcome (run : Run) : Except LexError (List Token) :=
  match run.failure with
  | none => .ok run.tokens
  | some error => .error error

theorem tokenize_of_run {source : String} {run : Run} (h : runSource source settings = .ok run) :
    tokenize source settings = .ok run.outcome := by
  unfold tokenize
  rw [h]
  show (match run.failure with | none => _ | some error => _) = _
  unfold Run.outcome
  cases run.failure <;> rfl

/-- Sources that differ in the case of letters only fall into tokens of the same kinds at the same
places, and fail alike. The texts of literals may differ, their extents do not. -/
theorem tokenize_case_blind {source source' : String} (hset : settings.CaseClosed)
    (hshort : source.length < counterBound) (h : Alike source.toList source'.toList) :
    ∃ run run', runSource source settings = .ok run ∧ runSource source' settings = .ok run' ∧
      List.Forall₂ Token.CaseAlike run.tokens run'.tokens ∧
      Option.Rel LexError.CaseAlike run.failure run'.failure ∧
      tokenize source settings = .ok run.outcome ∧ tokenize source' settings = .ok run'.outcome := by
  have hshort' : source'.length < counterBound := by
    have hlen := h.length_eq
    rw [String.length_toList, String.length_toList] at hlen
    rwa [← hlen]
  obtain ⟨lexemes, ending, hl⟩ := exists_lexing settings source.toList
  obtain ⟨lexemes', ending', hl', hlexemes, hending⟩ :=
    lexing_alike (caseBlind_isSeparator hset) hl h
  obtain ⟨events, hrun⟩ := runSource_settles hl
  obtain ⟨events', hrun'⟩ := runSource_settles hl'
  obtain ⟨htokens, hwhole⟩ := tokensBehind_alike (Alike.refl []) hlexemes
  have hok := hrun.ok_of_short hshort
  have hok' := hrun'.ok_of_short hshort'
  exact ⟨_, _, hok, hok', htokens, failure_alike source source' hwhole hending, tokenize_of_run hok,
    tokenize_of_run hok'⟩

/-- A reserved word, an escape that only one of the two has, and a character that is no token. -/
theorem tokenize_case_blind_escape : LexerSettings.CaseClosed {} ∧
    "If \"\\s\" @".length < counterBound ∧ Alike "If \"\\s\" @".toList "iF \"\\S\" @".toList ∧
    ∃ run run', runSource "If \"\\s\" @" = .ok run ∧ runSource "iF \"\\S\" @" = .ok run' ∧
      run.tokens = [⟨.ifWord, .keyword, "if", 0, 0, ⟨0, 2, 0, 0⟩⟩,
        ⟨.string, .value, "'", 0, 3, ⟨3, 7, 0, 3⟩⟩] ∧
      run'.tokens = [⟨.ifWord, .keyword, "if", 0, 0, ⟨0, 2, 0, 0⟩⟩,
        ⟨.string, .value, "\\S", 0, 3, ⟨3, 7, 0, 3⟩⟩] ∧
      List.Forall₂ Token.CaseAlike run.tokens run'.tokens ∧
      Option.Rel LexError.CaseAlike run.failure run'.failure := by
  have hset : LexerSettings.CaseClosed {} := by
    intro c hc
    have hcases : c = ' ' ∨ c = '\t' := by simpa using hc
    rcases hcases with rfl | rfl
    · exact ⟨by decide, by decide⟩
    · exact ⟨by decide, by decide⟩
  have hshort : "If \"\\s\" @".length < counterBound := by decide
  have hsame : Alike "If \"\\s\" @".toList "iF \"\\S\" @".toList := by
    unfold Alike
    decide +kernel
  have htokens : (runSource "If \"\\s\" @").map Run.tokens =
      .ok [⟨.ifWord, .keyword, "if", 0, 0, ⟨0, 2, 0, 0⟩⟩,
        ⟨.string, .value, "'", 0, 3, ⟨3, 7, 0, 3⟩⟩] := by
    decide +kernel
  have htokens' : (runSource "iF \"\\S\" @").map Run.tokens =
      .ok [⟨.ifWord, .keyword, "if", 0, 0, ⟨0, 2, 0, 0⟩⟩,
        ⟨.string, .value, "\\S", 0, 3, ⟨3, 7, 0, 3⟩⟩] := by
    decide +kernel
  obtain ⟨run, run', hrun, hrun', halike, hfails, -⟩ := tokenize_case_blind hset hshort hsame
  rw [hrun] at htokens
  rw [hrun'] at htokens'
  exact ⟨hset, hshort, hsame, run, run', hrun, hrun', Except.ok.inj htokens, Except.ok.inj htokens',
    halike, hfails⟩

end ExprLex
