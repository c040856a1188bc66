/-
  ExprLex.Proofs.Verdict — what each kind of token makes of a text.

  A verdict is what trying a rule comes to, as a function of the text alone: no cursor, no saved
  places. A match names the token text, the slice of the text that was read and what is left; a
  literal that is never closed names what stands before its opening quote. The numbers ask how
  their digits end (`digitsEnd`), and that asks the kinds that are not numbers (`followEnd`), whose
  verdicts depend on nothing else (`Rule.plainVerdict`).
-/

import ExprLex.Catalog

namespace ExprLex

/-- What trying a rule on a text comes to. -/
inductive Verdict where
  /-- The text of the token, the slice read for it, and what is left. -/
  | matched (text slice more : List Char)
  | mismatch
  /-- A string literal that opens behind `skipped` is never closed. -/
  | unterminated (skipped : List Char)
  deriving DecidableEq, Repr

/-- Whether a run of digits may end where it does. -/
inductive DigitsEnd where
  | good
  | bad
  /-- A string literal that opens there is never closed. -/
  | unterminated
  deriving DecidableEq, Repr

/-- Whether a text begins with a character of the class. -/
def CharClass.bars (notBefore : Option CharClass) (text : List Char) : Bool :=
  match notBefore, text.head? with
  | some barred, some c => barred.contains c
  | _, _ => false

namespace Verdict

/-- Whether the verdict ends the trials. -/
def isHit : Verdict → Bool
  | mismatch => false
  | _ => true

@[simp] theorem isHit_matched (text slice more : List Char) :
    (matched text slice more).isHit = true := rfl
@[simp] theorem isHit_mismatch : mismatch.isHit = false := rfl
@[simp] theorem isHit_unterminated (skipped : List Char) :
    (unterminated skipped).isHit = true := rfl

theorem isHit_of_matched {verdict : Verdict} {text slice more : List Char}
    (h : verdict = matched text slice more) : verdict.isHit = true := by
  rw [h]
  rfl

theorem eq_mismatch_of_isHit {verdict : Verdict} (h : ¬ verdict.isHit = true) :
    verdict = mismatch := by
  cases verdict <;> simp_all [isHit]

/-- A fixed spelling, in any case. -/
def ofSpelling (word : List Char) (notBefore : Option CharClass) (text : List Char) : Verdict :=
  if (text.take word.length).map Char.toLower = word.map Char.toLower ∧
      CharClass.bars notBefore (text.drop word.length) = false then
    matched word (text.take word.length) (text.drop word.length)
  else mismatch

/-- A letter and the word parts behind it. -/
def ofIdentifier : List Char → Verdict
  | [] => mismatch
  | c :: text =>
    if c.isAlpha then
      matched (c :: text.takeWhile isWordPart) (c :: text.takeWhile isWordPart)
        (text.dropWhile isWordPart)
    else mismatch

/-- A hash and the rest of its line. -/
def ofComment : List Char → Verdict
  | '#' :: text =>
    matched (text.takeWhile (· ≠ '\n')) ('#' :: text.takeWhile (· ≠ '\n'))
      (text.dropWhile (· ≠ '\n'))
  | _ => mismatch

/-- A quote and the body of a literal through its closing quote. -/
def ofString : List Char → Verdict
  | '"' :: body =>
    match Recognizer.literalBody [] 0 body with
    | some (text, count) => matched text ('"' :: body.take count) (body.drop count)
    | none => unterminated []
  | _ => mismatch

/-- The verdict of a number whose digits end so. -/
def ofDigits (ending : DigitsEnd) (text slice more : List Char) : Verdict :=
  match ending with
  | .good => matched text slice more
  | .bad => mismatch
  | .unterminated => unterminated slice

@[simp] theorem ofDigits_good (text slice more : List Char) :
    ofDigits .good text slice more = matched text slice more := rfl
@[simp] theorem ofDigits_bad (text slice more : List Char) :
    ofDigits .bad text slice more = mismatch := rfl
@[simp] theorem ofDigits_unterminated (text slice more : List Char) :
    ofDigits .unterminated text slice more = unterminated slice := rfl

end Verdict

/-- The verdict of a rule that does not look ahead. The numbers do and have none here. -/
def Rule.plainVerdict : Rule → List Char → Verdict
  | spelling text notBefore => Verdict.ofSpelling text.toList notBefore
  | identifier => Verdict.ofIdentifier
  | string => Verdict.ofString
  | comment => Verdict.ofComment
  | long | double => fun _ => .mismatch

/-- A literal that opens in front of `body` runs into the end of the text. -/
def Unclosed (body : List Char) : Prop := Recognizer.literalBody [] 0 body = none

/-- Of the rules that do not look ahead, only that of the strings meets a literal never closed. -/
theorem rule_of_plainVerdict {rule : Rule} {text skipped : List Char}
    (h : rule.plainVerdict text = .unterminated skipped) : rule = .string := by
  cases rule with
  | spelling word notBefore =>
    simp only [Rule.plainVerdict, Verdict.ofSpelling] at h
    split at h <;> cases h
  | identifier =>
    simp only [Rule.plainVerdict] at h
    unfold Verdict.ofIdentifier at h
    repeat' split at h
    all_goals cases h
  | string => rfl
  | comment =>
    simp only [Rule.plainVerdict] at h
    unfold Verdict.ofComment at h
    split at h <;> cases h
  | long => cases h
  | double => cases h

/-- A literal that is never closed opens where the trial begins. -/
theorem open_of_plainVerdict {rule : Rule} {text skipped : List Char}
    (h : rule.plainVerdict text = .unterminated skipped) :
    skipped = [] ∧ ∃ body, text = '"' :: body ∧ Unclosed body := by
  obtain rfl := rule_of_plainVerdict h
  simp only [Rule.plainVerdict] at h
  unfold Verdict.ofString at h
  split at h
  · split at h
    · cases h
    · rename_i hbody
      cases h
      exact ⟨rfl, _, rfl, hbody⟩
  · cases h

/-- Whether one of the kinds, the first that ends the trials, lets a number end here. -/
def followEnd (kinds : List Kind) (text : List Char) : DigitsEnd :=
  match kinds.find? fun k => (k.rule.plainVerdict text).isHit with
  | none => .bad
  | some k =>
    match k.rule.plainVerdict text with
    | .unterminated _ => .unterminated
    | _ => .good

/-- Whether digits may end in front of a text. -/
def endBefore (settings : LexerSettings) (dotEnds : Bool) : List Char → DigitsEnd
  | [] => .good
  | c :: more =>
    if settings.isSeparator c || (dotEnds && c = '.') then .good
    else followEnd Kind.nonNumeric (c :: more)

/-- How the run of digits at the beginning of a text ends. -/
def digitsEnd (settings : LexerSettings) (dotEnds : Bool) (text : List Char) : DigitsEnd :=
  if text.takeWhile Char.isDigit = [] then .bad
  else endBefore settings dotEnds (text.dropWhile Char.isDigit)

namespace Verdict

/-- A whole number. -/
def ofLong (settings : LexerSettings) (text : List Char) : Verdict :=
  ofDigits (digitsEnd settings false text) (text.takeWhile Char.isDigit)
    (text.takeWhile Char.isDigit) (text.dropWhile Char.isDigit)

/-- The digits behind a dot; `lead` stands in the token text only, `whole` was read. -/
def ofFraction (settings : LexerSettings) (lead whole text : List Char) : Verdict :=
  ofDigits (digitsEnd settings false text) (lead ++ whole ++ text.takeWhile Char.isDigit)
    (whole ++ text.takeWhile Char.isDigit) (text.dropWhile Char.isDigit)

/-- What comes of digits and what stands behind them. -/
def ofWhole (settings : LexerSettings) (digits : List Char) : List Char → Verdict
  | '.' :: after => ofFraction settings [] (digits ++ ['.']) after
  | _ => mismatch

/-- A fraction. -/
def ofDouble (settings : LexerSettings) (text : List Char) : Verdict :=
  if text.head? = some '.' then ofFraction settings ['0'] ['.'] text.tail
  else
    match digitsEnd settings true text with
    | .good => ofWhole settings (text.takeWhile Char.isDigit) (text.dropWhile Char.isDigit)
    | .bad => mismatch
    | .unterminated => unterminated (text.takeWhile Char.isDigit)

end Verdict

/-- The verdict of a rule. -/
def Rule.verdict (settings : LexerSettings) : Rule → List Char → Verdict
  | long => Verdict.ofLong settings
  | double => Verdict.ofDouble settings
  | rule => rule.plainVerdict

theorem Rule.verdict_eq_plainVerdict {settings : LexerSettings} {rule : Rule}
    (hl : rule ≠ .long) (hd : rule ≠ .double) : rule.verdict settings = rule.plainVerdict := by
  cases rule <;> simp_all [Rule.verdict]

namespace Kind

theorem plainVerdict_nil (k : Kind) : k.rule.plainVerdict [] = .mismatch := by
  cases k <;> rfl

theorem rule_of_not_numeric {k : Kind} (hk : k.isNumeric = false) :
    k.rule ≠ .long ∧ k.rule ≠ .double := by
  cases k <;> simp_all [isNumeric, rule]

/-- The verdict of a kind. There is none at the end of the input. -/
def verdict (settings : LexerSettings) (k : Kind) (text : List Char) : Verdict :=
  if text = [] then .mismatch else k.rule.verdict settings text

theorem verdict_of_ne {settings : LexerSettings} {k : Kind} {text : List Char} (h : text ≠ []) :
    k.verdict settings text = k.rule.verdict settings text := if_neg h

theorem verdict_of_not_numeric {settings : LexerSettings} {k : Kind} {text : List Char}
    (hk : k.isNumeric = false) (h : text ≠ []) :
    k.verdict settings text = k.rule.plainVerdict text := by
  obtain ⟨hl, hd⟩ := rule_of_not_numeric hk
  rw [verdict_of_ne h, Rule.verdict_eq_plainVerdict hl hd]

end Kind

theorem not_numeric_of_mem {k : Kind} (h : k ∈ Kind.nonNumeric) : k.isNumeric = false := by
  simpa [Kind.nonNumeric] using (List.mem_filter.1 h).2

end ExprLex
