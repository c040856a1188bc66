/-
  ExprLex.Proofs.Decoding — string literals decoded by runs of backslashes.

  The recognizer of literals has no state but the text it has written so far, some of which it takes
  back. `Literal.decode` looks at the source alone, from left to right: a run of backslashes, as long
  as it can be, and the character behind it. One backslash by itself escapes that character; two or
  more stand for one and leave the character as it is.

  The two agree since a run starts behind a text that does not end in a backslash, and the character
  behind the run leaves such a text again (`literalBody_run`): what was decoded is never taken for the
  beginning of an escape.
-/

import ExprLex.Proofs.Escaping
import ExprLex.Proofs.Recognition

namespace ExprLex

open Recognizer

namespace Literal

/-- What a run of backslashes and the character behind it stand for. -/
inductive Piece where
  | text (t : List Char)
  /-- The text, and the end of the literal. -/
  | closing (t : List Char)
  deriving DecidableEq, Repr

/-- The piece of a run of so many backslashes in front of `c`. -/
def Piece.ofRun (c : Char) : Nat → Piece
  | 0 => if c = '"' then .closing [] else .text [c]
  | 1 => if c = '"' then .text ['"'] else if c = 's' then .text ['\''] else .text ['\\', c]
  | _ + 2 => if c = '"' then .closing ['\\'] else .text ['\\', c]

/-- The text of the literal whose body comes first, and what is left behind its closing quote. -/
def decode (body : List Char) : Option (List Char × List Char) :=
  match _h : body.dropWhile (· = '\\') with
  | [] => none
  | c :: more =>
    match Piece.ofRun c (body.takeWhile (· = '\\')).length with
    | .closing t => some (t, more)
    | .text t => (decode more).map fun (text, left) => (t ++ text, left)
termination_by body.length
decreasing_by
  have hle := (List.dropWhile_sublist (l := body) (· = '\\')).length_le
  rw [_h, List.length_cons] at hle
  omega

variable {text body more : List Char} {c : Char}

theorem slashes_stop (hc : c ≠ '\\') (n : Nat) (more : List Char) :
    (List.replicate n '\\' ++ c :: more).takeWhile (· = '\\') = List.replicate n '\\' ∧
      (List.replicate n '\\' ++ c :: more).dropWhile (· = '\\') = c :: more := by
  have hrun : ∀ d ∈ List.replicate n '\\', decide (d = '\\') = true := by simp
  have hstop : StopsAt (· = '\\') (c :: more) := stopsAt_cons.2 (by simpa using hc)
  exact ⟨takeWhile_append_of_stopsAt hrun hstop, dropWhile_append_of_stopsAt hrun hstop⟩

/-- A text is a run of backslashes, or one and a character behind it that is none. -/
theorem eq_slashes_or (body : List Char) : (∃ n, body = List.replicate n '\\') ∨
    ∃ n c more, c ≠ '\\' ∧ body = List.replicate n '\\' ++ c :: more := by
  obtain ⟨hcut, hrun, hstop⟩ := cut_where_stops (· = '\\') body
  have hslashes : body.takeWhile (· = '\\') =
      List.replicate (body.takeWhile (· = '\\')).length '\\' :=
    List.eq_replicate_of_mem fun d hd => by simpa using hrun d hd
  rw [hslashes] at hcut
  cases hmore : body.dropWhile (· = '\\') with
  | nil =>
    rw [hmore, List.append_nil] at hcut
    exact .inl ⟨_, hcut⟩
  | cons c more =>
    rw [hmore] at hcut hstop
    exact .inr ⟨_, c, more, by simpa using stopsAt_cons.1 hstop, hcut⟩

theorem decode_slashes (n : Nat) : decode (List.replicate n '\\') = none := by
  have hnil : (List.replicate n '\\').dropWhile (· = '\\') = [] := by simp
  rw [decode]
  split
  · rfl
  · rename_i hcons
    rw [hnil] at hcons
    cases hcons

theorem decode_run (hc : c ≠ '\\') (n : Nat) (more : List Char) :
    decode (List.replicate n '\\' ++ c :: more) = match Piece.ofRun c n with
      | .closing t => some (t, more)
      | .text t => (decode more).map fun (text, left) => (t ++ text, left) := by
  obtain ⟨htake, hdrop⟩ := slashes_stop hc n more
  rw [decode]
  split
  · rename_i hnil
    rw [hdrop] at hnil
    cases hnil
  · rename_i d rest hcons
    rw [hdrop] at hcons
    obtain ⟨rfl, rfl⟩ := List.cons.inj hcons
    rw [htake, List.length_replicate]

/-- A text falls into runs of backslashes, each in front of another character but the last. -/
theorem runs_induction {motive : List Char → Prop}
    (slashes : ∀ n, motive (List.replicate n '\\'))
    (run : ∀ n c more, c ≠ '\\' → motive more → motive (List.replicate n '\\' ++ c :: more))
    (body : List Char) : motive body := by
  induction hn : body.length using Nat.strongRecOn generalizing body with
  | ind n ih =>
    rcases eq_slashes_or body with ⟨m, rfl⟩ | ⟨m, c, more, hc, rfl⟩
    · exact slashes m
    · refine run m c more hc (ih more.length ?_ more rfl)
      rw [List.length_append, List.length_cons] at hn
      omega

/-! ## One run -/

/-- A text that ends in two backslashes takes in no more of them. -/
theorem literalBody_slashes (older : List Char) (n count : Nat) (rest : List Char) :
    literalBody ('\\' :: '\\' :: older) count (List.replicate n '\\' ++ rest) =
      literalBody ('\\' :: '\\' :: older) (count + n) rest := by
  induction n generalizing count with
  | zero => rfl
  | succ n ih =>
    have hmore : pushLiteral ('\\' :: '\\' :: older) '\\' = .more ('\\' :: '\\' :: older) := rfl
    rw [List.replicate_succ, List.cons_append, literalBody_of_more hmore, ih]
    congr 1
    omega

theorem literalBody_of_closed {out : List Char} (h : pushLiteral text c = .closed out) (count : Nat)
    (rest : List Char) : literalBody text count (c :: rest) = some (out.reverse, count + 1) := by
  simp only [literalBody, h]

/-- No literal is closed without a quote. -/
theorem literalBody_of_notMem (h : '"' ∉ body) (text : List Char) (count : Nat) :
    literalBody text count body = none := by
  induction body generalizing text count with
  | nil => rfl
  | cons c body ih =>
    obtain ⟨hc, hbody⟩ := not_or.1 (List.mem_cons.not.1 h)
    cases hstep : pushLiteral text c with
    | closed out => exact absurd (Verdict.eq_quote_of_closed hstep).symm hc
    | more newer => rw [literalBody_of_more hstep, ih hbody]

/-- The text so far with a piece behind it. -/
def extended (text : List Char) (count : Nat) (more : List Char) : Piece → Option (List Char × Nat)
  | .closing t => some (text.reverse ++ t, count)
  | .text t => literalBody (t.reverse ++ text) count more

section
variable (hh : text.head? ≠ some '\\') (c : Char) (count : Nat) (more : List Char)
include hh

/-- A character that no backslash stands in front of. -/
theorem literalBody_unescaped :
    literalBody text count (c :: more) = extended text (count + 1) more (Piece.ofRun c 0) := by
  by_cases hq : c = '"'
  · subst hq
    have hclosed : pushLiteral text '"' = .closed text := pushLiteral_plain hh
    rw [literalBody_of_closed hclosed]
    simp [extended, Piece.ofRun]
  · have hmore : pushLiteral text c = .more (c :: text) := (pushLiteral_plain hh).trans (if_neg hq)
    rw [literalBody_of_more hmore]
    simp [extended, Piece.ofRun, hq]

/-- A character that one backslash escapes. -/
theorem literalBody_escaped_char :
    literalBody text count ('\\' :: c :: more) =
      extended text (count + 2) more (Piece.ofRun c 1) := by
  have hslash : pushLiteral text '\\' = .more ('\\' :: text) := pushLiteral_plain hh
  have hnext := pushLiteral_backslash (c := c) hh
  rw [literalBody_of_more hslash]
  by_cases hq : c = '"'
  · rw [if_pos hq] at hnext
    rw [literalBody_of_more hnext]
    simp [extended, Piece.ofRun, hq]
  rw [if_neg hq] at hnext
  by_cases hs : c = 's'
  · rw [if_pos hs] at hnext
    rw [literalBody_of_more hnext]
    simp [extended, Piece.ofRun, hs]
  · rw [if_neg hs] at hnext
    rw [literalBody_of_more hnext]
    simp [extended, Piece.ofRun, hq, hs]

/-- A character behind two backslashes or more. -/
theorem literalBody_after_slashes (n : Nat) :
    literalBody text count (List.replicate (n + 2) '\\' ++ c :: more) =
      extended text (count + (n + 3)) more (Piece.ofRun c (n + 2)) := by
  have hslash : pushLiteral text '\\' = .more ('\\' :: text) := pushLiteral_plain hh
  have hslashes : pushLiteral ('\\' :: text) '\\' = .more ('\\' :: '\\' :: text) :=
    pushLiteral_backslash hh
  have hread : literalBody text count (List.replicate (n + 2) '\\' ++ c :: more) =
      literalBody ('\\' :: '\\' :: text) (count + (n + 2)) (c :: more) := by
    rw [List.replicate_succ, List.replicate_succ, List.cons_append, List.cons_append,
      literalBody_of_more hslash, literalBody_of_more hslashes, literalBody_slashes]
    congr 1
    omega
  rw [hread]
  by_cases hq : c = '"'
  · subst hq
    have hclosed : pushLiteral ('\\' :: '\\' :: text) '"' = .closed ('\\' :: text) := rfl
    rw [literalBody_of_closed hclosed]
    simp [extended, Piece.ofRun, Nat.add_assoc]
  · have hmore : pushLiteral ('\\' :: '\\' :: text) c = .more (c :: '\\' :: text) := if_neg hq
    rw [literalBody_of_more hmore]
    simp [extended, Piece.ofRun, hq, Nat.add_assoc]

theorem literalBody_run (n : Nat) :
    literalBody text count (List.replicate n '\\' ++ c :: more) =
      extended text (count + (n + 1)) more (Piece.ofRun c n) := by
  match n with
  | 0 => exact literalBody_unescaped hh c count more
  | 1 => exact literalBody_escaped_char hh c count more
  | n + 2 => exact literalBody_after_slashes hh c count more n

end

/-- The text of a run does not end in a backslash. -/
theorem head_of_ofRun (hc : c ≠ '\\') {n : Nat} {t : List Char} (h : Piece.ofRun c n = .text t)
    (text : List Char) : (t.reverse ++ text).head? ≠ some '\\' := by
  unfold Piece.ofRun at h
  split at h
  · split at h
    · cases h
    · cases h
      simpa using hc
  · split at h
    · cases h
      simp
    · split at h
      · cases h
        simp
      · cases h
        simpa using hc
  · split at h
    · cases h
    · cases h
      simpa using hc

/-! ## Whole literals -/

/-- Reading on in a literal comes to what the rest of it decodes to. -/
theorem literalBody_decode (hh : text.head? ≠ some '\\') (count : Nat) (body : List Char) :
    match decode body with
    | none => literalBody text count body = none
    | some (t, left) => ∃ read, body = read ++ left ∧
        literalBody text count body = some (text.reverse ++ t, count + read.length) := by
  induction body using runs_induction generalizing text count with
  | slashes n =>
    rw [decode_slashes]
    exact literalBody_of_notMem (by simp) text count
  | run n c more hc ih =>
    have hlen : (List.replicate n '\\' ++ [c]).length = n + 1 := by simp
    rw [decode_run hc, literalBody_run hh]
    cases hpiece : Piece.ofRun c n with
    | closing t => exact ⟨List.replicate n '\\' ++ [c], by simp, by rw [hlen]; rfl⟩
    | text t =>
      have hrest := ih (head_of_ofRun hc hpiece text) (count + (n + 1))
      cases hmore : decode more with
      | none =>
        rw [hmore] at hrest
        exact hrest
      | some result =>
        obtain ⟨t', left⟩ := result
        rw [hmore] at hrest
        obtain ⟨read, hcut, hread⟩ := hrest
        refine ⟨List.replicate n '\\' ++ [c] ++ read, by simp [hcut], ?_⟩
        rw [List.length_append, hlen]
        simpa [extended, Nat.add_assoc] using hread

end Literal

variable {c : Cursor} {before body : List Char}

/-- In front of a string literal, the recognizer answers what its body decodes to by runs of
backslashes and stands behind the closing quote; where there is none, it reports the opening one. -/
theorem stringLiteral_decodes (hshort : c.source.length < counterBound)
    (h : c.StandsAt before ('"' :: body)) :
    ∃ reading stop, stringLiteral c = .ok (reading, stop) ∧
      match Literal.decode body with
      | some (text, left) => reading.outcome = .matched (String.ofList text) ∧
          ∃ read, body = read ++ '"' :: left ∧ stop.StandsAt (before ++ '"' :: (read ++ ['"'])) left
      | none =>
          reading.outcome = .failed (.unterminatedString c.place.row c.place.col c.source) := by
  have hanswers : Answers stringLiteral c before ('"' :: body) c.last
      (Verdict.ofString ('"' :: body)) := string_judges c before _ c.last h.1
  obtain ⟨seen, before', more', last', hrun, hstop⟩ := hanswers
  rw [← h.eq_behind] at hrun
  refine ⟨_, _, hrun.ok_of_short hshort, ?_⟩
  have hnil : ([] : List Char).head? ≠ some '\\' := by simp
  have hagree := Literal.literalBody_decode hnil 0 body
  cases hdecode : Literal.decode body with
  | none =>
    rw [hdecode] at hagree
    have hopen : Verdict.ofString ('"' :: body) = .unterminated [] := by
      simp only [Verdict.ofString, hagree]
    simp [hopen, Verdict.outcome, unterminatedBehind, h.2]
  | some result =>
    obtain ⟨text, left⟩ := result
    rw [hdecode] at hagree
    obtain ⟨read, rfl, hread⟩ := hagree
    rw [List.reverse_nil, List.nil_append, Nat.zero_add] at hread
    have hclosed : Verdict.ofString ('"' :: (read ++ left)) =
        .matched text ('"' :: read) left := by
      simp only [Verdict.ofString, hread, List.take_left, List.drop_left]
    obtain ⟨rfl, rfl⟩ := hstop _ _ _ hclosed
    obtain ⟨-, _, hshape, hbody⟩ := Verdict.ofString_eq_matched_iff.1 hclosed
    obtain ⟨-, rfl⟩ := List.cons.inj hshape
    obtain ⟨inner, rfl⟩ := List.getLast?_eq_some_iff.1 (Verdict.getLast?_of_isBody hbody)
    refine ⟨by rw [hclosed]; rfl, inner, by simp, ?_, rfl⟩
    simpa using h.1

/-- Runs of one, three, one and two backslashes, on the second line and with text behind the literal. -/
theorem stringLiteral_decodes_slashes :
    "\n\"\\\"\\\\\\s\\b\\\\\" c".length < counterBound ∧
      ∃ reading stop, stringLiteral
          ((Cursor.ofSource "\n\"\\\"\\\\\\s\\b\\\\\" c").behind ['\n']
            "\"\\\"\\\\\\s\\b\\\\\" c".toList none) = .ok (reading, stop) ∧
        reading.outcome = .matched "\"\\s\\b\\" := by
  have hshort : "\n\"\\\"\\\\\\s\\b\\\\\" c".length < counterBound := by decide
  have hstands : ((Cursor.ofSource "\n\"\\\"\\\\\\s\\b\\\\\" c").behind ['\n']
      "\"\\\"\\\\\\s\\b\\\\\" c".toList none).StandsAt ['\n']
      ('"' :: "\\\"\\\\\\s\\b\\\\\" c".toList) := ⟨by decide, rfl⟩
  have hdecode : Literal.decode "\\\"\\\\\\s\\b\\\\\" c".toList =
      some ("\"\\s\\b\\".toList, " c".toList) := by
    cbv
  obtain ⟨reading, stop, hrun, hresult⟩ := stringLiteral_decodes hshort hstands
  rw [hdecode] at hresult
  exact ⟨hshort, reading, stop, hrun, hresult.1⟩

end ExprLex
