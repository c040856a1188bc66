/-
  ExprLex.Proofs.Joining — reading two texts, a line break between them.

  A line break is a break and a separator. So the first text falls into the lexemes that it falls
  into by itself, whatever stands behind the break (`exists_left_before_line`); if that leaves
  separators only, the second text is read like a source of its own, and if it leaves a character
  that begins nothing, that character still begins nothing. `tokenize_joined` says what this comes
  to for the tokens and the failures of two sources and of the two joined.
-/

import ExprLex.Proofs.Breaks
import ExprLex.Proofs.Shifting

namespace ExprLex

variable {settings : LexerSettings} {source : String} {before text rest : List Char}
  {lexemes : List Lexeme} {ending : Ending} {tokens : List Token} {failure : Option LexError}

theorem breaks_line (rest : List Char) : Breaks ('\n' :: rest) :=
  breaks_of_line (stopsAt_cons.2 rfl)

/-- In front of a line break a text falls into its lexemes; what they leave decides the rest. -/
theorem exists_left_before_line (rest : List Char) (h : Lexing settings text lexemes ending) :
    ∃ left, Lexing settings left [] ending ∧ text = lexemes.flatMap Lexeme.whole ++ left ∧
      ∀ source before tokens failure,
        Finds settings source (before ++ lexemes.flatMap Lexeme.whole) (left ++ '\n' :: rest)
          tokens failure →
        Finds settings source before (text ++ '\n' :: rest)
          (tokensBehind before lexemes ++ tokens) failure := by
  induction h with
  | complete hg =>
    exact ⟨_, .complete hg, rfl, fun _ _ _ _ h => by simpa [tokensBehind] using h⟩
  | unrecognized hg hd hnone =>
    exact ⟨_, .unrecognized hg hd hnone, rfl, fun _ _ _ _ h => by simpa [tokensBehind] using h⟩
  | unterminated hg hs hk hv =>
    exact ⟨_, .unterminated hg hs hk hv, rfl, fun _ _ _ _ h => by simpa [tokensBehind] using h⟩
  | @lexeme gap slice more t k lexemes ending hg hs hk hv hl ih =>
    obtain ⟨left, hleft, hmore, hfinds⟩ := ih
    refine ⟨left, hleft, by simp [hmore, Lexeme.whole], fun source before tokens failure h => ?_⟩
    have hb := breaks_line rest
    have hfirst : firstHit settings Kind.trialOrder (slice ++ (more ++ '\n' :: rest)) =
        firstHit settings Kind.trialOrder (slice ++ more) := by
      rw [← List.append_assoc, firstHit_append (ne_nil_of_firstHit hk) hb]
    have hallows : k.rule.Allows settings (more ++ '\n' :: rest) :=
      (verdict_eq_matched_iff.1 hv).2.2.append hb fun _ => stopsAt_cons.2 rfl
    have hrest := hfinds source (before ++ (gap ++ slice)) tokens failure
      (by simpa [Lexeme.whole] using h)
    simpa [tokensBehind, Lexeme.whole] using Finds.lexeme hg hs hk hv hfirst hallows hrest

/-- Behind a text that leaves nothing to read, the next line is read by itself. -/
theorem finds_of_complete (h : Lexing settings text lexemes .complete)
    (hrest : Finds settings source (before ++ (text ++ ['\n'])) rest tokens failure) :
    Finds settings source before (text ++ '\n' :: rest) (tokensBehind before lexemes ++ tokens)
      failure := by
  obtain ⟨left, hleft, htext, hfinds⟩ := exists_left_before_line rest h
  apply hfinds
  cases hleft with
  | complete hg =>
    have hline : ∀ d ∈ left ++ ['\n'], settings.isSeparator d = true := by
      intro d hd
      rcases List.mem_append.1 hd with hd | hd
      · exact hg d hd
      · rw [List.mem_singleton.1 hd]
        simp [LexerSettings.isSeparator]
    rw [show left ++ '\n' :: rest = (left ++ ['\n']) ++ rest by simp]
    refine Finds.gap hline ?_
    rwa [htext, List.append_assoc, ← List.append_assoc before] at hrest

/-- Nothing that follows a line break makes anything of a character that begins nothing. -/
theorem finds_of_unrecognized {ahead : List Char} {d : Char} (rest : List Char)
    (h : Lexing settings text lexemes (.unrecognized ahead d)) :
    Finds settings source before (text ++ '\n' :: rest) (tokensBehind before lexemes)
      ((Ending.unrecognized ahead d).failure source (before ++ lexemes.flatMap Lexeme.whole)) := by
  obtain ⟨left, hleft, -, hfinds⟩ := exists_left_before_line rest h
  rw [← List.append_nil (tokensBehind before lexemes)]
  apply hfinds
  cases hleft with
  | unrecognized hg hd hnone =>
    rw [List.append_assoc, List.cons_append]
    refine ⟨[], _, .unrecognized hg hd ?_, rfl, by simp⟩
    rw [← List.cons_append, firstHit_append (List.cons_ne_nil _ _) (breaks_line rest), hnone]

/-! ## Whole sources -/

/-- What the second source comes to follows, in the joined source, the tokens of the first. -/
theorem finds_joined {a b : String} {ts us : List Token}
    (ha : tokenize a settings = .ok (.ok ts))
    (hb : Finds settings b [] b.toList us failure) :
    Finds settings (a ++ "\n" ++ b) [] (a ++ "\n" ++ b).toList
      (ts ++ us.map (Token.shift (a.utf8ByteSize + 1) (a.toList.count '\n' + 1) 0))
      (failure.map (LexError.shift (a.toList.count '\n' + 1) 0 (a ++ "\n" ++ b))) := by
  obtain ⟨lexemes, hl, rfl⟩ := exists_lexing_of_tokenize ha
  have hfinds := finds_of_complete hl (hb.shift (a ++ "\n" ++ b) ([] ++ (a.toList ++ ['\n'])))
  simp only [List.nil_append, byteLength_append, byteLength_toList, List.count_append,
    lastLine_snoc_break] at hfinds
  have hjoined : (a ++ "\n" ++ b).toList = a.toList ++ '\n' :: b.toList := by simp
  rw [hjoined]
  exact hfinds

/-- A source that fails at a character that begins nothing fails there with more lines behind it. -/
theorem finds_of_error {a : String} {row col : Nat} {d : Char} (source : String) (rest : List Char)
    (h : tokenize a settings = .ok (.error (.unrecognizedCharacter row col d a))) :
    ∃ tokens, Finds settings source [] (a.toList ++ '\n' :: rest) tokens
      (some (.unrecognizedCharacter row col d source)) := by
  obtain ⟨lexemes, ending, hl, hends⟩ := exists_lexing_of_error h
  cases ending with
  | complete => cases hends
  | unterminated ahead => cases hends
  | unrecognized ahead d' =>
    cases hends
    exact ⟨_, finds_of_unrecognized rest hl⟩

/-- Reading two sources joined by a line break is reading one after the other: the second is read
as if alone, in later rows and further bytes, and a character of the first that begins nothing ends
the reading as before. -/
theorem tokenize_joined (settings : LexerSettings) {a b : String}
    (hshort : (a ++ "\n" ++ b).length < counterBound) :
    (∀ ts, tokenize a settings = .ok (.ok ts) →
      (∀ us, tokenize (a ++ "\n" ++ b) settings = .ok (.ok (ts ++ us.map
          (Token.shift (a.utf8ByteSize + 1) (a.toList.count '\n' + 1) 0))) ↔
        tokenize b settings = .ok (.ok us)) ∧
      (∀ vs, tokenize (a ++ "\n" ++ b) settings = .ok (.ok vs) →
        ∃ us, tokenize b settings = .ok (.ok us)) ∧
      ∀ e, tokenize b settings = .ok (.error e) → tokenize (a ++ "\n" ++ b) settings =
        .ok (.error (e.shift (a.toList.count '\n' + 1) 0 (a ++ "\n" ++ b)))) ∧
    ∀ row col d, tokenize a settings = .ok (.error (.unrecognizedCharacter row col d a)) →
      tokenize (a ++ "\n" ++ b) settings =
        .ok (.error (.unrecognizedCharacter row col d (a ++ "\n" ++ b))) := by
  have hb : b.length < counterBound := by
    simp only [String.length_append] at hshort
    omega
  constructor
  · intro ts hts
    obtain ⟨us, failure, halone⟩ := exists_finds settings b [] b.toList
    have hfinds := finds_joined hts halone
    cases failure with
    | none =>
      have hus := halone.tokenize_ok hb
      have hboth := hfinds.tokenize_ok hshort
      refine ⟨fun us' => ?_, fun _ _ => ⟨us, hus⟩, fun e he => ?_⟩
      · rw [hus]
        constructor
        · intro h
          rw [hboth] at h
          have hmap := List.append_cancel_left (Except.ok.inj (Except.ok.inj h))
          rw [(List.map_inj_right (Token.shift_injective _ _ _)).1 hmap]
        · intro h
          cases h
          exact hboth
      · rw [hus] at he
        cases he
    | some e =>
      have hus := halone.tokenize_error hb
      have hboth := hfinds.tokenize_error hshort
      refine ⟨fun us' => ?_, fun vs h => ?_, fun e' he => ?_⟩
      · rw [hus, hboth]
        constructor
        · intro h
          cases h
        · intro h
          cases h
      · rw [hboth] at h
        cases h
      · rw [hus] at he
        cases he
        exact hboth
  · intro row col d ha
    have hjoined : (a ++ "\n" ++ b).toList = a.toList ++ '\n' :: b.toList := by simp
    obtain ⟨tokens, hfinds⟩ := finds_of_error (a ++ "\n" ++ b) b.toList ha
    rw [← hjoined] at hfinds
    exact hfinds.tokenize_error hshort

/-- A number and a comment run up to the line break; the next line moves by eight bytes. -/
theorem tokenize_joined_comment : ("1.5 #é" ++ "\n" ++ ">= 2").length < counterBound ∧
    tokenize "1.5 #é" = .ok (.ok [⟨.double, .value, "1.5", 0, 0, ⟨0, 3, 0, 0⟩⟩,
      ⟨.comment, .invisible, "é", 0, 4, ⟨4, 7, 0, 4⟩⟩]) ∧
    tokenize ">= 2" = .ok (.ok [⟨.greaterThanOrEqual, .operator, ">=", 0, 0, ⟨0, 2, 0, 0⟩⟩,
      ⟨.long, .value, "2", 0, 3, ⟨3, 4, 0, 3⟩⟩]) ∧
    tokenize ("1.5 #é" ++ "\n" ++ ">= 2") =
      .ok (.ok [⟨.double, .value, "1.5", 0, 0, ⟨0, 3, 0, 0⟩⟩,
        ⟨.comment, .invisible, "é", 0, 4, ⟨4, 7, 0, 4⟩⟩,
        ⟨.greaterThanOrEqual, .operator, ">=", 1, 0, ⟨8, 10, 1, 0⟩⟩,
        ⟨.long, .value, "2", 1, 3, ⟨11, 12, 1, 3⟩⟩]) := by
  have hshort : ("1.5 #é" ++ "\n" ++ ">= 2").length < counterBound := by decide
  have ha : tokenize "1.5 #é" = .ok (.ok [⟨.double, .value, "1.5", 0, 0, ⟨0, 3, 0, 0⟩⟩,
      ⟨.comment, .invisible, "é", 0, 4, ⟨4, 7, 0, 4⟩⟩]) := by
    decide +kernel
  have hb : tokenize ">= 2" = .ok (.ok [⟨.greaterThanOrEqual, .operator, ">=", 0, 0, ⟨0, 2, 0, 0⟩⟩,
      ⟨.long, .value, "2", 0, 3, ⟨3, 4, 0, 3⟩⟩]) := by
    decide +kernel
  exact ⟨hshort, ha, hb, (((tokenize_joined {} hshort).1 _ ha).1 _).2 hb⟩

end ExprLex
