/-
  ExprLex.Proofs.Rereading — the reader of documents accepts what the grammar spells.

  The grammar of documents is a relation of its own (`Spells`): which texts stand for a value, for the
  items of an array or the members of an object from the first one through the closing bracket, with
  blanks wherever they may stand. The reader takes every such text back, with any rest behind it, as
  long as the rest does not go on with a number. That is proved along the derivation
  (`Spells.readFrom`); the fuel only has to exceed the length of the text. The strings spelled are
  those of texts: two halves of a surrogate pair that were written one by one would be joined.
-/

import ExprLex.Json
import ExprLex.Proofs.Reading

namespace ExprLex.Json

open Text (Reader Scientific)

variable {rest after : List Char}

/-! ## The grammar -/

/-- Characters that stand in a string as an escape only. -/
def MustEscape (c : Char) : Prop := c = '"' ∨ c = '\\' ∨ c.toNat < 0x20

/-- What may be written for a character of a string. -/
inductive SpellsChar (c : Char) : List Char → Prop where
  | raw : ¬ MustEscape c → SpellsChar c [c]
  | letter {letter : Char} : escapeOf? letter = some c.toNat → SpellsChar c ['\\', letter]
  | digits {digits : List Char} : digits.length = 4 → digits.all Text.isHexDigit = true →
      Text.ofDigits 16 digits = c.toNat → SpellsChar c ('\\' :: 'u' :: digits)

/-- What may be written for a text behind its opening quote. -/
inductive SpellsText : List Char → List Char → Prop where
  | nil : SpellsText [] ['"']
  | cons {c : Char} {text piece tail : List Char} : SpellsChar c piece → SpellsText text tail →
      SpellsText (c :: text) (piece ++ tail)

def isBlank (c : Char) : Bool := c = ' ' || c = '\t' || c = '\n' || c = '\r'

def IsBlanks (gap : List Char) : Prop := ∀ c ∈ gap, isBlank c = true

/-- What a stretch of a document can stand for. -/
inductive Part where
  | value (j : Json)
  /-- The items of an array from the first one through the bracket. -/
  | items (items : List Json)
  | member (name : List Char) (value : Json)
  /-- The members of an object from the first one through the brace. -/
  | members (members : List (List Nat × Json))

/-- What may be written for a part of a document. -/
inductive Spells : Part → List Char → Prop where
  | null : Spells (.value .null) "null".toList
  | trueWord : Spells (.value (.bool true)) "true".toList
  | falseWord : Spells (.value (.bool false)) "false".toList
  | number (n : Scientific) : Spells (.value (.number n)) n.text
  | string {text tail : List Char} : SpellsText text tail →
      Spells (.value (.string (text.map Char.toNat))) ('"' :: tail)
  | emptyArray {gap : List Char} : IsBlanks gap → Spells (.value (.array [])) ('[' :: (gap ++ [']']))
  | array {gap text : List Char} {items : List Json} : IsBlanks gap → Spells (.items items) text →
      Spells (.value (.array items)) ('[' :: (gap ++ text))
  | lastItem {text gap : List Char} {item : Json} : Spells (.value item) text → IsBlanks gap →
      Spells (.items [item]) (text ++ (gap ++ [']']))
  | item {text gap gap' tail : List Char} {item : Json} {more : List Json} :
      Spells (.value item) text → IsBlanks gap → IsBlanks gap' → Spells (.items more) tail →
      Spells (.items (item :: more)) (text ++ (gap ++ ',' :: (gap' ++ tail)))
  | emptyObject {gap : List Char} : IsBlanks gap →
      Spells (.value (.object [])) ('{' :: (gap ++ ['}']))
  | object {gap text : List Char} {members : List (List Nat × Json)} : IsBlanks gap →
      Spells (.members members) text → Spells (.value (.object members)) ('{' :: (gap ++ text))
  | pair {name key gap gap' text : List Char} {value : Json} : SpellsText name key → IsBlanks gap →
      IsBlanks gap' → Spells (.value value) text →
      Spells (.member name value) ('"' :: (key ++ (gap ++ ':' :: (gap' ++ text))))
  | lastMember {name text gap : List Char} {value : Json} : Spells (.member name value) text →
      IsBlanks gap → Spells (.members [(name.map Char.toNat, value)]) (text ++ (gap ++ ['}']))
  | member {name text gap gap' tail : List Char} {value : Json} {more : List (List Nat × Json)} :
      Spells (.member name value) text → IsBlanks gap → IsBlanks gap' → Spells (.members more) tail →
      Spells (.members ((name.map Char.toNat, value) :: more)) (text ++ (gap ++ ',' :: (gap' ++ tail)))

/-! ## Strings -/

section
variable {units : List Nat} {c : Char} {text piece tail : List Char}

theorem readUnits_letter {letter : Char} {n : Nat} (hn : escapeOf? letter = some n)
    (h : readUnits rest = some (units, after)) :
    readUnits ('\\' :: letter :: rest) = some (n :: units, after) := by
  have hu : letter ≠ 'u' := by
    rintro rfl
    cases hn
  rw [readUnits, hn, h]
  · rfl
  · exact fun _ _ _ _ _ hl _ => hu hl

theorem readUnits_digits {digits : List Char} (hlen : digits.length = 4)
    (hhex : digits.all Text.isHexDigit = true) (h : readUnits rest = some (units, after)) :
    readUnits ('\\' :: 'u' :: (digits ++ rest)) = some (Text.ofDigits 16 digits :: units, after) := by
  match digits, hlen with
  | [a, b, c, d], _ =>
    simp only [List.cons_append, List.nil_append]
    rw [readUnits, if_pos hhex, h]
    rfl

theorem readUnits_raw (hc : ¬ MustEscape c) (h : readUnits rest = some (units, after)) :
    readUnits (c :: rest) = some (c.toNat :: units, after) := by
  have hquote : c ≠ '"' := fun hq => hc (.inl hq)
  have hslash : c ≠ '\\' := fun hs => hc (.inr (.inl hs))
  have hspace : ¬ c.toNat < 0x20 := fun hs => hc (.inr (.inr hs))
  rw [readUnits, if_neg hspace, h]
  · rfl
  · exact hquote
  · exact fun _ _ _ _ _ hc _ => hslash hc
  · exact fun _ _ hc _ => hslash hc

theorem SpellsChar.readUnits (hc : SpellsChar c piece) (h : readUnits rest = some (units, after)) :
    Json.readUnits (piece ++ rest) = some (c.toNat :: units, after) := by
  cases hc with
  | raw hc => exact readUnits_raw hc h
  | letter hl => exact readUnits_letter hl h
  | digits hlen hhex hvalue => exact hvalue ▸ readUnits_digits hlen hhex h

theorem SpellsText.readUnits (h : SpellsText text tail) (rest : List Char) :
    Json.readUnits (tail ++ rest) = some (text.map Char.toNat, rest) := by
  induction h with
  | nil => rfl
  | cons hc _ ih =>
    rw [List.append_assoc]
    exact hc.readUnits ih

/-- Characters are no halves of a surrogate pair. -/
theorem joinSurrogates_map (text : List Char) :
    joinSurrogates (text.map Char.toNat) = text.map Char.toNat := by
  induction text with
  | nil => rfl
  | cons c text ih =>
    cases text with
    | nil => rfl
    | cons d text =>
      have hc : ¬ (0xd800 ≤ c.toNat ∧ c.toNat < 0xdc00 ∧ 0xdc00 ≤ d.toNat ∧ d.toNat < 0xe000) := by
        have hvalid : c.toNat < 0xd800 ∨ 0xdfff < c.toNat ∧ c.toNat < 0x110000 := c.valid
        omega
      rw [List.map_cons, List.map_cons, joinSurrogates, if_neg hc, ← List.map_cons, ih]

theorem SpellsText.readString (h : SpellsText text tail) (rest : List Char) :
    Json.readString (tail ++ rest) = some (text.map Char.toNat, rest) := by
  have hread : Json.readString (tail ++ rest) =
      some (joinSurrogates (text.map Char.toNat), rest) := by
    rw [Json.readString, h.readUnits]
    rfl
  rw [hread, joinSurrogates_map]

end

/-! ## Numbers -/

/-- A character with a property is none without it. -/
theorem differs {p : Char → Bool} {c d : Char} (hc : p c = false) (hd : p d = true) :
    decide (d = c) = false := by
  refine decide_eq_false ?_
  rintro rfl
  rw [hc] at hd
  cases hd

/-- What a number could go on with. -/
def continuesNumber (c : Char) : Bool := c.isDigit || c = '.' || c = 'e' || c = 'E'

theorem stopsAt_digits {p : Char → Bool} (hp : ∀ c, c.isDigit = true → p c = false) (n : Nat)
    (rest : List Char) : StopsAt p (Nat.toDigits 10 n ++ rest) := by
  obtain ⟨d, digits, hdigits⟩ := List.exists_cons_of_ne_nil (@Nat.toDigits_ne_nil n 10)
  have hd : d.isDigit = true := Text.isDigit_of_mem_decimal d (hdigits ▸ List.mem_cons_self)
  rw [hdigits, List.cons_append]
  exact stopsAt_cons.2 (hp d hd)

theorem stopsAt_sign {c : Char} (hc : c.isDigit = false) (n : Nat) (rest : List Char) :
    StopsAt (· = c) (Nat.toDigits 10 n ++ rest) :=
  stopsAt_digits (fun _ => differs hc) n rest

theorem stopsAt_zero {n : Nat} (hn : n ≠ 0) (rest : List Char) :
    StopsAt (· = '0') (Nat.toDigits 10 n ++ rest) := by
  have hdigits : StopsAt (· = '0') (Nat.toDigits 10 n) := by
    induction n using Nat.strongRecOn with
    | ind n ih =>
      rw [Nat.toDigits_eq_if (by decide)]
      split
      · rename_i hlt
        refine stopsAt_cons.2 (decide_eq_false fun hzero => hn ?_)
        exact Nat.digitChar_eq_zero.1 hzero
      · exact (ih (n / 10) (by omega) (by omega)).append_of_ne_nil Nat.toDigits_ne_nil _
  exact hdigits.append_of_ne_nil Nat.toDigits_ne_nil rest

theorem readWhole_append (n : Nat) (hstop : StopsAt Char.isDigit rest) :
    readWhole (Nat.toDigits 10 n ++ rest) = some (Nat.toDigits 10 n, rest) := by
  by_cases hn : n = 0
  · subst hn
    rw [Nat.toDigits_zero, readWhole, Reader.bind_of_eq_some (Reader.accept_append ['0'] rest)]
    rfl
  · rw [readWhole, Reader.bind_of_eq_some (Reader.accept_of_stopsAt (stopsAt_zero hn rest))]
    exact Reader.readSome_append Nat.toDigits_ne_nil Text.isDigit_of_mem_decimal hstop

theorem readFraction_of_stopsAt (hstop : StopsAt (· = '.') rest) :
    readFraction rest = some ([], rest) := by
  rw [readFraction, Reader.bind_of_eq_some (Reader.accept_of_stopsAt hstop)]
  rfl

/-- The exponent of a number as it is written. -/
def writeExponent (e : Int) : List Char :=
  if e = 0 then [] else 'e' :: (if e < 0 then ['-'] else []) ++ Nat.toDigits 10 e.natAbs

theorem text_eq (n : Scientific) : n.text =
    (if n.negative then ['-'] else []) ++ (Nat.toDigits 10 n.digits ++ writeExponent n.exponent) := by
  rw [Scientific.text, List.append_assoc]
  rfl

theorem stopsAt_writeExponent {p : Char → Bool} (e : Int) (he : p 'e' = false)
    (hstop : StopsAt p rest) : StopsAt p (writeExponent e ++ rest) := by
  unfold writeExponent
  split
  · exact hstop
  · exact stopsAt_cons.2 he

theorem stopsAt_isDigit (h : StopsAt continuesNumber rest) : StopsAt Char.isDigit rest :=
  h.mono (by simp +contextual [continuesNumber])

theorem stopsAt_point (h : StopsAt continuesNumber rest) : StopsAt (· = '.') rest :=
  h.mono (by simp [continuesNumber])

theorem readExponent_of_stopsAt (hstop : StopsAt continuesNumber rest) :
    readExponent rest = some (0, rest) := by
  have hlower : rest.head? ≠ some 'e' := fun hhead => by cases hstop _ hhead
  have hupper : rest.head? ≠ some 'E' := fun hhead => by cases hstop _ hhead
  rw [readExponent, Reader.bind_of_eq_some (Reader.peek_eq _)]
  generalize rest.head? = head at hlower hupper ⊢
  split
  · exact absurd rfl hlower
  · exact absurd rfl hupper
  · rfl

theorem readExponent_mark (rest : List Char) : readExponent ('e' :: rest) = (do
    let negative ← Reader.accept ['-']
    if !negative then let _ ← Reader.accept ['+']
    let n := Text.ofDigits 10 (← Reader.readSome Char.isDigit)
    return if negative then -n else n : Reader Int) rest := rfl

theorem readExponent_append (e : Int) (hstop : StopsAt continuesNumber rest) :
    readExponent (writeExponent e ++ rest) = some (e, rest) := by
  by_cases he : e = 0
  · subst he
    exact readExponent_of_stopsAt hstop
  · have hdigits := Reader.readSome_append (@Nat.toDigits_ne_nil e.natAbs 10)
      Text.isDigit_of_mem_decimal (stopsAt_isDigit hstop)
    rw [writeExponent, if_neg he, List.append_assoc, List.cons_append, readExponent_mark]
    by_cases hneg : e < 0
    · rw [if_pos hneg, Reader.bind_of_eq_some (Reader.accept_append ['-'] _)]
      show (Reader.readSome Char.isDigit >>= _) _ = _
      rw [Reader.bind_of_eq_some hdigits, Text.ofDigits_toDigits (by decide) (by decide)]
      show some (-(e.natAbs : Int), rest) = some (e, rest)
      rw [show -(e.natAbs : Int) = e by omega]
    · have hminus := @Reader.accept_of_stopsAt _ '-' (stopsAt_sign (by decide) e.natAbs rest)
      have hplus := @Reader.accept_of_stopsAt _ '+' (stopsAt_sign (by decide) e.natAbs rest)
      rw [if_neg hneg, List.nil_append, Reader.bind_of_eq_some hminus]
      show (Reader.accept ['+'] >>= fun _ => Reader.readSome Char.isDigit >>= _) _ = _
      rw [Reader.bind_of_eq_some hplus, Reader.bind_of_eq_some hdigits,
        Text.ofDigits_toDigits (by decide) (by decide)]
      show some ((e.natAbs : Int), rest) = some (e, rest)
      rw [show (e.natAbs : Int) = e by omega]

theorem stopsAt_text {p : Char → Bool} (hminus : p '-' = false)
    (hdigit : ∀ c, c.isDigit = true → p c = false) (n : Scientific) (rest : List Char) :
    StopsAt p (n.text ++ rest) := by
  rw [text_eq, List.append_assoc, List.append_assoc]
  cases n.negative with
  | true => exact stopsAt_cons.2 hminus
  | false => exact stopsAt_digits hdigit n.digits _

theorem readNumber_text (n : Scientific) (hstop : StopsAt continuesNumber rest) :
    readNumber (n.text ++ rest) = some (n, rest) := by
  have hsign : Reader.accept ['-'] (n.text ++ rest) =
      some (n.negative, Nat.toDigits 10 n.digits ++ (writeExponent n.exponent ++ rest)) := by
    rw [text_eq, List.append_assoc, List.append_assoc]
    cases n.negative with
    | true => exact Reader.accept_append ['-'] _
    | false => exact Reader.accept_of_stopsAt (stopsAt_sign (by decide) _ _)
  have hwhole := readWhole_append n.digits
    (stopsAt_writeExponent n.exponent (by decide) (stopsAt_isDigit hstop))
  have hfraction := readFraction_of_stopsAt
    (stopsAt_writeExponent n.exponent (by decide) (stopsAt_point hstop))
  rw [readNumber, Reader.bind_of_eq_some hsign, Reader.bind_of_eq_some hwhole,
    Reader.bind_of_eq_some hfraction, Reader.bind_of_eq_some (readExponent_append _ hstop),
    List.append_nil, Text.ofDigits_toDigits (by decide) (by decide)]
  show some (⟨n.negative, n.digits, n.exponent - (0 : Nat)⟩, rest) = some (n, rest)
  rw [Int.ofNat_zero, Int.sub_zero]

/-! ## Blanks -/

section
variable {gap : List Char}

theorem eq_of_isBlank {c : Char} (h : isBlank c = true) : c = ' ' ∨ c = '\t' ∨ c = '\n' ∨ c = '\r' := by
  simpa [isBlank, or_assoc] using h

/-- Blanks go on with nothing but blanks. -/
theorem IsBlanks.stopsAt {p : Char → Bool} (hgap : IsBlanks gap)
    (hp : ∀ c, isBlank c = true → p c = false) (hstop : StopsAt p rest) : StopsAt p (gap ++ rest) := by
  cases gap with
  | nil => exact hstop
  | cons c gap => exact stopsAt_cons.2 (hp c (hgap c List.mem_cons_self))

theorem continuesNumber_of_isBlank (c : Char) (h : isBlank c = true) : continuesNumber c = false := by
  rcases eq_of_isBlank h with rfl | rfl | rfl | rfl <;> rfl

theorem skipBlanks_append (hgap : IsBlanks gap) (hstop : StopsAt isBlank rest) :
    skipBlanks (gap ++ rest) = some ((), rest) :=
  Reader.bind_of_eq_some (Reader.readWhile_append hgap hstop)

end

/-! ## The first character of a part -/

/-- What a value can begin with. -/
def opensValue (c : Char) : Bool := c.isDigit || c ∈ ['-', '"', '[', '{', 'n', 't', 'f']

theorem Spells.stopsAt {part : Part} {text : List Char} {p : Char → Bool} (h : Spells part text)
    (hp : ∀ c, opensValue c = true → p c = false) (rest : List Char) : StopsAt p (text ++ rest) := by
  have hfirst : ∀ {c : Char} (text : List Char), opensValue c = true → StopsAt p (c :: text) :=
    fun _ hc => stopsAt_cons.2 (hp _ hc)
  induction h generalizing rest with
  | null | trueWord | falseWord => exact hfirst _ (by decide)
  | number n => exact stopsAt_text (hp _ (by decide)) (fun c hc => hp c (by simp [opensValue, hc])) n rest
  | string | emptyArray | array | emptyObject | object | pair => exact hfirst _ (by decide)
  | lastItem _ _ ih | lastMember _ _ ih =>
    rw [List.append_assoc]
    exact ih _
  | item _ _ _ _ ih | member _ _ _ _ ih =>
    rw [List.append_assoc]
    exact ih _

theorem Spells.stopsAt_blank {part : Part} {text : List Char} (h : Spells part text)
    (rest : List Char) : StopsAt isBlank (text ++ rest) := by
  refine h.stopsAt (fun c hc => ?_) rest
  cases hblank : isBlank c with
  | false => rfl
  | true => rcases eq_of_isBlank hblank with rfl | rfl | rfl | rfl <;> cases hc

/-- No part begins with a closing bracket. -/
theorem Spells.stopsAt_closing {part : Part} {text : List Char} {c : Char} (h : Spells part text)
    (hc : opensValue c = false) (rest : List Char) : StopsAt (· = c) (text ++ rest) :=
  h.stopsAt (fun _ => differs hc) rest

/-! ## Values -/

/-- How a reader goes on behind an opening bracket. -/
def behindOpening (closing : Char) (empty : Json) (parts : Reader Json) : Reader Json := do
  skipBlanks
  if ← Reader.accept [closing] then return empty else parts

/-- How a reader goes on behind an item or a member. -/
def behindPart {α : Type} (closing : Char) (more : Reader (List α)) (part : α) :
    Reader (List α) := do
  skipBlanks
  if ← Reader.accept [','] then
    skipBlanks
    return part :: (← more)
  else
    Reader.exactly [closing]
    return [part]

section
variable {closing : Char} {gap gap' text : List Char}

theorem behindOpening_empty {empty : Json} {parts : Reader Json} (hgap : IsBlanks gap)
    (hclosing : isBlank closing = false) (rest : List Char) :
    behindOpening closing empty parts (gap ++ closing :: rest) = some (empty, rest) := by
  rw [behindOpening, Reader.bind_of_eq_some (skipBlanks_append hgap (stopsAt_cons.2 hclosing)),
    Reader.bind_of_eq_some (Reader.accept_cons closing rest)]
  rfl

theorem behindOpening_parts {empty : Json} {parts : Reader Json} (hgap : IsBlanks gap)
    (hblank : StopsAt isBlank text) (hclosing : StopsAt (· = closing) text) :
    behindOpening closing empty parts (gap ++ text) = parts text := by
  rw [behindOpening, Reader.bind_of_eq_some (skipBlanks_append hgap hblank),
    Reader.bind_of_eq_some (Reader.accept_of_stopsAt hclosing)]
  rfl

variable {α : Type} {more : Reader (List α)} {part : α}

theorem behindPart_last (hgap : IsBlanks gap) (hblank : isBlank closing = false)
    (hcomma : closing ≠ ',') (rest : List Char) :
    behindPart closing more part (gap ++ closing :: rest) = some ([part], rest) := by
  rw [behindPart, Reader.bind_of_eq_some (skipBlanks_append hgap (stopsAt_cons.2 hblank)),
    Reader.bind_of_eq_some (Reader.accept_of_ne hcomma rest)]
  show (Reader.exactly [closing] >>= _) _ = _
  rw [Reader.bind_of_eq_some (Reader.exactly_cons closing rest)]
  rfl

theorem behindPart_more {parts : List α} (hgap : IsBlanks gap) (hgap' : IsBlanks gap')
    (hblank : StopsAt isBlank text) (hmore : more text = some (parts, rest)) :
    behindPart closing more part (gap ++ ',' :: (gap' ++ text)) = some (part :: parts, rest) := by
  rw [behindPart, Reader.bind_of_eq_some (skipBlanks_append hgap (stopsAt_cons.2 (by decide))),
    Reader.bind_of_eq_some (Reader.accept_cons ',' _)]
  show (skipBlanks >>= fun _ => more >>= _) _ = _
  rw [Reader.bind_of_eq_some (skipBlanks_append hgap' hblank), Reader.bind_of_eq_some hmore]
  rfl

end

/-- The text of a part is read as that part, with fuel for each of its characters, and leaves the rest
behind it. A value that is a number must end with its text. -/
def Part.ReadFrom : Part → List Char → Prop
  | value j, text => ∀ fuel rest, text.length < fuel → StopsAt continuesNumber rest →
      readValue fuel (text ++ rest) = some (j, rest)
  | items js, text => ∀ fuel rest, text.length < fuel → readItems fuel (text ++ rest) = some (js, rest)
  | member name j, text => ∀ fuel rest, text.length ≤ fuel → StopsAt continuesNumber rest →
      readMembers (fuel + 1) (text ++ rest) =
        behindPart '}' (readMembers fuel) (name.map Char.toNat, j) rest
  | members ms, text => ∀ fuel rest, text.length < fuel →
      readMembers fuel (text ++ rest) = some (ms, rest)

section
variable {fuel : Nat} {text gap gap' tail name key : List Char} {j : Json}

/-- A text that opens no other value is read as a number. -/
theorem readValue_number (hstop : StopsAt (· ∈ ['"', '[', '{', 'n', 't', 'f']) rest) :
    readValue (fuel + 1) rest = (do return number (← readNumber) : Reader Json) rest := by
  rw [readValue, Reader.bind_of_eq_some (Reader.peek_eq _)]
  have hhead : ∀ c, rest.head? = some c → c ∉ ['"', '[', '{', 'n', 't', 'f'] :=
    fun c hc => of_decide_eq_false (hstop c hc)
  generalize rest.head? = head at hhead ⊢
  split
  case h_7 => rfl
  all_goals exact absurd (by decide) (hhead _ rfl)

/-- No number begins as a string, a bracket or a word does. -/
theorem isDigit_opens_number {c : Char} (hc : c.isDigit = true) :
    decide (c ∈ ['"', '[', '{', 'n', 't', 'f']) = false := by
  refine decide_eq_false fun hmem => ?_
  simp only [List.mem_cons, List.not_mem_nil, or_false] at hmem
  rcases hmem with rfl | rfl | rfl | rfl | rfl | rfl <;> cases hc

theorem readFrom_number (n : Scientific) : (Part.value (number n)).ReadFrom n.text := by
  intro fuel rest hfuel hstop
  obtain ⟨fuel, rfl⟩ := Nat.exists_eq_add_one.2 (Nat.zero_lt_of_lt hfuel)
  rw [readValue_number (stopsAt_text (by decide) (fun _ => isDigit_opens_number) n rest),
    Reader.bind_of_eq_some (readNumber_text n hstop)]
  rfl

theorem readFrom_string (h : SpellsText text tail) :
    (Part.value (string (text.map Char.toNat))).ReadFrom ('"' :: tail) := by
  intro fuel rest hfuel _
  obtain ⟨fuel, rfl⟩ := Nat.exists_eq_add_one.2 (Nat.zero_lt_of_lt hfuel)
  rw [List.cons_append, readValue, Reader.bind_of_eq_some (Reader.peek_eq _)]
  simp only [List.head?_cons]
  rw [Reader.bind_of_eq_some (Reader.exactly_cons '"' _),
    Reader.bind_of_eq_some (h.readString rest)]
  rfl

theorem readValue_bracket (text : List Char) : readValue (fuel + 1) ('[' :: text) =
    behindOpening ']' (array []) (return array (← readItems fuel)) text := by
  rw [readValue, Reader.bind_of_eq_some (Reader.peek_eq _)]
  simp only [List.head?_cons]
  exact Reader.bind_of_eq_some (Reader.exactly_cons '[' text)

theorem readValue_brace (text : List Char) : readValue (fuel + 1) ('{' :: text) =
    behindOpening '}' (object []) (return object (← readMembers fuel)) text := by
  rw [readValue, Reader.bind_of_eq_some (Reader.peek_eq _)]
  simp only [List.head?_cons]
  exact Reader.bind_of_eq_some (Reader.exactly_cons '{' text)

theorem readFrom_emptyArray (hgap : IsBlanks gap) :
    (Part.value (array [])).ReadFrom ('[' :: (gap ++ [']'])) := by
  intro fuel rest hfuel _
  obtain ⟨fuel, rfl⟩ := Nat.exists_eq_add_one.2 (Nat.zero_lt_of_lt hfuel)
  simp only [List.append_assoc, List.cons_append, List.nil_append]
  rw [readValue_bracket, behindOpening_empty hgap (by decide)]

theorem readFrom_emptyObject (hgap : IsBlanks gap) :
    (Part.value (object [])).ReadFrom ('{' :: (gap ++ ['}'])) := by
  intro fuel rest hfuel _
  obtain ⟨fuel, rfl⟩ := Nat.exists_eq_add_one.2 (Nat.zero_lt_of_lt hfuel)
  simp only [List.append_assoc, List.cons_append, List.nil_append]
  rw [readValue_brace, behindOpening_empty hgap (by decide)]

theorem readFrom_array {items : List Json} (hgap : IsBlanks gap) (h : Spells (.items items) text)
    (hread : (Part.items items).ReadFrom text) :
    (Part.value (array items)).ReadFrom ('[' :: (gap ++ text)) := by
  intro fuel rest hfuel _
  obtain ⟨fuel, rfl⟩ := Nat.exists_eq_add_one.2 (Nat.zero_lt_of_lt hfuel)
  rw [List.length_cons, List.length_append] at hfuel
  rw [List.cons_append, List.append_assoc, readValue_bracket,
    behindOpening_parts hgap (h.stopsAt_blank rest) (h.stopsAt_closing (by decide) rest),
    Reader.bind_of_eq_some (hread fuel rest (by omega))]
  rfl

theorem readFrom_object {members : List (List Nat × Json)} (hgap : IsBlanks gap)
    (h : Spells (.members members) text) (hread : (Part.members members).ReadFrom text) :
    (Part.value (object members)).ReadFrom ('{' :: (gap ++ text)) := by
  intro fuel rest hfuel _
  obtain ⟨fuel, rfl⟩ := Nat.exists_eq_add_one.2 (Nat.zero_lt_of_lt hfuel)
  rw [List.length_cons, List.length_append] at hfuel
  rw [List.cons_append, List.append_assoc, readValue_brace,
    behindOpening_parts hgap (h.stopsAt_blank rest) (h.stopsAt_closing (by decide) rest),
    Reader.bind_of_eq_some (hread fuel rest (by omega))]
  rfl

/-- An item is read, and the reader goes on behind it. -/
theorem readItems_append (hvalue : (Part.value j).ReadFrom text)
    (hfuel : text.length < fuel) (hstop : StopsAt continuesNumber rest) :
    readItems (fuel + 1) (text ++ rest) = behindPart ']' (readItems fuel) j rest := by
  rw [readItems, Reader.bind_of_eq_some (hvalue fuel rest hfuel hstop)]
  rfl

theorem readFrom_lastItem (hvalue : (Part.value j).ReadFrom text) (hgap : IsBlanks gap) :
    (Part.items [j]).ReadFrom (text ++ (gap ++ [']'])) := by
  intro fuel rest hfuel
  obtain ⟨fuel, rfl⟩ := Nat.exists_eq_add_one.2 (Nat.zero_lt_of_lt hfuel)
  simp only [List.length_append, List.length_cons] at hfuel
  have hstop : StopsAt continuesNumber (gap ++ ']' :: rest) :=
    hgap.stopsAt continuesNumber_of_isBlank (stopsAt_cons.2 (by decide))
  simp only [List.append_assoc, List.cons_append, List.nil_append]
  rw [readItems_append hvalue (by omega) hstop]
  exact behindPart_last hgap (by decide) (by decide) rest

theorem readFrom_item {more : List Json} (hvalue : (Part.value j).ReadFrom text)
    (hgap : IsBlanks gap) (hgap' : IsBlanks gap') (h : Spells (.items more) tail)
    (hmore : (Part.items more).ReadFrom tail) :
    (Part.items (j :: more)).ReadFrom (text ++ (gap ++ ',' :: (gap' ++ tail))) := by
  intro fuel rest hfuel
  obtain ⟨fuel, rfl⟩ := Nat.exists_eq_add_one.2 (Nat.zero_lt_of_lt hfuel)
  simp only [List.length_append, List.length_cons] at hfuel
  have hstop : StopsAt continuesNumber (gap ++ ',' :: (gap' ++ (tail ++ rest))) :=
    hgap.stopsAt continuesNumber_of_isBlank (stopsAt_cons.2 (by decide))
  simp only [List.append_assoc, List.cons_append]
  rw [readItems_append hvalue (by omega) hstop]
  exact behindPart_more hgap hgap' (h.stopsAt_blank rest) (hmore fuel rest (by omega))

theorem readFrom_pair (hname : SpellsText name key) (hgap : IsBlanks gap) (hgap' : IsBlanks gap')
    (h : Spells (.value j) text) (hvalue : (Part.value j).ReadFrom text) :
    (Part.member name j).ReadFrom ('"' :: (key ++ (gap ++ ':' :: (gap' ++ text)))) := by
  intro fuel rest hfuel hstop
  simp only [List.length_append, List.length_cons] at hfuel
  simp only [List.append_assoc, List.cons_append]
  rw [readMembers, Reader.bind_of_eq_some (Reader.exactly_cons '"' _),
    Reader.bind_of_eq_some (hname.readString _),
    Reader.bind_of_eq_some (skipBlanks_append hgap (stopsAt_cons.2 (by decide))),
    Reader.bind_of_eq_some (Reader.exactly_cons ':' _),
    Reader.bind_of_eq_some (skipBlanks_append hgap' (h.stopsAt_blank rest)),
    Reader.bind_of_eq_some (hvalue fuel rest (by omega) hstop)]
  rfl

theorem readFrom_lastMember (hmember : (Part.member name j).ReadFrom text) (hgap : IsBlanks gap) :
    (Part.members [(name.map Char.toNat, j)]).ReadFrom (text ++ (gap ++ ['}'])) := by
  intro fuel rest hfuel
  obtain ⟨fuel, rfl⟩ := Nat.exists_eq_add_one.2 (Nat.zero_lt_of_lt hfuel)
  simp only [List.length_append, List.length_cons] at hfuel
  have hstop : StopsAt continuesNumber (gap ++ '}' :: rest) :=
    hgap.stopsAt continuesNumber_of_isBlank (stopsAt_cons.2 (by decide))
  simp only [List.append_assoc, List.cons_append, List.nil_append]
  rw [hmember fuel _ (by omega) hstop]
  exact behindPart_last hgap (by decide) (by decide) rest

theorem readFrom_member {more : List (List Nat × Json)} (hmember : (Part.member name j).ReadFrom text)
    (hgap : IsBlanks gap) (hgap' : IsBlanks gap') (h : Spells (.members more) tail)
    (hmore : (Part.members more).ReadFrom tail) :
    (Part.members ((name.map Char.toNat, j) :: more)).ReadFrom
      (text ++ (gap ++ ',' :: (gap' ++ tail))) := by
  intro fuel rest hfuel
  obtain ⟨fuel, rfl⟩ := Nat.exists_eq_add_one.2 (Nat.zero_lt_of_lt hfuel)
  simp only [List.length_append, List.length_cons] at hfuel
  have hstop : StopsAt continuesNumber (gap ++ ',' :: (gap' ++ (tail ++ rest))) :=
    hgap.stopsAt continuesNumber_of_isBlank (stopsAt_cons.2 (by decide))
  simp only [List.append_assoc, List.cons_append]
  rw [hmember fuel _ (by omega) hstop]
  exact behindPart_more hgap hgap' (h.stopsAt_blank rest) (hmore fuel rest (by omega))

end

/-- What the grammar spells is read back. -/
theorem Spells.readFrom {part : Part} {text : List Char} (h : Spells part text) :
    part.ReadFrom text := by
  induction h with
  | null | trueWord | falseWord =>
    intro fuel rest hfuel _
    obtain ⟨fuel, rfl⟩ := Nat.exists_eq_add_one.2 (Nat.zero_lt_of_lt hfuel)
    rw [readValue, Reader.bind_of_eq_some (Reader.peek_eq _)]
    exact Reader.bind_of_eq_some (Reader.exactly_append _ rest)
  | number n => exact readFrom_number n
  | string h => exact readFrom_string h
  | emptyArray hgap => exact readFrom_emptyArray hgap
  | array hgap h ih => exact readFrom_array hgap h ih
  | lastItem _ hgap ih => exact readFrom_lastItem ih hgap
  | item _ hgap hgap' h ihvalue ih => exact readFrom_item ihvalue hgap hgap' h ih
  | emptyObject hgap => exact readFrom_emptyObject hgap
  | object hgap h ih => exact readFrom_object hgap h ih
  | pair hname hgap hgap' h ih => exact readFrom_pair hname hgap hgap' h ih
  | lastMember _ hgap ih => exact readFrom_lastMember ih hgap
  | member _ hgap hgap' h ihmember ih => exact readFrom_member ihmember hgap hgap' h ih

/-- A document is read from any text that spells it, whatever blanks are around it. -/
theorem parse_of_spells {j : Json} {front text back : List Char} (h : Spells (.value j) text)
    (hfront : IsBlanks front) (hback : IsBlanks back) :
    parse (String.ofList (front ++ (text ++ back))) = some j := by
  have hstop : StopsAt continuesNumber back := by
    have hnil := hback.stopsAt continuesNumber_of_isBlank (stopsAt_nil _)
    rwa [List.append_nil] at hnil
  have hend : skipBlanks back = some ((), []) := by
    have hnil := skipBlanks_append hback (stopsAt_nil _)
    rwa [List.append_nil] at hnil
  have hfuel : text.length < 2 * (String.ofList (front ++ (text ++ back))).length + 1 := by
    simp only [String.length_ofList, List.length_append]
    omega
  rw [parse, Reader.run, String.toList_ofList,
    Reader.bind_of_eq_some (skipBlanks_append hfront (h.stopsAt_blank back)),
    Reader.bind_of_eq_some (h.readFrom _ back hfuel hstop), Reader.bind_of_eq_some hend]
  rfl

end ExprLex.Json
