/-
  ExprLex.Proofs.Printing — the laws of a printer of documents, and the round trip from them.

  What is asked of a printer is named (`Prints`): the quote, the backslash and the characters below
  the space are escaped and all others stand as they are; empty brackets stay together; items and
  members stand on lines of their own, two spaces further in. Nothing else is used of it. What such a
  printer writes is spelled by the grammar (`Prints.spells`), so the reader answers the document
  that was printed (`Prints.parse_append`). The printer of the listings keeps the laws
  (`prints_write`).
-/

import ExprLex.Json
import ExprLex.Proofs.Rereading

namespace ExprLex.Json

/-! ## Documents of texts -/

/-- The code points are those of a text. -/
def IsText (codePoints : List Nat) : Prop := ∃ text : List Char, codePoints = text.map Char.toNat

theorem isText_map (text : List Char) : IsText (text.map Char.toNat) := ⟨text, rfl⟩

mutual

/-- Every string is that of a text. -/
def Plain : Json → Prop
  | string codePoints => IsText codePoints
  | array items => PlainItems items
  | object members => PlainMembers members
  | _ => True

def PlainItems : List Json → Prop
  | [] => True
  | item :: more => Plain item ∧ PlainItems more

def PlainMembers : List (List Nat × Json) → Prop
  | [] => True
  | (name, value) :: more => IsText name ∧ Plain value ∧ PlainMembers more

end

theorem plainItems_iff {items : List Json} : PlainItems items ↔ ∀ item ∈ items, Plain item := by
  induction items with
  | nil => simp [PlainItems]
  | cons item more ih => simp [PlainItems, ih]

theorem plainMembers_iff {members : List (List Nat × Json)} :
    PlainMembers members ↔ ∀ member ∈ members, IsText member.1 ∧ Plain member.2 := by
  induction members with
  | nil => simp [PlainMembers]
  | cons member more ih => simp [PlainMembers, ih, and_assoc]

/-! ## The laws -/

/-- The margin of what stands between brackets. -/
def inside (margin : List Char) : List Char := margin ++ [' ', ' ']

/-- Parts on lines of their own, with commas between them. -/
def onLines (margin : List Char) (parts : List (List Char)) : List Char :=
  [','].intercalate (parts.map fun part => '\n' :: (margin ++ part))

/-- A member on its line: the name, a colon and the value. -/
def pair (print : Json → List Char) (member : List Nat × Json) : List Char :=
  print (string member.1) ++ ':' :: ' ' :: print member.2

/-- What is asked of a printer. In a string it writes `char c` for a character `c`. The first line of
a document is already indented, and `margin` goes before its other lines. -/
structure Prints (char : Char → List Char) (print : List Char → Json → List Char) : Prop where
  escaped : ∀ c, MustEscape c → SpellsChar c (char c)
  raw : ∀ c, ¬ MustEscape c → char c = [c]
  null : ∀ margin, print margin null = "null".toList
  bool : ∀ margin b, print margin (bool b) = if b then "true".toList else "false".toList
  number : ∀ margin n, print margin (number n) = n.text
  string : ∀ margin (text : List Char),
    print margin (string (text.map Char.toNat)) = '"' :: (text.flatMap char ++ ['"'])
  emptyArray : ∀ margin, print margin (array []) = ['[', ']']
  array : ∀ margin items, items ≠ [] → print margin (array items) =
    '[' :: (onLines (inside margin) (items.map (print (inside margin))) ++
      ('\n' :: margin ++ [']']))
  emptyObject : ∀ margin, print margin (object []) = ['{', '}']
  object : ∀ margin members, members ≠ [] → print margin (object members) =
    '{' :: (onLines (inside margin) (members.map (pair (print (inside margin)))) ++
      ('\n' :: margin ++ ['}']))

/-! ## Layout -/

theorem isBlanks_nil : IsBlanks [] := fun _ hc => absurd hc List.not_mem_nil

theorem isBlanks_line {margin : List Char} (h : IsBlanks margin) : IsBlanks ('\n' :: margin) :=
  List.forall_mem_cons.2 ⟨by decide, h⟩

theorem isBlanks_inside {margin : List Char} (h : IsBlanks margin) : IsBlanks (inside margin) := by
  intro c hc
  rcases List.mem_append.1 hc with hc | hc
  · exact h c hc
  · rcases List.mem_pair.1 hc with rfl | rfl <;> decide

theorem onLines_singleton (margin part : List Char) :
    onLines margin [part] = '\n' :: (margin ++ part) := by
  rw [onLines, List.map_singleton, List.intercalate_singleton]

theorem onLines_cons_cons (margin part part' : List Char) (more : List (List Char)) :
    onLines margin (part :: part' :: more) =
      '\n' :: (margin ++ (part ++ ',' :: onLines margin (part' :: more))) := by
  simp only [onLines, List.map_cons, List.intercalate_cons_cons, List.append_assoc, List.cons_append,
    List.nil_append]

/-- Lines with a closing behind them begin with a break. What holds of the text behind the break is
put together from the last part to the first. -/
theorem exists_onLines {α : Type} {margin closing : List Char} {text : α → List Char}
    (Made : List α → List Char → Prop) {parts : List α} (hne : parts ≠ [])
    (last : ∀ part ∈ parts, Made [part] (text part ++ closing))
    (more : ∀ part ∈ parts, ∀ rest tail, Made rest tail →
      Made (part :: rest) (text part ++ ',' :: ('\n' :: margin ++ tail))) :
    ∃ tail, onLines margin (parts.map text) ++ closing = '\n' :: margin ++ tail ∧ Made parts tail := by
  induction parts with
  | nil => exact absurd rfl hne
  | cons part parts ih =>
    cases parts with
    | nil =>
      refine ⟨_, ?_, last part List.mem_cons_self⟩
      simp [onLines_singleton]
    | cons part' parts =>
      obtain ⟨tail, htail, hmade⟩ := ih (List.cons_ne_nil _ _)
        (fun p hp => last p (List.mem_cons_of_mem _ hp)) (fun p hp => more p (List.mem_cons_of_mem _ hp))
      refine ⟨_, ?_, more part List.mem_cons_self _ tail hmade⟩
      rw [List.map_cons, List.map_cons, onLines_cons_cons, ← List.map_cons, ← htail]
      simp

/-! ## What the laws give -/

namespace Prints

variable {char : Char → List Char} {print : List Char → Json → List Char} {margin : List Char}

theorem spellsChar (h : Prints char print) (c : Char) : SpellsChar c (char c) := by
  by_cases hc : MustEscape c
  · exact h.escaped c hc
  · rw [h.raw c hc]
    exact .raw hc

theorem spellsText (h : Prints char print) (text : List Char) :
    SpellsText text (text.flatMap char ++ ['"']) := by
  induction text with
  | nil => exact .nil
  | cons c text ih =>
    rw [List.flatMap_cons, List.append_assoc]
    exact .cons (h.spellsChar c) ih

theorem spells_array (h : Prints char print) (hmargin : IsBlanks margin) {items : List Json}
    (hitems : ∀ item ∈ items, Spells (.value item) (print (inside margin) item)) :
    Spells (.value (.array items)) (print margin (.array items)) := by
  by_cases hne : items = []
  · rw [hne, h.emptyArray]
    exact Spells.emptyArray isBlanks_nil
  · have hline := isBlanks_line (isBlanks_inside hmargin)
    obtain ⟨tail, htail, hspells⟩ := exists_onLines (fun items text => Spells (.items items) text) hne
      (fun item hi => .lastItem (hitems item hi) (isBlanks_line hmargin))
      (fun item hi _ _ hrest => .item (hitems item hi) isBlanks_nil hline hrest)
    rw [h.array margin items hne, htail]
    exact .array hline hspells

theorem spells_pair (h : Prints char print) {member : List Nat × Json} (hname : IsText member.1)
    (hvalue : Spells (.value member.2) (print margin member.2)) :
    ∃ text, member.1 = text.map Char.toNat ∧
      Spells (.member text member.2) (pair (print margin) member) := by
  obtain ⟨text, htext⟩ := hname
  have hspace : IsBlanks [' '] := List.forall_mem_singleton.2 (by decide)
  have hspells := Spells.pair (h.spellsText text) isBlanks_nil hspace hvalue
  refine ⟨text, htext, ?_⟩
  rw [pair, htext, h.string, List.cons_append]
  exact hspells

theorem spells_object (h : Prints char print) (hmargin : IsBlanks margin)
    {members : List (List Nat × Json)} (hmembers : ∀ member ∈ members, IsText member.1 ∧
      Spells (.value member.2) (print (inside margin) member.2)) :
    Spells (.value (.object members)) (print margin (.object members)) := by
  by_cases hne : members = []
  · rw [hne, h.emptyObject]
    exact Spells.emptyObject isBlanks_nil
  · have hline := isBlanks_line (isBlanks_inside hmargin)
    have hpair := fun member hm => h.spells_pair (hmembers member hm).1 (hmembers member hm).2
    have hlast : ∀ member ∈ members,
        Spells (.members [member]) (pair (print (inside margin)) member ++ ('\n' :: margin ++ ['}'])) := by
      rintro ⟨name, value⟩ hm
      obtain ⟨text, rfl, hspells⟩ := hpair _ hm
      exact .lastMember hspells (isBlanks_line hmargin)
    obtain ⟨tail, htail, hspells⟩ := exists_onLines (fun members text => Spells (.members members) text)
      hne hlast fun (name, value) hm _ _ hrest => by
        obtain ⟨text, rfl, hspells⟩ := hpair _ hm
        exact .member hspells isBlanks_nil hline hrest
    rw [h.object margin members hne, htail]
    exact .object hline hspells

/-- What is printed is spelled by the grammar. -/
theorem spells (h : Prints char print) :
    ∀ (j : Json) {margin : List Char}, IsBlanks margin → Plain j → Spells (.value j) (print margin j)
  | .null, _, _, _ => by
    rw [h.null]
    exact .null
  | .bool b, _, _, _ => by
    rw [h.bool]
    cases b
    · exact .falseWord
    · exact .trueWord
  | .number n, _, _, _ => by
    rw [h.number]
    exact .number n
  | .string codePoints, _, _, hplain => by
    obtain ⟨text, rfl⟩ := hplain
    rw [h.string]
    exact .string (h.spellsText text)
  | .array items, _, hmargin, hplain =>
    h.spells_array hmargin fun item hi =>
      h.spells item (isBlanks_inside hmargin) (plainItems_iff.1 hplain item hi)
  | .object members, _, hmargin, hplain =>
    h.spells_object hmargin fun member hm =>
      have hmember := plainMembers_iff.1 hplain member hm
      ⟨hmember.1, h.spells member.2 (isBlanks_inside hmargin) hmember.2⟩
termination_by j => sizeOf j
decreasing_by
  -- an item is smaller than its array, and the value of a member than its object
  · have hlt := List.sizeOf_lt_of_mem hi
    rw [Json.array.sizeOf_spec]
    omega
  · have hlt := List.sizeOf_lt_of_mem hm
    have hvalue : sizeOf member = 1 + sizeOf member.1 + sizeOf member.2 := rfl
    rw [Json.object.sizeOf_spec]
    omega

/-- What is printed is read back, whatever blanks are behind it. -/
theorem parse_append (h : Prints char print) {j : Json} (hplain : Plain j) {blanks : List Char}
    (hblanks : IsBlanks blanks) : parse (String.ofList (print [] j ++ blanks)) = some j := by
  have hparse := parse_of_spells (h.spells j isBlanks_nil hplain) isBlanks_nil hblanks
  rwa [List.nil_append] at hparse

/-- Different documents are printed differently. -/
theorem eq_of_print (h : Prints char print) {j k : Json} (hj : Plain j) (hk : Plain k)
    (heq : print [] j = print [] k) : j = k := by
  have hparse := h.parse_append hj isBlanks_nil
  rw [heq, h.parse_append hk isBlanks_nil] at hparse
  exact (Option.some.inj hparse).symm

/-- An array ends at its bracket. -/
theorem getLast?_array (h : Prints char print) (items : List Json) :
    (print margin (.array items)).getLast? = some ']' := by
  by_cases hne : items = []
  · rw [hne, h.emptyArray]
    rfl
  · rw [h.array margin items hne, ← List.append_assoc, ← List.cons_append]
    exact List.getLast?_concat

end Prints

/-! ## The printer of the listings -/

theorem spellsChar_fourDigits {c : Char} (hc : c.toNat < 0x20) :
    SpellsChar c ('\\' :: 'u' :: fourDigits c.toNat) := by
  have check : ∀ n : Fin 0x20, (fourDigits n.val).length = 4 ∧
      (fourDigits n.val).all Text.isHexDigit = true ∧ Text.ofDigits 16 (fourDigits n.val) = n.val := by
    decide
  obtain ⟨hlen, hhex, hvalue⟩ := check ⟨c.toNat, hc⟩
  exact .digits hlen hhex hvalue

/-- What has to be escaped has a letter, or is below the space. -/
theorem spellsChar_writeCodePoint {c : Char} (hc : MustEscape c) :
    SpellsChar c (writeCodePoint c.toNat) := by
  unfold writeCodePoint
  -- the characters that a letter stands for
  iterate 7
    split
    · rename_i hn
      exact .letter (by rw [hn]; rfl)
  split
  · rename_i hlow
    exact spellsChar_fourDigits hlow
  · rename_i hquote hslash _ _ _ _ _ hlow
    rcases hc with rfl | rfl | hc
    · exact absurd rfl hquote
    · exact absurd rfl hslash
    · exact absurd hc hlow

theorem writeCodePoint_of_not_mustEscape {c : Char} (hc : ¬ MustEscape c) :
    writeCodePoint c.toNat = [c] := by
  have hquote : c.toNat ≠ '"'.toNat := fun hn => hc (.inl (Char.toNat_inj.1 hn))
  have hslash : c.toNat ≠ '\\'.toNat := fun hn => hc (.inr (.inl (Char.toNat_inj.1 hn)))
  have hlow : ¬ c.toNat < 0x20 := fun hlt => hc (.inr (.inr hlt))
  have hne : ∀ n < 0x20, c.toNat ≠ n := fun n hn heq => hlow (heq ▸ hn)
  rw [writeCodePoint, if_neg hquote, if_neg hslash, if_neg (hne 8 (by decide)),
    if_neg (hne 9 (by decide)), if_neg (hne 10 (by decide)), if_neg (hne 12 (by decide)),
    if_neg (hne 13 (by decide)), if_neg hlow, Text.charAt?_toNat]

theorem onLines_write (margin : List Char) (item : Json) (more : List Json) :
    onLines margin ((item :: more).map (write margin)) =
      '\n' :: (margin ++ (write margin item ++ writeItems margin more)) := by
  induction more generalizing item with
  | nil => simp [onLines_singleton, writeItems]
  | cons item' more ih =>
    rw [List.map_cons, List.map_cons, onLines_cons_cons, ← List.map_cons, ih]
    simp [writeItems]

theorem onLines_writeMembers (margin : List Char) (name : List Nat) (value : Json)
    (more : List (List Nat × Json)) :
    onLines margin (((name, value) :: more).map (pair (write margin))) =
      '\n' :: (margin ++ (writeString name ++ ':' :: ' ' ::
        (write margin value ++ writeMembers margin more))) := by
  induction more generalizing name value with
  | nil => simp [onLines_singleton, pair, writeMembers, write]
  | cons member more ih =>
    rw [List.map_cons, List.map_cons, onLines_cons_cons, ← List.map_cons, ih]
    simp [pair, writeMembers, write]

/-- The printer of the listings keeps the laws. -/
theorem prints_write : Prints (fun c => writeCodePoint c.toNat) write where
  escaped _ := spellsChar_writeCodePoint
  raw _ := writeCodePoint_of_not_mustEscape
  null _ := by rw [write]
  bool _ b := by cases b <;> rw [write] <;> rfl
  number _ _ := by rw [write]
  string _ text := by
    rw [write, writeString, List.flatMap_map]
    rfl
  emptyArray _ := by rw [write]
  array margin items hne := by
    obtain ⟨item, more, rfl⟩ := List.exists_cons_of_ne_nil hne
    rw [onLines_write, write]
    simp [inside]
  emptyObject _ := by rw [write]
  object margin members hne := by
    obtain ⟨⟨name, value⟩, more, rfl⟩ := List.exists_cons_of_ne_nil hne
    rw [onLines_writeMembers, write]
    simp [inside]

end ExprLex.Json
