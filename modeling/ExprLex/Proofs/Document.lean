/-
  ExprLex.Proofs.Document — the JSON form of a listing holds its tokens.

  What is written for a token is read back by name: an object has exactly the members asked for, in
  order (`Json.values?`), and a token is read from one with its kind, category, text, place and span
  (`Token.ofJson?`). Its document is a plain one, whatever its text holds, so from the laws of the
  printer alone reading the listing gives an object for every token that was shown, and from it the
  token, wherever the source came from (`document_of_provides`).
-/

import ExprLex.Proofs.Answering
import ExprLex.Proofs.Printing

namespace ExprLex

namespace Json

/-! ## Reading values -/

/-- The text of a string. -/
def toText? : Json → Option String
  | string codePoints => text? codePoints
  | _ => none

/-- A whole number that is written without an exponent. -/
def toNat? : Json → Option Nat
  | number ⟨false, digits, 0⟩ => some digits
  | _ => none

/-- The values of an object with exactly these members, in this order. -/
def values? (names : List String) : Json → Option (List Json)
  | object members =>
    if members.map Prod.fst = names.map (·.toList.map Char.toNat) then some (members.map Prod.snd)
    else none
  | _ => none

@[simp] theorem toText?_ofText (s : String) : (ofText s).toText? = some s := by
  have hchars : (s.toList.map Char.toNat).mapM Text.charAt? = some s.toList := by
    induction s.toList with
    | nil => rfl
    | cons c text ih => rw [List.map_cons, List.mapM_cons, Text.charAt?_toNat, ih]; rfl
  rw [ofText, toText?, text?, hchars, Option.map_some, String.ofList_toList]

@[simp] theorem toNat?_ofNat (n : Nat) : (ofNat n).toNat? = some n := rfl

theorem values?_ofMembers (members : List (String × Json)) :
    (ofMembers members).values? (members.map Prod.fst) = some (members.map Prod.snd) := by
  simp [ofMembers, values?, Function.comp_def]

/-! ## Plain documents -/

theorem plain_ofText (s : String) : Plain (ofText s) := by
  rw [ofText, Plain]
  exact isText_map s.toList

theorem plain_ofNat (n : Nat) : Plain (ofNat n) := by
  simp [ofNat, Plain]

theorem plain_ofMembers {members : List (String × Json)} (h : ∀ member ∈ members, Plain member.2) :
    Plain (ofMembers members) := by
  rw [ofMembers, Plain, plainMembers_iff]
  intro member hmember
  obtain ⟨⟨name, value⟩, hm, rfl⟩ := List.mem_map.1 hmember
  exact ⟨isText_map name.toList, h _ hm⟩

theorem getLast?_pretty_array (items : List Json) :
    (array items).pretty.toList.getLast? = some ']' := by
  rw [pretty, String.toList_ofList]
  exact prints_write.getLast?_array items

end Json

/-! ## Tokens -/

/-- The span that an object holds. -/
def Span.ofJson? (j : Json) : Option Span := do
  let [start, stop, line, column] ← j.values? ["start", "end", "line", "column"] | none
  return ⟨← start.toNat?, ← stop.toNat?, ← line.toNat?, ← column.toNat?⟩

/-- The token that an object holds. -/
def Token.ofJson? (j : Json) : Option Token := do
  let [kind, category, text, row, col, span] ←
    j.values? ["kind", "category", "text", "row", "col", "span"] | none
  return ⟨← Kind.ofName? (← kind.toText?), ← Category.ofName? (← category.toText?), ← text.toText?,
    ← row.toNat?, ← col.toNat?, ← Span.ofJson? span⟩

theorem Span.values?_toJson (s : Span) : s.toJson.values? ["start", "end", "line", "column"] =
    some [.ofNat s.start, .ofNat s.stop, .ofNat s.line, .ofNat s.column] :=
  Json.values?_ofMembers [("start", .ofNat s.start), ("end", .ofNat s.stop),
    ("line", .ofNat s.line), ("column", .ofNat s.column)]

theorem Span.ofJson?_toJson (s : Span) : ofJson? s.toJson = some s := by
  rw [ofJson?, values?_toJson]
  rfl

theorem Token.values?_toJson (t : Token) :
    t.toJson.values? ["kind", "category", "text", "row", "col", "span"] =
      some [.ofText t.kind.name, .ofText t.category.name, .ofText t.text, .ofNat t.row, .ofNat t.col,
        t.span.toJson] :=
  Json.values?_ofMembers [("kind", .ofText t.kind.name), ("category", .ofText t.category.name),
    ("text", .ofText t.text), ("row", .ofNat t.row), ("col", .ofNat t.col),
    ("span", t.span.toJson)]

theorem Token.ofJson?_toJson (t : Token) : ofJson? t.toJson = some t := by
  rw [ofJson?, values?_toJson]
  simp [Kind.ofName?_name, Category.ofName?_name, Span.ofJson?_toJson]

theorem Span.plain_toJson (s : Span) : Json.Plain s.toJson := by
  refine Json.plain_ofMembers fun member hmember => ?_
  simp only [List.mem_cons, List.not_mem_nil, or_false] at hmember
  rcases hmember with rfl | rfl | rfl | rfl <;> exact Json.plain_ofNat _

theorem Token.plain_toJson (t : Token) : Json.Plain t.toJson := by
  refine Json.plain_ofMembers fun member hmember => ?_
  simp only [List.mem_cons, List.not_mem_nil, or_false] at hmember
  rcases hmember with rfl | rfl | rfl | rfl | rfl | rfl
  · exact Json.plain_ofText _
  · exact Json.plain_ofText _
  · exact Json.plain_ofText _
  · exact Json.plain_ofNat _
  · exact Json.plain_ofNat _
  · exact t.span.plain_toJson

theorem mapM_ofJson?_toJson (tokens : List Token) :
    (tokens.map Token.toJson).mapM Token.ofJson? = some tokens := by
  induction tokens with
  | nil => rfl
  | cons t tokens ih =>
    rw [List.map_cons, List.mapM_cons, t.ofJson?_toJson, ih]
    rfl

/-! ## Listings -/

namespace Listing

theorem plain_array (tokens : List Token) : Json.Plain (.array (tokens.map Token.toJson)) := by
  rw [Json.Plain, Json.plainItems_iff]
  intro item hitem
  obtain ⟨t, -, rfl⟩ := List.mem_map.1 hitem
  exact t.plain_toJson

theorem parse_array (tokens : List Token) :
    Json.parse (Json.array (tokens.map Token.toJson)).pretty = some (.array (tokens.map Token.toJson)) := by
  have hparse := Json.prints_write.parse_append (plain_array tokens) Json.isBlanks_nil
  rwa [List.append_nil] at hparse

/-- A listing is read back whole, its line break included. -/
theorem parse_document (tokens : List Token) :
    Json.parse (document (tokens.map Token.toJson)) = some (.array (tokens.map Token.toJson)) := by
  have hparse := Json.prints_write.parse_append (plain_array tokens)
    (Json.isBlanks_line Json.isBlanks_nil)
  rwa [String.ofList_append] at hparse

/-- Listings are the same only for the same tokens. -/
theorem eq_of_document {a b : List Token}
    (h : document (a.map Token.toJson) = document (b.map Token.toJson)) : a = b := by
  have htext : Json.write [] (.array (a.map Token.toJson)) =
      Json.write [] (.array (b.map Token.toJson)) := by
    have hlist := congrArg String.toList h
    simpa [document, Json.pretty] using hlist
  have hobjects := Json.array.inj
    (Json.prints_write.eq_of_print (plain_array a) (plain_array b) htext)
  have hread := mapM_ofJson?_toJson a
  rw [hobjects, mapM_ofJson?_toJson] at hread
  exact (Option.some.inj hread).symm

section
variable {m : Type → Type} [Monad m] [LawfulMonad m] {host : Host m} {input : Tokenize.Input}
  {source : String} {settings : LexerSettings} {tokens : List Token}

/-- Wherever the source comes from, its JSON listing holds the tokens that are shown. -/
theorem document_of_provides (hsource : Tokenize.Provides host source input)
    (htokens : tokenize source settings = .ok (.ok tokens)) (strip : Bool) :
    ∃ text objects, Session.Answers (Tokenize.run host ⟨input, .json, strip, settings⟩) (.tokens text) ∧
      Json.parse text = some (.array objects) ∧
      objects.mapM Token.ofJson? = some (tokens.filter fun t => !strip || t.isVisible) :=
  ⟨_, _, Tokenize.run_answers hsource.readSource htokens rfl, parse_document _, mapM_ofJson?_toJson _⟩

/-- The JSON form of a listing is an array and a line break. Read back by the grammar, it has an
object for every token that is shown, with exactly the members of a token and with the values of that
token, whatever the texts hold: listings are the same only if they show the same tokens. -/
theorem document_lossless (hread : Session.Answers (Tokenize.readSource host input) source)
    (htokens : tokenize source settings = .ok (.ok tokens)) (strip : Bool) :
    (∃ array objects,
      Session.Answers (Tokenize.run host ⟨input, .json, strip, settings⟩) (.tokens (array ++ "\n")) ∧
      array.toList.getLast? = some ']' ∧
      Json.parse array = some (.array objects) ∧
      Json.parse (array ++ "\n") = some (.array objects) ∧
      objects.mapM Token.ofJson? = some (tokens.filter fun t => !strip || t.isVisible)) ∧
    ∀ a b strip strip' text, Listing.tokens .json strip a = .ok text →
      Listing.tokens .json strip' b = .ok text →
      (a.filter fun t => !strip || t.isVisible) = b.filter fun t => !strip' || t.isVisible := by
  refine ⟨?_, fun a b strip strip' text ha hb => ?_⟩
  · refine ⟨_, (tokens.filter fun t => !strip || t.isVisible).map Token.toJson,
      Tokenize.run_answers hread htokens rfl, Json.getLast?_pretty_array _, ?_, ?_, ?_⟩
    · exact parse_array _
    · exact parse_document _
    · exact mapM_ofJson?_toJson _
  · exact eq_of_document (Except.ok.inj (ha.trans hb.symm))

end

/-- A string with a line break, a quote and a backslash, and a comment. -/
theorem document_lossless_escapes : ∃ tokens,
    Session.Answers (Tokenize.readSource (MemorySystem.host {}) (.expression "\"\n\\\"\\\\\" #é"))
      "\"\n\\\"\\\\\" #é" ∧
    tokenize "\"\n\\\"\\\\\" #é" = .ok (.ok tokens) ∧
    ∃ array objects, Session.Answers
        (Tokenize.run (MemorySystem.host {}) ⟨.expression "\"\n\\\"\\\\\" #é", .json, false, {}⟩)
        (.tokens (array ++ "\n")) ∧
      Json.parse (array ++ "\n") = some (.array objects) ∧
      objects.mapM Token.ofJson? = some
        [⟨.string, .value, "\n\"\\", 0, 0, ⟨0, 7, 0, 0⟩⟩,
          ⟨.comment, .invisible, "é", 1, 6, ⟨8, 11, 1, 6⟩⟩] := by
  have hread := Tokenize.readSource_expression (MemorySystem.host {}) "\"\n\\\"\\\\\" #é"
  have htokens : tokenize "\"\n\\\"\\\\\" #é" = .ok (.ok
      [⟨.string, .value, "\n\"\\", 0, 0, ⟨0, 7, 0, 0⟩⟩,
        ⟨.comment, .invisible, "é", 1, 6, ⟨8, 11, 1, 6⟩⟩]) := by
    decide +kernel
  obtain ⟨array, objects, hrun, -, -, hparse, hobjects⟩ := (document_lossless hread htokens false).1
  exact ⟨_, hread, htokens, array, objects, hrun, hparse, hobjects⟩

end Listing

end ExprLex
