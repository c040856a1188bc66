/-
  ExprLex.Proofs.Answering — runs of the program that end in an answer.

  A session that answers (`Session.Answers`) does so on any log and adds its events at the end, and
  its host is asked nothing that could fail or have an effect. Sessions that answer are put together
  step by step (`Answers.bind`). A host provides a source text (`Provides`) as an expression of the
  command line, or by what it answers about a file or the standard input; a system in memory does so
  for its files and its input. Where the text is provided, reading the source answers it, and the
  command answers the listing of its tokens (`run_answers`).
-/

import ExprLex.Program.Run
import ExprLex.Program.Memory
import ExprLex.Proofs.Lexing

namespace ExprLex

variable {m : Type → Type} [Monad m] {α β : Type}

/-- The session ends in an answer, whatever was logged before. -/
def Session.Answers (x : Session m α) (a : α) : Prop :=
  ∃ events, ∀ log, x.run.run log = pure (.ok a, log ++ events)

namespace Session

theorem Answers.pure (a : α) : Answers (pure a : Session m α) a := by
  refine ⟨[], fun log => ?_⟩
  rw [List.append_nil]
  rfl

theorem Answers.ofChecked {r : Except Fault α} {a : α} (h : r = .ok a) :
    Answers (ofChecked r : Session m α) a := by
  subst h
  exact .pure a

/-- A text is decoded from its own bytes. -/
theorem Answers.textOf (text : String) :
    Answers (textOf (.ok text.toUTF8) : Session m String) text := by
  have hbytes : String.fromUTF8? text.toUTF8 = some text := by
    simp [String.fromUTF8?, String.fromUTF8, text.isValidUTF8]
  have hdecode : (Except.ok text.toUTF8 : Except IoFailure ByteArray).bind decodeText = .ok text := by
    show decodeText text.toUTF8 = .ok text
    rw [decodeText, hbytes]
  rw [Session.textOf, hdecode]
  exact .pure text

variable [LawfulMonad m]

theorem Answers.log (events : List Log.Event) : Answers (log events : Session m Unit) () := by
  refine ⟨events, fun log => ?_⟩
  show (ExceptT.lift (modify (· ++ events)) : Session m Unit).run.run log = _
  simp

theorem Answers.ask {question : m α} {a : α} (h : question = Pure.pure a) :
    Answers (ask question) a := by
  subst h
  refine ⟨[], fun log => ?_⟩
  simp [Session.ask]

theorem Answers.bind {x : Session m α} {f : α → Session m β} {a : α} {b : β} (h : Answers x a)
    (hf : Answers (f a) b) : Answers (x >>= f) b := by
  obtain ⟨events, hx⟩ := h
  obtain ⟨more, hf⟩ := hf
  refine ⟨events ++ more, fun log => ?_⟩
  simp [ExceptT.run_bind, hx, hf, List.append_assoc]

end Session

namespace Tokenize

variable {host : Host m} {source : String} {settings : LexerSettings}

/-! ## Reading the source -/

/-- The source is the expression of an input, or what the host holds for it. -/
inductive Provides (host : Host m) (source : String) : Input → Prop where
  | expression : Provides host source (.expression source)
  | file {path : String} : host.readFile path = pure (.ok source.toUTF8) →
      Provides host source (.file path)
  | standardInput : host.readInput = pure (.ok source.toUTF8) → Provides host source .standardInput

theorem provides_file {s : MemorySystem} {path : String}
    (hfile : s.resolve path = .ok (.file source.toUTF8)) : Provides s.host source (.file path) := by
  apply Provides.file
  show s.readFile path = .ok source.toUTF8
  rw [MemorySystem.readFile, hfile]
  rfl

theorem provides_standardInput {s : MemorySystem} (hinput : s.input = source.toUTF8) :
    Provides s.host source .standardInput := by
  apply Provides.standardInput
  show (.ok s.input : Except IoFailure ByteArray) = .ok source.toUTF8
  rw [hinput]

theorem readSource_expression (host : Host m) (text : String) :
    Session.Answers (readSource host (.expression text)) text := .pure text

variable [LawfulMonad m]

theorem Provides.readSource {input : Input} (h : Provides host source input) :
    Session.Answers (readSource host input) source := by
  cases h with
  | expression => exact readSource_expression host source
  | file hfile =>
    exact (Session.Answers.log _).bind ((Session.Answers.ask hfile).bind (.textOf source))
  | standardInput hinput => exact (Session.Answers.ask hinput).bind (.textOf source)

/-! ## Answering a listing -/

/-- A run that comes to tokens ends without a failure. -/
theorem runSource_of_tokenize {tokens : List Token}
    (h : tokenize source settings = .ok (.ok tokens)) :
    ∃ events, runSource source settings = .ok ⟨tokens, none, events⟩ := by
  obtain ⟨⟨found, failure, events⟩, hrun, h⟩ := exists_of_bind_eq_ok h
  cases failure with
  | none =>
    cases h
    exact ⟨events, hrun⟩
  | some error => cases h

theorem run_answers {input : Input} {tokens : List Token} {format : Listing.Format} {strip : Bool}
    {text : String} (hread : Session.Answers (readSource host input) source)
    (htokens : tokenize source settings = .ok (.ok tokens))
    (htext : Listing.tokens format strip tokens = .ok text) :
    Session.Answers (run host ⟨input, format, strip, settings⟩) (.tokens text) := by
  obtain ⟨events, hrun⟩ := runSource_of_tokenize htokens
  refine (Session.Answers.log _).bind (hread.bind ?_)
  refine (Session.Answers.ofChecked hrun).bind ((Session.Answers.log _).bind ?_)
  exact (Session.Answers.log _).bind ((Session.Answers.ofChecked htext).bind (.pure _))

/-- The same text is listed alike as a file, from the standard input and as an expression. -/
theorem run_answers_everywhere {s : MemorySystem} {path : String} {tokens : List Token}
    {format : Listing.Format} {strip : Bool} {text : String}
    (hfile : s.resolve path = .ok (.file source.toUTF8)) (hinput : s.input = source.toUTF8)
    (htokens : tokenize source settings = .ok (.ok tokens))
    (htext : Listing.tokens format strip tokens = .ok text) :
    ∀ input ∈ [Input.file path, .standardInput, .expression source],
      Session.Answers (run s.host ⟨input, format, strip, settings⟩) (.tokens text) := by
  intro input hmem
  have hsource : Provides s.host source input := by
    simp only [List.mem_cons, List.not_mem_nil, or_false] at hmem
    rcases hmem with rfl | rfl | rfl
    · exact provides_file hfile
    · exact provides_standardInput hinput
    · exact .expression
  exact run_answers hsource.readSource htokens htext

end Tokenize

end ExprLex
