/-
  ExprLex.Proofs.Running — what running a scan on a true place answers.

  `Settles source r a` says that `r` is the answer `a` or the fault of a full counter, and the
  latter only on a source with as many characters as a counter has values. So it gives the answer
  of a run that did not fault (`eq_of_ok`) and, on a source short enough, that there is no fault at
  all (`ok_of_short`). Every operation on a cursor that stands at a true place of its source has one
  such statement: where it leads, and that it leaves the source, the settings and the saved places
  alone. `attempt` and `speculate` are settled here for any scan that their body settles.
-/

import ExprLex.Proofs.Position
import ExprLex.Recognizer

namespace ExprLex

variable {source : String} {α β : Type}

/-- Steps that end well have come through the first of them. -/
theorem exists_of_bind_eq_ok {r : Except Fault α} {f : α → Except Fault β} {b : β}
    (h : (r >>= f) = .ok b) : ∃ a, r = .ok a ∧ f a = .ok b := by
  cases r with
  | error fault => cases h
  | ok a => exact ⟨a, rfl, h⟩

/-- `r` answers `a`, unless the source has too many characters to count. -/
def Settles (source : String) (r : Except Fault α) (a : α) : Prop :=
  r = .ok a ∨ r = .error .addOverflow ∧ counterBound ≤ source.length

namespace Settles

theorem ok (a : α) : Settles source (.ok a) a := .inl rfl

theorem ok_of_short {r : Except Fault α} {a : α} (h : Settles source r a)
    (hs : source.length < counterBound) : r = .ok a := by
  rcases h with h | ⟨-, h⟩
  · exact h
  · omega

theorem eq_of_ok {r : Except Fault α} {a b : α} (h : Settles source r a) (hr : r = .ok b) :
    b = a := by
  rcases h with h | ⟨h, -⟩
  · rw [h] at hr
    exact (Except.ok.inj hr).symm
  · rw [h] at hr
    cases hr

theorem bind {r : Except Fault α} {f : α → Except Fault β} {a : α} {b : β}
    (h : Settles source r a) (hf : Settles source (f a) b) : Settles source (r >>= f) b := by
  rcases h with rfl | ⟨rfl, hl⟩
  · exact hf
  · exact .inr ⟨rfl, hl⟩

/-- Scans are run one after the other. -/
theorem scan_bind {x : Scan α} {f : α → Scan β} {c c' : Cursor} {a : α} {b : β × Cursor}
    (h : Settles source (x c) (a, c')) (hf : Settles source (f a c') b) :
    Settles source ((x >>= f) c) b := h.bind hf

theorem scan_of_eq {x y : Scan α} {c : Cursor} {b : α × Cursor} (h : x = y)
    (hy : Settles source (y c) b) : Settles source (x c) b := by rwa [h]

theorem scan_if_pos {p : Prop} [Decidable p] {x y : Scan α} {c : Cursor} {b : α × Cursor} (hp : p)
    (h : Settles source (x c) b) : Settles source ((if p then x else y) c) b := by rwa [if_pos hp]

theorem scan_if_neg {p : Prop} [Decidable p] {x y : Scan α} {c : Cursor} {b : α × Cursor}
    (hp : ¬ p) (h : Settles source (y c) b) : Settles source ((if p then x else y) c) b := by
  rwa [if_neg hp]

end Settles

namespace Scan

variable {c : Cursor} {before rest more : List Char} {last : Option Place}

/-- A scan that ends well has come through its first step. -/
theorem exists_of_bind {x : Scan α} {f : α → Scan β} {c : Cursor} {r : β × Cursor}
    (h : (x >>= f) c = .ok r) : ∃ a c', x c = .ok (a, c') ∧ f a c' = .ok r := by
  obtain ⟨⟨a, c'⟩, hx, hf⟩ := exists_of_bind_eq_ok (show (x c >>= fun s => f s.1 s.2) = .ok r from h)
  exact ⟨a, c', hx, hf⟩

theorem get_settles : Settles source ((get : Scan Cursor) c) (c, c) := .ok _

theorem pure_settles {a : α} : Settles source ((pure a : Scan α) c) (a, c) := .ok _

theorem pure_settles_eq {a b : α} (h : a = b) : Settles source ((pure a : Scan α) c) (b, c) := by
  rw [h]
  exact pure_settles

theorem peek_settles (last : Option Place) (h : c.source.toList = before ++ rest) :
    Settles c.source (peek (c.behind before rest last)) (rest.head?, c.behind before rest last) :=
  .inl (peek_of_onBoundary (Cursor.onBoundary_behind last h))

theorem next_settles_nil (last : Option Place) (h : c.source.toList = before ++ []) :
    Settles c.source (next (c.behind before [] last)) (none, c.behind before [] last) :=
  .inl (next_of_rest_nil (Cursor.onBoundary_behind last h) rfl)

theorem next_settles_cons {char : Char} (last : Option Place)
    (h : c.source.toList = before ++ char :: rest) :
    Settles c.source (next (c.behind before (char :: rest) last))
      (some char, c.behind (before ++ [char]) rest (some (.behind before (char :: rest)))) := by
  have hb := Cursor.onBoundary_behind last h
  rw [Settles, next_of_rest_cons hb rfl, Cursor.behind_place]
  rcases Place.past_behind before char rest with hp | ⟨hp, hl⟩
  · exact .inl (by rw [hp]; rfl)
  · exact .inr ⟨by rw [hp]; rfl, by rwa [← String.length_toList, h]⟩

theorem undo_settles {place : Place} (hl : last = some place) :
    Settles source (undo (c.behind before rest last))
      ((), { c.behind before rest last with place := place, last := none }) :=
  .inl (undo_of_last hl)

/-- A step and its undoing lead back. -/
theorem undo_settles_next {char : Char} :
    Settles source (undo (c.behind (before ++ [char]) rest (some (.behind before (char :: rest)))))
      ((), c.behind before (char :: rest) none) := undo_settles rfl

theorem skip_settles (last : Option Place) (slice : List Char)
    (h : c.source.toList = before ++ (slice ++ more)) : ∃ last', Settles c.source (skip slice.length (c.behind before (slice ++ more) last))
      ((), c.behind (before ++ slice) more last') := by
  induction slice generalizing before last with
  | nil => exact ⟨last, by simpa [skip] using pure_settles⟩
  | cons char slice ih =>
    have hs : c.source.toList = (before ++ [char]) ++ (slice ++ more) := by simpa using h
    obtain ⟨last', hrest⟩ := ih (some (.behind before (char :: (slice ++ more)))) hs
    refine ⟨last', ?_⟩
    rw [List.append_assoc, List.singleton_append] at hrest
    exact (next_settles_cons last h).scan_bind hrest

theorem readWhile_settles (last : Option Place) (p : Char → Bool)
    (h : c.source.toList = before ++ rest) : ∃ last', Settles c.source (readWhile p (c.behind before rest last))
      (rest.takeWhile p, c.behind (before ++ rest.takeWhile p) (rest.dropWhile p) last') := by
  have hcut : rest.takeWhile p ++ rest.dropWhile p = rest := List.takeWhile_append_dropWhile
  have hs : c.source.toList = before ++ (rest.takeWhile p ++ rest.dropWhile p) := by rwa [hcut]
  obtain ⟨last', hskip⟩ := skip_settles last (rest.takeWhile p) hs
  rw [hcut] at hskip
  refine ⟨last', get_settles.scan_bind (hskip.scan_bind ?_)⟩
  refine (peek_settles last' ?_).scan_bind pure_settles
  rw [List.append_assoc, hcut, h]

/-! ## Checkpoints -/

/-- The cursor that a checkpoint leaves. -/
def atCheckpoint (c : Cursor) : Cursor := { c with last := none, saved := c.place :: c.saved }

theorem checkpoint_settles : Settles source (checkpoint c) ((atCheckpoint c).depth, atCheckpoint c) :=
  .ok _

theorem keep_settles {place : Place} {saved : List Place} (hs : c.saved = place :: saved) :
    Settles source (release c.depth true c) ((), { c with saved := saved }) := by
  refine .inl ?_
  simp only [release, discard, bind, StateT.bind, Except.bind, get, getThe, MonadStateOf.get,
    StateT.get, pure, Except.pure, if_true, hs]
  rfl

theorem drop_settles {place : Place} {saved : List Place} (hs : c.saved = place :: saved) :
    Settles source (release c.depth false c)
      ((), { c with place := place, last := none, saved := saved }) := by
  refine .inl ?_
  simp only [release, restore, bind, StateT.bind, Except.bind, get, getThe, MonadStateOf.get,
    StateT.get, pure, Except.pure, if_true, Bool.false_eq_true, if_false, hs]
  rfl

theorem speculate_settles {x : Scan α} {a : α} {c' : Cursor}
    (h : Settles source (x (atCheckpoint c)) (a, c')) (hs : c'.source = c.source)
    (ht : c'.settings = c.settings) (hv : c'.saved = c.place :: c.saved) :
    Settles source (speculate x c) (a, { c with last := none }) := by
  have hd : (atCheckpoint c).depth = c'.depth := by simp [Cursor.depth, atCheckpoint, hv]
  refine checkpoint_settles.scan_bind (h.scan_bind ?_)
  rw [hd]
  refine (drop_settles hv).scan_bind ?_
  rw [hs, ht]
  exact pure_settles

/-- At the end of the input nothing is tried. -/
theorem attempt_settles_end {x : Scan Reading} (hn : c.hasNext = false) :
    Settles source (attempt x c) (.mismatch, c) :=
  get_settles.scan_bind (Settles.scan_if_neg (by simp [hn]) pure_settles)

/-- A match keeps the place that the body reached. -/
theorem attempt_settles_match {x : Scan Reading} {reading : Reading} {c' : Cursor}
    (hn : c.hasNext = true) (h : Settles source (x (atCheckpoint c)) (reading, c'))
    (hm : reading.isMatch = true) (hv : c'.saved = c.place :: c.saved) :
    Settles source (attempt x c) (reading, { c' with saved := c.saved }) := by
  have hd : (atCheckpoint c).depth = c'.depth := by simp [Cursor.depth, atCheckpoint, hv]
  refine get_settles.scan_bind (Settles.scan_if_pos hn ?_)
  refine checkpoint_settles.scan_bind (h.scan_bind ?_)
  rw [hd, hm]
  exact (keep_settles hv).scan_bind pure_settles

/-- Whatever is not a match goes back to where the trial began. -/
theorem attempt_settles_miss {x : Scan Reading} {reading : Reading} {c' : Cursor}
    (hn : c.hasNext = true) (h : Settles source (x (atCheckpoint c)) (reading, c'))
    (hm : reading.isMatch = false) (hs : c'.source = c.source) (ht : c'.settings = c.settings)
    (hv : c'.saved = c.place :: c.saved) :
    Settles source (attempt x c) (reading, { c with last := none }) := by
  have hd : (atCheckpoint c).depth = c'.depth := by simp [Cursor.depth, atCheckpoint, hv]
  refine get_settles.scan_bind (Settles.scan_if_pos hn ?_)
  refine checkpoint_settles.scan_bind (h.scan_bind ?_)
  rw [hd, hm]
  refine (drop_settles hv).scan_bind ?_
  rw [hs, ht]
  exact pure_settles

end Scan

end ExprLex
