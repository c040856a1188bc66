/-
  ExprLex.Proofs.Scoping — what a checkpoint protects from the commands that run under it.

  All of a script works on one stack of saved places. A command pushes a place, pops one or leaves
  the stack alone, so as long as no command goes below the depth of a checkpoint (`StaysAbove`), the
  places that were saved when it was taken lie unchanged under all others (`suffix_run`,
  `suffix_runAll`), through brackets within brackets, and also where one of these is released out of
  order. Where the bracket ends as deep as it began, its stack is therefore the one it began with,
  and the release does what it promises (`bracket_kept`, `bracket_dropped`); elsewhere it is refused
  and changes nothing (`bracket_refused`).

  That a script never goes below a depth can be checked by running it (`passes`).
-/

import ExprLex.Proofs.Trying

namespace ExprLex

variable {source : String} {settings : LexerSettings} {c reached : Cursor}

/-! ## Source and settings -/

namespace Cursor

/-- The cursor reads the source under the settings. -/
def Reads (source : String) (settings : LexerSettings) (c : Cursor) : Prop :=
  c.source = source ∧ c.settings = settings

theorem Reads.closed : Scan.Closed (Reads source settings) where
  next := by
    intro c a c' hc h
    rcases Scan.next_cases h with ⟨-, rfl⟩ | ⟨_, _, _, -, -, -, rfl⟩
    · exact hc
    · exact hc
  undo := by
    intro c a c' hc h
    unfold Scan.undo at h
    split at h <;> cases h
    exact hc
  save := by
    intro c a c' hc h
    cases h
    exact hc
  restore := by
    intro c a c' hc h
    unfold Scan.restore at h
    split at h <;> cases h <;> exact hc
  discard := by
    intro c a c' hc h
    unfold Scan.discard at h
    split at h <;> cases h <;> exact hc

end Cursor

/-! ## Releasing -/

namespace Scan

theorem checkpoint_eq : checkpoint c = .ok ((atCheckpoint c).depth, atCheckpoint c) := rfl

theorem coherent_atCheckpoint (hc : c.Coherent source) :
    (atCheckpoint c).Coherent source :=
  Cursor.Coherent.closed.checkpoint hc checkpoint_eq

theorem release_refused {taken : Nat} (keep : Bool) (h : c.depth ≠ taken) :
    release taken keep c = .error (.checkpointDepth c.depth taken) := by
  simp only [release, bind, StateT.bind, Except.bind, get, getThe, MonadStateOf.get, StateT.get,
    pure, Except.pure, if_neg h]
  rfl

theorem release_kept {place : Place} {saved : List Place} (hs : c.saved = place :: saved) :
    release c.depth true c = .ok ((), { c with saved }) := by
  have h : Settles "" (release c.depth true c) ((), { c with saved }) := keep_settles hs
  exact h.ok_of_short (by decide)

theorem release_dropped {place : Place} {saved : List Place} (hs : c.saved = place :: saved) :
    release c.depth false c = .ok ((), { c with place, last := none, saved }) := by
  have h : Settles "" (release c.depth false c) ((), { c with place, last := none, saved }) :=
    drop_settles hs
  exact h.ok_of_short (by decide)

end Scan

namespace Script

section
variable {body : Cursor → List StepRecord × Cursor} {records : List StepRecord}

/-- The record of a bracket that was closed. -/
def closedRecord (c after : Cursor) (records : List StepRecord) : StepRecord :=
  .bracket .nothing (.ofCursor after) (.ofCursor (Scan.atCheckpoint c)) records

/-- The record of a bracket whose release was refused where its body had come to. -/
def refusedRecord (c reached : Cursor) (records : List StepRecord) : StepRecord :=
  .bracket (.fault (.checkpointDepth reached.depth (Scan.atCheckpoint c).depth)) (.ofCursor reached)
    (.ofCursor (Scan.atCheckpoint c)) records

variable (hbody : body (Scan.atCheckpoint c) = (records, reached))
include hbody

theorem bracket_of_release {keep : Bool} {after : Cursor}
    (h : Scan.release (Scan.atCheckpoint c).depth keep reached = .ok ((), after)) :
    bracket keep body c = (closedRecord c after records, after) := by
  simp only [bracket, Scan.checkpoint_eq, hbody, h]
  rfl

theorem bracket_refused (keep : Bool) (hd : reached.depth ≠ (Scan.atCheckpoint c).depth) :
    bracket keep body c = (refusedRecord c reached records, reached) := by
  simp only [bracket, Scan.checkpoint_eq, hbody, Scan.release_refused keep hd]
  rfl

variable {place : Place} {saved : List Place} (hd : reached.depth = (Scan.atCheckpoint c).depth)
  (hs : reached.saved = place :: saved)
include hd hs

theorem bracket_kept : bracket true body c =
    (closedRecord c { reached with saved } records, { reached with saved }) := by
  refine bracket_of_release hbody ?_
  rw [← hd]
  exact Scan.release_kept hs

theorem bracket_dropped : bracket false body c =
    (closedRecord c { reached with place, last := none, saved } records,
      { reached with place, last := none, saved }) := by
  refine bracket_of_release hbody ?_
  rw [← hd]
  exact Scan.release_dropped hs

end

/-! ## Depth -/

/-- Wherever the commands pass, at least `base` places are saved. -/
def StaysAbove (base : Nat) (commands : List Command) (c : Cursor) : Prop :=
  ∀ d, Visits commands c d → base ≤ d.depth

namespace StaysAbove

variable {base : Nat} {keep : Bool} {command : Command} {inner more : List Command}

theorem behind (h : StaysAbove base (command :: more) c) : base ≤ (run command c).2.depth :=
  h _ (.later (.here more _))

theorem later (h : StaysAbove base (command :: more) c) : StaysAbove base more (run command c).2 :=
  fun d hd => h d (.later hd)

theorem inCheckpoint (h : StaysAbove base (.checkpoint keep inner :: more) c) :
    StaysAbove base inner (Scan.atCheckpoint c) :=
  fun d hd => h d (.inCheckpoint Scan.checkpoint_eq hd)

theorem inSpeculate (h : StaysAbove base (.speculate inner :: more) c) :
    StaysAbove base inner (Scan.atCheckpoint c) :=
  fun d hd => h d (.inSpeculate Scan.checkpoint_eq hd)

end StaysAbove

mutual

/-- The cursors that one command passes in its body. -/
def within : Command → Cursor → List Cursor
  | .checkpoint _ inner, c => passes inner (Scan.atCheckpoint c)
  | .speculate inner, c => passes inner (Scan.atCheckpoint c)
  | _, _ => []

/-- The cursors that commands pass. -/
def passes : List Command → Cursor → List Cursor
  | [], c => [c]
  | command :: more, c => c :: (within command c ++ passes more (run command c).2)

end

/-- Nothing is visited that is not passed. -/
theorem Visits.mem_passes {commands : List Command} {d : Cursor} (h : Visits commands c d) :
    d ∈ passes commands c := by
  induction h with
  | here commands c => cases commands <;> simp [passes]
  | later _ ih => simp [passes, ih]
  | inCheckpoint hopen _ ih =>
    cases hopen
    exact List.mem_cons_of_mem _ (List.mem_append_left _ ih)
  | inSpeculate hopen _ ih =>
    cases hopen
    exact List.mem_cons_of_mem _ (List.mem_append_left _ ih)

/-- How deep commands go is found out by running them. -/
theorem StaysAbove.of_passes {base : Nat} {commands : List Command}
    (h : ∀ d ∈ passes commands c, base ≤ d.depth) : StaysAbove base commands c :=
  fun d hd => h d hd.mem_passes

/-! ## What lies under a checkpoint -/

variable {base : List Place} {place : Place} {saved : List Place}

/-- A place less on the stack does not matter to those under it. -/
theorem suffix_tail (h : base <:+ saved) (hd : base.length ≤ saved.tail.length) :
    base <:+ saved.tail := by
  cases saved with
  | nil => exact h
  | cons place saved =>
    rcases List.suffix_cons_iff.1 h with rfl | h
    · exact absurd hd (Nat.not_succ_le_self _)
    · exact h

theorem saved_restore (answer : Bool → Answer) (c : Cursor) :
    (perform Scan.restore answer c).2.saved = c.saved.tail := by
  cases hs : c.saved <;> simp [perform, Scan.restore, hs]

theorem saved_discard (answer : Bool → Answer) (c : Cursor) :
    (perform Scan.discard answer c).2.saved = c.saved.tail := by
  cases hs : c.saved <;> simp [perform, Scan.discard, hs]

/-- A trial of a kind leaves the stack alone, or it faults and leaves everything alone. -/
theorem saved_recognize (hc : c.Coherent source) (k : Kind) (answer : Reading → Answer) :
    (perform k.recognize answer c).2.saved = c.saved := by
  obtain ⟨before, text, -, hat⟩ := hc.exists_standsAt
  obtain ⟨seen, stop, hrun, hatomic⟩ := recognize_atomic hat k
  unfold perform
  cases hanswer : k.recognize c with
  | error fault => rfl
  | ok r =>
    obtain rfl := hrun.eq_of_ok hanswer
    exact hatomic.saved_eq

/-- A bracket pops one place of the stack that its body leaves, or none. -/
theorem suffix_bracket {keep : Bool} {body : Cursor → List StepRecord × Cursor}
    (h : base <:+ (body (Scan.atCheckpoint c)).2.saved)
    (hd : base.length ≤ (bracket keep body c).2.depth) :
    base <:+ (bracket keep body c).2.saved := by
  generalize hbody : body (Scan.atCheckpoint c) = r at h
  obtain ⟨records, reached⟩ := r
  -- the place that is popped need not be the one that the checkpoint pushed
  by_cases hclosed : reached.depth = (Scan.atCheckpoint c).depth
  · cases hs : reached.saved with
    | nil =>
      simp [Cursor.depth, Scan.atCheckpoint, hs] at hclosed
    | cons place saved =>
      rw [hs] at h
      cases keep with
      | true =>
        rw [bracket_kept hbody hclosed hs] at hd ⊢
        exact suffix_tail h hd
      | false =>
        rw [bracket_dropped hbody hclosed hs] at hd ⊢
        exact suffix_tail h hd
  · rw [bracket_refused hbody keep hclosed]
    exact h

mutual

theorem suffix_run : ∀ (command : Command) (more : List Command) (c : Cursor), c.Coherent source →
    StaysAbove base.length (command :: more) c → base <:+ c.saved → base <:+ (run command c).2.saved
  | .next, _, c, _, _, h => by
    have hsame : (run .next c).2.saved = c.saved := perform_keeps Scan.next_saved _ rfl
    rwa [hsame]
  | .undo, _, c, _, _, h => by
    have hsame : (run .undo c).2.saved = c.saved := perform_keeps Scan.undo_saved _ rfl
    rwa [hsame]
  | .peek, _, c, _, _, h => by
    have hsame : (run .peek c).2.saved = c.saved :=
      perform_keeps (P := fun d => d.saved = c.saved) .peek _ rfl
    rwa [hsame]
  | .recognize kind, _, c, hc, _, h => by
    have hsame : (run (.recognize kind) c).2.saved = c.saved := saved_recognize hc kind _
    rwa [hsame]
  | .save, _, _, _, _, h => h.trans (List.suffix_cons _ _)
  | .restore, _, c, _, hd, h => by
    have hpop : (run .restore c).2.saved = c.saved.tail := saved_restore .flag c
    have hdepth := hd.behind
    rw [Cursor.depth, hpop] at hdepth
    rw [hpop]
    exact suffix_tail h hdepth
  | .discard, _, c, _, hd, h => by
    have hpop : (run .discard c).2.saved = c.saved.tail := saved_discard .flag c
    have hdepth := hd.behind
    rw [Cursor.depth, hpop] at hdepth
    rw [hpop]
    exact suffix_tail h hdepth
  | .checkpoint _ inner, _, _, hc, hd, h =>
    suffix_bracket (suffix_runAll inner _ (Scan.coherent_atCheckpoint hc) hd.inCheckpoint
      (h.trans (List.suffix_cons _ _))) hd.behind
  | .speculate inner, _, _, hc, hd, h =>
    suffix_bracket (suffix_runAll inner _ (Scan.coherent_atCheckpoint hc) hd.inSpeculate
      (h.trans (List.suffix_cons _ _))) hd.behind
  | .hasNext, _, _, _, _, h => h
  | .rawText, _, _, _, _, h => h
  | .isWhitespace _, _, _, _, _, h => h

theorem suffix_runAll : ∀ (commands : List Command) (c : Cursor), c.Coherent source →
    StaysAbove base.length commands c → base <:+ c.saved → base <:+ (runAll commands c).2.saved
  | [], _, _, _, h => h
  | command :: more, c, hc, hd, h =>
    suffix_runAll more _ (run_keeps Cursor.Coherent.closed command c hc) hd.later
      (suffix_run command more c hc hd h)

end

theorem Visits.suffix {commands : List Command} {d : Cursor} (hvisit : Visits commands c d)
    (hc : c.Coherent source) (hd : StaysAbove base.length commands c) (h : base <:+ c.saved) :
    base <:+ d.saved := by
  induction hvisit with
  | here => exact h
  | later _ ih =>
    exact ih (run_keeps Cursor.Coherent.closed _ _ hc) hd.later (suffix_run _ _ _ hc hd h)
  | inCheckpoint hopen _ ih =>
    cases hopen
    exact ih (Scan.coherent_atCheckpoint hc) hd.inCheckpoint (h.trans (List.suffix_cons _ _))
  | inSpeculate hopen _ ih =>
    cases hopen
    exact ih (Scan.coherent_atCheckpoint hc) hd.inSpeculate (h.trans (List.suffix_cons _ _))

theorem visits_runAll (commands : List Command) (c : Cursor) :
    Visits commands c (runAll commands c).2 := by
  induction commands generalizing c with
  | nil => exact .here [] c
  | cons command more ih => exact .later (ih (run command c).2)

/-! ## Brackets -/

section
variable {commands inner : List Command}
  (hd : StaysAbove (Scan.atCheckpoint c).depth inner (Scan.atCheckpoint c))
include hd

/-- Nothing that runs under a checkpoint pops its place or one saved before it, and nothing leads in
front of it. -/
theorem under_checkpoint {d : Cursor} (hc : c.Coherent source)
    (hvisit : Visits inner (Scan.atCheckpoint c) d) :
    c.place :: c.saved <:+ d.saved ∧ c.place.offset ≤ d.place.offset := by
  have hentered : (Scan.atCheckpoint c).Coherent source := Scan.coherent_atCheckpoint hc
  have hunder := hvisit.suffix hentered hd List.suffix_rfl
  have hreached : d.Coherent source := hvisit.keeps Cursor.Coherent.closed hentered
  exact ⟨hunder, hreached.saved_le_place _ (hunder.subset List.mem_cons_self)⟩

/-- Commands run under a checkpoint, and none of them goes below its depth. Then the place of the
checkpoint and all that was saved before it stay where they are on the stack, and nothing leads in
front of that place. If the commands end as deep as they began, keeping what they read leaves the
cursor where they led with the stack of before, and dropping it gives back the cursor of before with
nothing to undo. If they end deeper, the release is refused and changes nothing. -/
theorem checkpoint_scoped (h : Visits commands (.ofSource source settings) c) :
    ∃ records reached, runAll inner (Scan.atCheckpoint c) = (records, reached) ∧
      (∀ d, Visits inner (Scan.atCheckpoint c) d →
        c.place :: c.saved <:+ d.saved ∧ c.place.offset ≤ d.place.offset) ∧
      (reached.depth = (Scan.atCheckpoint c).depth →
        c.place.offset ≤ reached.place.offset ∧
        run (.checkpoint true inner) c =
          (closedRecord c { reached with saved := c.saved } records,
            { reached with saved := c.saved }) ∧
        run (.checkpoint false inner) c =
          (closedRecord c { c with last := none } records, { c with last := none }) ∧
        run (.speculate inner) c =
          (closedRecord c { c with last := none } records, { c with last := none })) ∧
      (reached.depth ≠ (Scan.atCheckpoint c).depth →
        (∀ keep, run (.checkpoint keep inner) c = (refusedRecord c reached records, reached)) ∧
        run (.speculate inner) c = (refusedRecord c reached records, reached)) := by
  have hc : c.Coherent source := h.keeps Cursor.Coherent.closed Cursor.coherent_ofSource
  have hreads : c.Reads source settings := h.keeps Cursor.Reads.closed ⟨rfl, rfl⟩
  have hvisit := visits_runAll inner (Scan.atCheckpoint c)
  obtain ⟨hunder, hahead⟩ := under_checkpoint hd hc hvisit
  have hsame : (runAll inner (Scan.atCheckpoint c)).2.Reads source settings :=
    hvisit.keeps Cursor.Reads.closed hreads
  generalize hbody : runAll inner (Scan.atCheckpoint c) = r at hunder hahead hsame
  obtain ⟨records, reached⟩ := r
  refine ⟨records, reached, rfl, fun d => under_checkpoint hd hc, fun hclosed => ?_, fun hne => ?_⟩
  · have hs : reached.saved = c.place :: c.saved := (hunder.eq_of_length hclosed.symm).symm
    have hback : { reached with place := c.place, last := none, saved := c.saved : Cursor } =
        { c with last := none } := by
      rw [hsame.1, hsame.2, ← hreads.1, ← hreads.2]
    have hdropped := bracket_dropped hbody hclosed hs
    rw [hback] at hdropped
    exact ⟨hahead, bracket_kept hbody hclosed hs, hdropped, hdropped⟩
  · exact ⟨fun keep => bracket_refused hbody keep hne, bracket_refused hbody false hne⟩

end

/-- Brackets and a save within a bracket, and a bracket that leaves a place on the stack. -/
theorem checkpoint_scoped_nested :
    ∃ c, Visits [.next] (.ofSource "ab c") c ∧
      c.place = ⟨['b', ' ', 'c'], 1, 0, 1⟩ ∧ c.saved = [] ∧
      (∃ inner, inner = [.next, .save, .checkpoint true [.next, .undo], .speculate [.next], .discard] ∧
        StaysAbove 1 inner (Scan.atCheckpoint c) ∧
        (run (.checkpoint false inner) c).2 = { c with last := none } ∧
        (run (.checkpoint true inner) c).2.place = ⟨[' ', 'c'], 2, 0, 2⟩ ∧
        (run (.checkpoint true inner) c).2.saved = []) ∧
      StaysAbove 1 [.save, .next] (Scan.atCheckpoint c) ∧
      (run (.checkpoint true [.save, .next]) c).2.place = ⟨[' ', 'c'], 2, 0, 2⟩ ∧
      (run (.checkpoint true [.save, .next]) c).2.saved = [c.place, c.place] := by
  obtain ⟨c, hc, hvisits⟩ : ∃ c, c = (run .next (.ofSource "ab c")).2 ∧
      Visits [.next] (.ofSource "ab c") c := ⟨_, rfl, .later (.here [] _)⟩
  have hdeep : StaysAbove 1 [.next, .save, .checkpoint true [.next, .undo], .speculate [.next],
      .discard] (Scan.atCheckpoint c) := by
    rw [hc]
    exact .of_passes (by decide +kernel)
  have hdeep' : StaysAbove 1 [.save, .next] (Scan.atCheckpoint c) := by
    rw [hc]
    exact .of_passes (by decide +kernel)
  have hdepth : (Scan.atCheckpoint c).depth = 1 := by
    rw [hc]
    decide +kernel
  have hplace : c.place = ⟨['b', ' ', 'c'], 1, 0, 1⟩ ∧ c.saved = [] := by
    rw [hc]
    decide +kernel
  have hends : ∀ r, runAll [.next, .save, .checkpoint true [.next, .undo], .speculate [.next], .discard]
      (Scan.atCheckpoint c) = r → r.2.depth = 1 ∧ r.2.place = ⟨[' ', 'c'], 2, 0, 2⟩ := by
    rintro _ rfl
    rw [hc]
    decide +kernel
  have hends' : ∀ r, runAll [.save, .next] (Scan.atCheckpoint c) = r →
      r.2.depth ≠ 1 ∧ r.2.place = ⟨[' ', 'c'], 2, 0, 2⟩ ∧ r.2.saved = [c.place, c.place] := by
    rintro _ rfl
    rw [hc]
    decide +kernel
  rw [← hdepth] at hdeep hdeep' hends hends'
  obtain ⟨records, reached, hbody, -, hclosed, -⟩ := checkpoint_scoped hdeep hvisits
  obtain ⟨records', reached', hbody', -, -, hrefused⟩ := checkpoint_scoped hdeep' hvisits
  obtain ⟨hdepth', hreached⟩ := hends _ hbody
  obtain ⟨hdeeper, hreached', hsaved'⟩ := hends' _ hbody'
  obtain ⟨-, hkept, hdropped, -⟩ := hclosed hdepth'
  obtain ⟨hrefused, -⟩ := hrefused hdeeper
  rw [hdepth] at hdeep hdeep'
  refine ⟨c, hvisits, hplace.1, hplace.2, ⟨_, rfl, hdeep, ?_, ?_, ?_⟩, hdeep', ?_, ?_⟩
  · rw [hdropped]
  · rw [hkept]
    exact hreached
  · rw [hkept]
    exact hplace.2
  · rw [hrefused]
    exact hreached'
  · rw [hrefused]
    exact hsaved'

end Script

end ExprLex
