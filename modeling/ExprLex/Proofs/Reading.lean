/-
  ExprLex.Proofs.Reading — readers in front of what was written, and of what follows it.

  A reader that takes back what a writer wrote is run with the rest of the document behind it. So
  each of the small readers has an equation on a text in two parts, the part that it takes and the
  rest: the rest is arbitrary for a fixed text (`exactly_append`), and it must not go on with the run
  for a run of characters (`readWhile_append`). Longer readers are taken apart one step at a time
  (`bind_of_eq_some`). The digits of a number stand for it in any base up to sixteen
  (`ofDigits_toDigits`), and names stand for what they name.
-/

import ExprLex.Proofs.Slices
import ExprLex.Text.Number
import ExprLex.Text.Reader
import ExprLex.Token
import Mathlib.Data.List.Basic

namespace ExprLex

namespace Text

/-! ## Code points and digits -/

theorem charAt?_toNat (c : Char) : charAt? c.toNat = some c := by
  have hvalid : c.toNat.isValidChar := c.valid
  rw [charAt?, dif_pos hvalid]
  refine congrArg some (Char.ext (UInt32.toNat_inj.1 ?_))
  rfl

theorem digitValue?_digitChar {d : Nat} (h : d < 16) : digitValue? d.digitChar = some d := by
  have check : ∀ d : Fin 16, digitValue? (Nat.digitChar d) = some d.val := by decide
  exact check ⟨d, h⟩

theorem ofDigits_append_digit {base d : Nat} (h : d < 16) (digits : List Char) :
    ofDigits base (digits ++ [d.digitChar]) = ofDigits base digits * base + d := by
  simp [ofDigits, List.foldl_append, digitValue?_digitChar h]

theorem ofDigits_toDigits {base : Nat} (hb : 1 < base) (hle : base ≤ 16) (n : Nat) :
    ofDigits base (Nat.toDigits base n) = n := by
  induction n using Nat.strongRecOn with
  | ind n ih =>
    rw [Nat.toDigits_eq_if hb]
    split
    · rename_i hn
      have hone : ofDigits base ([] ++ [n.digitChar]) = ofDigits base [] * base + n :=
        ofDigits_append_digit (by omega) []
      simpa [ofDigits] using hone
    · have hmod : n % base < base := Nat.mod_lt n (by omega)
      have hlt : n / base < n := Nat.div_lt_self (by omega) hb
      rw [ofDigits_append_digit (by omega), ih _ hlt]
      exact Nat.div_add_mod' n base

/-- The digits of a number are digits of its base. -/
theorem exists_digit_of_mem {base n : Nat} (hb : 1 < base) {c : Char} (hc : c ∈ Nat.toDigits base n) :
    ∃ d < base, c = d.digitChar := by
  induction n using Nat.strongRecOn with
  | ind n ih =>
    rw [Nat.toDigits_eq_if hb] at hc
    split at hc
    · rename_i hn
      exact ⟨n, hn, List.mem_singleton.1 hc⟩
    · have hlt : n / base < n := Nat.div_lt_self (by omega) hb
      rcases List.mem_append.1 hc with hc | hc
      · exact ih _ hlt hc
      · exact ⟨n % base, Nat.mod_lt n (by omega), List.mem_singleton.1 hc⟩

theorem isDigit_of_mem_decimal {n : Nat} : ∀ d ∈ Nat.toDigits 10 n, d.isDigit = true :=
  fun _ hd => Nat.isDigit_of_mem_toDigits (by decide) (by decide) hd

end Text

namespace Text.Reader

variable {α β : Type} {r : Reader α} {a : α} {p : Char → Bool} {text rest run : List Char}

/-! ## Readers -/

/-- A reader goes on behind what its first step takes. -/
theorem bind_of_eq_some {f : α → Reader β} (h : r text = some (a, rest)) :
    (r >>= f) text = f a rest := by
  show (r text).bind (fun s => f s.1 s.2) = f a rest
  rw [h]
  rfl

theorem next_cons (c : Char) (rest : List Char) : next (c :: rest) = some (c, rest) := rfl

theorem peek_eq (text : List Char) : peek text = some (text.head?, text) := rfl

theorem exactly_append (expected rest : List Char) :
    exactly expected (expected ++ rest) = some ((), rest) := by
  induction expected with
  | nil => rfl
  | cons c expected ih =>
    rw [exactly, List.cons_append, bind_of_eq_some (next_cons c _), if_pos rfl]
    exact ih

theorem exactly_cons (c : Char) (rest : List Char) : exactly [c] (c :: rest) = some ((), rest) :=
  exactly_append [c] rest

theorem readWhile_append (hrun : ∀ c ∈ run, p c = true) (hstop : StopsAt p rest) :
    readWhile p (run ++ rest) = some (run, rest) := by
  rw [readWhile, takeWhile_append_of_stopsAt hrun hstop, dropWhile_append_of_stopsAt hrun hstop]

theorem readSome_append (hne : run ≠ []) (hrun : ∀ c ∈ run, p c = true) (hstop : StopsAt p rest) :
    readSome p (run ++ rest) = some (run, rest) := by
  rw [readSome, bind_of_eq_some (readWhile_append hrun hstop), if_neg (by simpa using hne)]
  rfl

theorem accept_append (expected rest : List Char) :
    accept expected (expected ++ rest) = some (true, rest) := by
  have hopt : optional (exactly expected) (expected ++ rest) = some (some (), rest) := by
    rw [optional, exactly_append]
  rw [accept, bind_of_eq_some hopt]
  rfl

theorem accept_cons (c : Char) (rest : List Char) : accept [c] (c :: rest) = some (true, rest) :=
  accept_append [c] rest

/-- A character that does not come first is not taken. -/
theorem accept_of_stopsAt {c : Char} (h : StopsAt (· = c) rest) :
    accept [c] rest = some (false, rest) := by
  have hrefuse : exactly [c] rest = none := by
    cases rest with
    | nil => rfl
    | cons d rest =>
      have hd : d ≠ c := by simpa using stopsAt_cons.1 h
      rw [exactly, bind_of_eq_some (next_cons d rest), if_neg hd]
      rfl
  have hopt : optional (exactly [c]) rest = some (none, rest) := by
    rw [optional, hrefuse]
  rw [accept, bind_of_eq_some hopt]
  rfl

theorem accept_of_ne {c d : Char} (h : d ≠ c) (rest : List Char) :
    accept [c] (d :: rest) = some (false, d :: rest) :=
  accept_of_stopsAt (stopsAt_cons.2 (decide_eq_false h))

end Text.Reader

/-! ## Names -/

/-- The category of a name. -/
def Category.ofName? (s : String) : Option Category := all.find? fun category => category.name = s

theorem Category.ofName?_name (category : Category) : ofName? category.name = some category := by
  cases category <;> decide

end ExprLex
