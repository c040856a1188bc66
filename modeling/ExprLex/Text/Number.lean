/-
  ExprLex.Text.Number — characters by number, and numbers as text.

  Numbers are written without padding, in lower-case digits. A column pads a text that is too
  short and never cuts one that is too long. A number with a fraction or an exponent is an integer
  times a power of ten, exactly. Documents may hold numbers of any size, and readers that keep
  numbers in double precision refuse the ones that would round to infinity: those of at least
  2^1024 - 2^970, the middle between the largest double and the next power.
-/

namespace ExprLex.Text

/-! ## Characters and digits -/

/-- The character at a code point, unless the number is too large or half of a surrogate pair. -/
def charAt? (codePoint : Nat) : Option Char :=
  if h : codePoint.isValidChar then some (Char.ofNatAux codePoint h) else none

def decimal (n : Nat) : String := String.ofList (Nat.toDigits 10 n)

def hexadecimal (n : Nat) : List Char := Nat.toDigits 16 n

def digitValue? (c : Char) : Option Nat :=
  if c.isDigit then some (c.toNat - '0'.toNat)
  else if 'a' ≤ c ∧ c ≤ 'f' then some (c.toNat - 'a'.toNat + 10)
  else if 'A' ≤ c ∧ c ≤ 'F' then some (c.toNat - 'A'.toNat + 10)
  else none

def isHexDigit (c : Char) : Bool := (digitValue? c).isSome

def ofDigits (base : Nat) (digits : List Char) : Nat :=
  digits.foldl (fun n c => n * base + (digitValue? c).getD 0) 0

def alignRight (fill : Char) (width : Nat) (s : String) : String :=
  String.ofList (s.toList.leftpad width fill)

def alignLeft (width : Nat) (s : String) : String :=
  String.ofList (s.toList.rightpad width ' ')

/-! ## Numbers with an exponent -/

/-- The number `digits * 10 ^ exponent`, or its negative. -/
structure Scientific where
  negative : Bool := false
  digits : Nat
  exponent : Int := 0
  deriving DecidableEq, Repr

namespace Scientific

def doubleBound : Nat := Nat.pow 2 1024 - Nat.pow 2 970

/-- Whether the absolute value is too large for double precision. A number below `10 ^ 308` never
is, and one from `10 ^ 309` on always is, so the powers compared stay small. -/
def exceedsDouble (n : Scientific) : Bool :=
  if n.digits = 0 then false
  else
    let places := (Nat.toDigits 10 n.digits).length
    if n.exponent + places ≤ 308 then false
    else if n.exponent > 308 then true
    else if n.exponent ≥ 0 then n.digits * Nat.pow 10 n.exponent.toNat ≥ doubleBound
    else n.digits ≥ doubleBound * Nat.pow 10 (-n.exponent).toNat

def text (n : Scientific) : List Char :=
  (if n.negative then ['-'] else []) ++ Nat.toDigits 10 n.digits ++
    (if n.exponent = 0 then []
     else 'e' :: (if n.exponent < 0 then ['-'] else []) ++ Nat.toDigits 10 n.exponent.natAbs)

end Scientific

end ExprLex.Text
