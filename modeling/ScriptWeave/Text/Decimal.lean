import ScriptWeave.Text.Number

/-!
Decimal fractions with an exponent, and their values at the precision of 53 bits.
-/

namespace ScriptWeave
namespace Text

/-- Digits that a power of ten scales. -/
structure Decimal where
  negative : Bool
  digits : List Char
  exponent : Int
deriving DecidableEq, Repr

namespace Decimal

/-- The exponent at the end of a number. -/
def readExponent? : List Char → Option Int
  | [] => some 0
  | e :: rest =>
      if e = 'e' ∨ e = 'E' then
        let (negative, digits) := match rest with
          | '-' :: ds => (true, ds)
          | '+' :: ds => (false, ds)
          | ds => (false, ds)
        if digits.isEmpty || !digits.all Char.isDigit then none
        else some (if negative then -(decimalValue digits : Int) else decimalValue digits)
      else none

/-- A number without a sign: digits, a point among them or at either end, and an exponent. -/
def readUnsigned? (negative : Bool) (cs : List Char) : Option Decimal := do
  let whole := cs.takeWhile Char.isDigit
  let (fraction, rest) := match cs.drop whole.length with
    | '.' :: more => (more.takeWhile Char.isDigit, more.dropWhile Char.isDigit)
    | more => ([], more)
  if whole.isEmpty && fraction.isEmpty then none
  let exponent ← readExponent? rest
  return ⟨negative, whole ++ fraction, exponent - fraction.length⟩

def read? : List Char → Option Decimal
  | '-' :: cs => readUnsigned? true cs
  | '+' :: cs => readUnsigned? false cs
  | cs => readUnsigned? false cs

end Decimal

/-- The quotient rounded to the nearest whole number; of two equally near ones, to the even one. -/
def roundQuotient (n d : Nat) : Nat :=
  let q := n / d
  if d < 2 * (n % d) ∨ (d = 2 * (n % d) ∧ q % 2 = 1) then q + 1 else q

/-- The exponent of the greatest power of two that is not above a positive fraction. -/
def log2Fraction (n d : Nat) : Int :=
  let guess : Int := (n.log2 : Int) - d.log2
  let reached :=
    if 0 ≤ guess then decide (d * Nat.pow 2 guess.toNat ≤ n)
    else decide (d ≤ n * Nat.pow 2 (-guess).toNat)
  if reached then guess else guess - 1

/-- The whole part of a positive fraction after it has been rounded to 53 bits. -/
def roundedWhole (n d : Nat) : Nat :=
  let shift := 52 - log2Fraction n d
  if 0 ≤ shift then roundQuotient (n * Nat.pow 2 shift.toNat) d / Nat.pow 2 shift.toNat
  else roundQuotient n (d * Nat.pow 2 (-shift).toNat) * Nat.pow 2 (-shift).toNat

/-- The size of a number after rounding, without its fraction; nothing if it takes more than 1024
bits. -/
def Decimal.size? (x : Decimal) : Option Nat :=
  let n := decimalValue x.digits
  if n = 0 then some 0
  else if 400 < x.exponent then none
  else if x.exponent + x.digits.length < -400 then some 0
  else
    let size :=
      if 0 ≤ x.exponent then roundedWhole (n * Nat.pow 10 x.exponent.toNat) 1
      else roundedWhole n (Nat.pow 10 (-x.exponent).toNat)
    if size < Nat.pow 2 1024 then some size else none

/-- The whole number that rounding and cutting off the fraction give. -/
def Decimal.truncate? (x : Decimal) : Option Int :=
  x.size?.map fun size => if x.negative then -(size : Int) else size

end Text
end ScriptWeave
