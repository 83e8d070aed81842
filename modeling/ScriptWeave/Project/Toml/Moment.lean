import ScriptWeave.Project.Toml.Value
import ScriptWeave.Text.Number

/-!
Dates and times: a year, a month and a day with dashes between them, and an hour, a minute and a
second with colons between them, which a fraction and a zone may follow.
-/

namespace ScriptWeave
namespace Project
namespace Toml

/-- The number of decimal digits, and nothing else. -/
def digitsValue? (cs : List Char) : Option Nat :=
  if cs.all Char.isDigit then some (Text.decimalValue cs) else none

/-- Whether characters are a day that exists. -/
def isDate (cs : List Char) : Bool :=
  match cs with
  | [a, b, c, d, '-', e, f, '-', g, h] =>
      match digitsValue? [a, b, c, d], digitsValue? [e, f], digitsValue? [g, h] with
      | some year, some month, some day =>
          1 ≤ month && month ≤ 12 && 1 ≤ day && day ≤ Text.daysIn year month
      | _, _, _ => false
  | _ => false

/-- What follows a fraction of a second, which may be missing. -/
def afterFraction? : List Char → Option (List Char)
  | '.' :: cs => if cs.head?.any Char.isDigit then some (cs.dropWhile Char.isDigit) else none
  | cs => some cs

/-- What follows a time of day. -/
def afterTime? : List Char → Option (List Char)
  | a :: b :: ':' :: c :: d :: ':' :: e :: f :: rest => do
      let hour ← digitsValue? [a, b]
      let minute ← digitsValue? [c, d]
      let second ← digitsValue? [e, f]
      if hour ≤ 23 ∧ minute ≤ 59 ∧ second ≤ 60 then afterFraction? rest else none
  | _ => none

/-- What follows a date and a time. -/
def afterDateTime? (cs : List Char) : Option (List Char) :=
  if isDate (cs.take 10) then
    match cs.drop 10 with
    | mark :: time => if mark = 'T' ∨ mark = 't' ∨ mark = ' ' then afterTime? time else none
    | [] => none
  else none

/-- Whether characters are a zone. -/
def isZone : List Char → Bool
  | ['Z'] | ['z'] => true
  | [sign, a, b, ':', c, d] =>
      (sign = '+' || sign = '-') && (digitsValue? [a, b]).any (· ≤ 23) &&
        (digitsValue? [c, d]).any (· ≤ 59)
  | _ => false

/-- Whether characters are what their shape suggests. -/
def MomentKind.accepts (kind : MomentKind) (cs : List Char) : Bool :=
  match kind with
  | date => isDate cs
  | time => (afterTime? cs).any (·.isEmpty)
  | dateTime => (afterDateTime? cs).any (·.isEmpty)
  | instant => (afterDateTime? cs).any isZone

end Toml
end Project
end ScriptWeave
