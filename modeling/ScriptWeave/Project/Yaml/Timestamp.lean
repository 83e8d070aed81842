import ScriptWeave.Text.Number

/-!
Timestamps: a date, which a time of day may follow. Months, days, hours, minutes and seconds have
one or two digits.
-/

namespace ScriptWeave
namespace Project
namespace Yaml

/-- A number of one or two digits, and what follows it. -/
def readShort? : List Char → Option (Nat × List Char)
  | a :: b :: rest =>
      if a.isDigit then
        if b.isDigit then some (Text.decimalValue [a, b], rest)
        else some (Text.decimalValue [a], b :: rest)
      else none
  | [a] => if a.isDigit then some (Text.decimalValue [a], []) else none
  | [] => none

/-- What follows a day that exists. -/
def afterDate? : List Char → Option (List Char)
  | a :: b :: c :: d :: '-' :: rest => do
      if [a, b, c, d].any (!·.isDigit) then none
      let (month, rest) ← readShort? rest
      if month < 1 ∨ 12 < month then none
      match rest with
      | '-' :: rest =>
          let (day, rest) ← readShort? rest
          if day < 1 ∨ Text.daysIn (Text.decimalValue [a, b, c, d]) month < day then none
          return rest
      | _ => none
  | _ => none

/-- What follows a fraction of a second, which may be missing. -/
def afterFraction : List Char → List Char
  | c :: d :: rest =>
      if (c = '.' ∨ c = ',') ∧ d.isDigit then rest.dropWhile Char.isDigit else c :: d :: rest
  | cs => cs

/-- What follows a time of day. -/
def afterTime? (cs : List Char) : Option (List Char) := do
  let (hour, rest) ← readShort? cs
  if 23 < hour then none
  match rest with
  | ':' :: rest =>
      let (minute, rest) ← readShort? rest
      if 59 < minute then none
      match rest with
      | ':' :: rest =>
          let (second, rest) ← readShort? rest
          if 59 < second then none
          return afterFraction rest
      | _ => none
  | _ => none

/-- Whether characters are a zone. -/
def isZone : List Char → Bool
  | ['Z'] => true
  | [sign, a, b, ':', c, d] =>
      (sign = '+' || sign = '-') && [a, b, c, d].all Char.isDigit &&
        Text.decimalValue [a, b] ≤ 24 && Text.decimalValue [c, d] ≤ 60
  | _ => false

/-- Whether characters are a date, or a date and a time with a zone after a letter or without one
after a space. -/
def isTimestamp (cs : List Char) : Bool :=
  match afterDate? cs with
  | some [] => true
  | some ('T' :: time) | some ('t' :: time) => (afterTime? time).any isZone
  | some (' ' :: time) => (afterTime? (time.dropWhile (· = ' '))).any (·.isEmpty)
  | _ => false

end Yaml
end Project
end ScriptWeave
