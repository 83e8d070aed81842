import ScriptWeave.Text.Quoted

/-!
Numbers and truth values in configuration, and the days that dates in it may have. An integer may
have a sign, a base marked by its first characters, and underscores between digits; it has to fit
into 64 bits.
-/

namespace ScriptWeave
namespace Text

def isLeapYear (year : Nat) : Bool := year % 4 = 0 && (year % 100 ≠ 0 || year % 400 = 0)

/-- The length of a month. -/
def daysIn (year month : Nat) : Nat :=
  if month = 2 then if isLeapYear year then 29 else 28
  else if [4, 6, 9, 11].contains month then 30
  else 31

/-- Why a text is not a value. -/
inductive ValueError where
  | malformed
  | outOfRange
deriving DecidableEq, Repr

namespace ValueError

def reason : ValueError → String
  | malformed => "invalid syntax"
  | outOfRange => "value out of range"

end ValueError

/-- The bound of whole numbers of 63 bits. -/
def signedBound : Nat := 0x8000000000000000

/-- The bound of whole numbers of 64 bits. -/
def unsignedBound : Nat := 0x10000000000000000

/-- The value of a digit in bases up to thirty-six. -/
def digitValue? (c : Char) : Option Nat :=
  if c.isDigit then some (c.toNat - '0'.toNat)
  else if c.toLower.isLower then some (c.toLower.toNat - 'a'.toNat + 10)
  else none

/-- The number that decimal digits stand for. -/
def decimalValue (digits : List Char) : Nat :=
  digits.foldl (fun n c => 10 * n + (c.toNat - '0'.toNat)) 0

/-- Reads digits and underscores into a number of at most 64 bits. -/
def readDigits (base : Nat) : Nat → List Char → Except ValueError Nat
  | n, [] => .ok n
  | n, '_' :: cs => readDigits base n cs
  | n, c :: cs =>
      match digitValue? c with
      | none => .error .malformed
      | some d =>
          if base ≤ d then .error .malformed
          else if unsignedBound ≤ n * base + d then .error .outOfRange
          else readDigits base (n * base + d) cs

/-- The base that the first characters mark, and the digits after the mark. A zero in front of
further digits marks octal ones. -/
def splitBase : List Char → Nat × List Char
  | '0' :: x :: c :: cs =>
      if x.toLower = 'b' then (2, c :: cs)
      else if x.toLower = 'o' then (8, c :: cs)
      else if x.toLower = 'x' then (16, c :: cs)
      else (8, x :: c :: cs)
  | '0' :: cs => (8, cs)
  | cs => (10, cs)

/-- Whether underscores stand only between digits; `after` says that a digit stands before. -/
def underscoresSeparate (isDigit : Char → Bool) : Bool → List Char → Bool
  | _, [] => true
  | after, '_' :: c :: cs => after && isDigit c && underscoresSeparate isDigit true cs
  | _, ['_'] => false
  | _, c :: cs => underscoresSeparate isDigit (isDigit c) cs

/-- Whether the underscores of an unsigned number are well placed; the mark of a base counts as a
digit. -/
def underscoresOk : List Char → Bool
  | '0' :: x :: cs =>
      if x.toLower = 'x' then
        underscoresSeparate (fun c => (digitValue? c).any (· < 16)) true cs
      else if x.toLower = 'b' ∨ x.toLower = 'o' then underscoresSeparate Char.isDigit true cs
      else underscoresSeparate Char.isDigit false ('0' :: x :: cs)
  | cs => underscoresSeparate Char.isDigit false cs

/-- A number without a sign. -/
def readUnsigned (cs : List Char) : Except ValueError Nat :=
  if cs.isEmpty then .error .malformed
  else
    let (base, digits) := splitBase cs
    match readDigits base 0 digits with
    | .error e => .error e
    | .ok n => if cs.contains '_' && !underscoresOk cs then .error .malformed else .ok n

/-- An integer of 64 bits. -/
def readInt (s : String) : Except ValueError Int :=
  match s.toList with
  | '-' :: cs =>
      match readUnsigned cs with
      | .error e => .error e
      | .ok n => if signedBound < n then .error .outOfRange else .ok (-(n : Int))
  | '+' :: cs => positive cs
  | cs => positive cs
where
  positive (cs : List Char) : Except ValueError Int :=
    match readUnsigned cs with
    | .error e => .error e
    | .ok n => if signedBound ≤ n then .error .outOfRange else .ok n

/-- A truth value by one of its spellings. -/
def readBool? (s : String) : Option Bool :=
  if ["1", "t", "T", "TRUE", "true", "True"].contains s then some true
  else if ["0", "f", "F", "FALSE", "false", "False"].contains s then some false
  else none

end Text
end ScriptWeave
