import ScriptWeave.Digest.Base64
import ScriptWeave.Project.Yaml.Timestamp
import ScriptWeave.Text.Decimal
import ScriptWeave.Text.Utf8

/-!
What a scalar stands for. Plain text is nothing, a truth value, a number or just text by its
spelling; a tag has to agree with that.
-/

namespace ScriptWeave
namespace Project
namespace Yaml

inductive Meaning where
  | nothing
  | flag (value : Bool)
  | integer (value : Int)
  /-- A number with a fraction, and the whole number that a count takes from it, if any. -/
  | fraction (count : Option Int)
  | text (value : String)
deriving DecidableEq, Repr

namespace Meaning

def tag : Meaning → String
  | nothing => "!!null"
  | flag _ => "!!bool"
  | integer _ => "!!int"
  | fraction _ => "!!float"
  | text _ => "!!str"

/-- Spellings that are looked up as a whole. -/
def words : List (String × Meaning) :=
  let least := some (-(Text.signedBound : Int))
  [("true", flag true), ("True", flag true), ("TRUE", flag true),
   ("false", flag false), ("False", flag false), ("FALSE", flag false),
   ("", nothing), ("~", nothing), ("null", nothing), ("Null", nothing), ("NULL", nothing),
   (".nan", fraction none), (".NaN", fraction none), (".NAN", fraction none),
   (".inf", fraction none), (".Inf", fraction none), (".INF", fraction none),
   ("+.inf", fraction none), ("+.Inf", fraction none), ("+.INF", fraction none),
   ("-.inf", fraction least), ("-.Inf", fraction least), ("-.INF", fraction least)]

/-- What a count takes from a number of 53 bits: numbers above the bound are refused, and the bound
itself and all numbers below the least count become the least count. -/
def ofTruncated (n : Int) : Meaning :=
  let bound : Int := Text.signedBound
  if bound < n then fraction none
  else if n = bound ∨ n < -bound then fraction (some (-bound))
  else fraction (some n)

/-- An integer by its digits in a base, with a sign in front of them. -/
def ofSigned? (base : Nat) (cs : List Char) : Option Meaning :=
  let value? (limit : Nat) (digits : List Char) : Option Nat :=
    if digits.isEmpty then none
    else (Text.readDigits base 0 digits).toOption.bind fun n => if n < limit then some n else none
  match cs with
  | '-' :: digits => (value? (Text.signedBound + 1) digits).map fun n => integer (-(n : Int))
  | '+' :: digits => (value? Text.signedBound digits).map fun n => integer n
  | digits => (value? Text.unsignedBound digits).map fun n => integer n

/-- A number that starts with a digit or a sign; underscores in it do not count. -/
def ofNumber? (cs : List Char) : Option Meaning :=
  let plain := cs.filter (· ≠ '_')
  match Text.readInt (String.ofList plain), Text.readUnsigned plain with
  | .ok n, _ => some (integer n)
  | _, .ok n => some (integer n)
  | _, _ =>
      match (Text.Decimal.read? plain).bind (·.truncate?) with
      | some n => some (ofTruncated n)
      | none =>
          match plain with
          | '0' :: 'b' :: digits => ofSigned? 2 digits
          | '0' :: 'o' :: digits => ofSigned? 8 digits
          | _ => none

/-- A number that starts with its point; underscores stand between digits only. -/
def ofPoint? (cs : List Char) : Option Meaning :=
  if Text.underscoresOk cs then
    ((Text.Decimal.read? (cs.filter (· ≠ '_'))).bind (·.truncate?)).map ofTruncated
  else none

/-- The meaning of plain text. -/
def ofPlain (s : String) : Meaning :=
  let found := (words.find? (·.1 = s)).map (·.2) <|>
    match s.toList with
    | [] => none
    | c :: rest =>
        if c.isDigit || c = '+' || c = '-' then ofNumber? (c :: rest)
        else if c = '.' then ofPoint? (c :: rest)
        else none
  found.getD (text s)

/-- The meaning of text with a tag, which is empty for plain text without one. -/
def ofTagged? (tag s : String) : Option Meaning :=
  if tag = "!!str" ∨ tag = "!!merge" ∧ s = "<<" then some (text s)
  else if tag = "!!binary" then
    (Digest.Base64.decode? s.toList).map fun bytes => text (Text.Utf8.decode bytes)
  else if tag = "!!timestamp" then if isTimestamp s.toList then some (text s) else none
  else
    let meaning := ofPlain s
    if tag = "" ∨ tag = meaning.tag then some meaning
    else
      match meaning with
      | integer n =>
          if tag = "!!float" ∧ n < Text.signedBound then
            (Text.Decimal.read? (toString n).toList).bind fun x => x.truncate?.map ofTruncated
          else none
      | _ => none

end Meaning
end Yaml
end Project
end ScriptWeave
