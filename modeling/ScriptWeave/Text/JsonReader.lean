import ScriptWeave.Text.Json
import ScriptWeave.Text.Quoted

/-!
Reading of JSON. A text that is not JSON has one flaw, the first that is met from left to right.
-/

namespace ScriptWeave
namespace Text
namespace Json

/-- Where in a text a character is not expected. -/
inductive Place where
  | value
  | name
  | afterName
  | afterField
  | afterItem
  | afterAll
  | number
  | string
  /-- Inside a word, where another letter is due. -/
  | word (text : String) (due : Char)
deriving DecidableEq, Repr

def Place.text : Place → String
  | value => "looking for beginning of value"
  | name => "looking for beginning of object key string"
  | afterName => "after object key"
  | afterField => "after object key:value pair"
  | afterItem => "after array element"
  | afterAll => "after top-level value"
  | number => "in numeric literal"
  | string => "in string"
  | word text due => "in literal " ++ text ++ " (expecting " ++ quotedLetter due ++ ")"

/-- Why a text is not JSON. -/
inductive Flaw where
  | unfinished
  | unexpected (c : Char) (place : Place)
  /-- A brace closes where a value is due. -/
  | mismatched
  | escape (chars : List Char) (bytes : List UInt8)
  | tooDeep
deriving DecidableEq, Repr

/-- A malformed escape as messages show it: between backticks if all of it can be seen. -/
def shownEscape (chars : List Char) (bytes : List UInt8) : String :=
  if bytes.isEmpty && chars.all (fun c => isPrintable c && c ≠ ' ' && c.toNat ≠ 0x60 &&
      c.toNat ≠ 0xfffd) then "\x60" ++ String.ofList chars ++ "\x60"
  else String.ofList ('"' :: (chars.flatMap (quotedChar '"') ++
    bytes.flatMap (fun b => '\\' :: 'x' :: hexPadded 2 b.toNat) ++ ['"']))

def Flaw.text : Flaw → String
  | unfinished => "unexpected end of JSON input"
  | unexpected c place => "invalid character " ++ quotedLetter c ++ " " ++ place.text
  | mismatched => "mismatching structural token for object or array"
  | escape chars bytes => "invalid escape sequence " ++ shownEscape chars bytes ++ " in string"
  | tooDeep => "exceeded max depth"

def Flaw.ofString : JsonString.Flaw → Flaw
  | .unfinished => unfinished
  | .control c => unexpected c .string
  | .escape chars bytes => escape chars bytes

def isBlank (c : Char) : Bool := c = ' ' || c = '\t' || c = '\n' || c = '\r'

def skipBlanks (cs : List Char) : List Char := cs.dropWhile isBlank

/-- Expects a character of a class that is not there. -/
def refuse {α : Type} (place : Place) : List Char → Except Flaw α
  | [] => .error .unfinished
  | c :: _ => .error (.unexpected c place)

/-- One or more digits. -/
def readDigits (cs : List Char) : Except Flaw (List Char × List Char) :=
  match cs.takeWhile Char.isDigit with
  | [] => refuse .number cs
  | digits => .ok (digits, cs.dropWhile Char.isDigit)

/-- The fraction of a number, which may be missing. -/
def readFraction : List Char → Except Flaw (List Char × List Char)
  | '.' :: cs => (readDigits cs).map fun (digits, rest) => ('.' :: digits, rest)
  | cs => .ok ([], cs)

/-- The exponent of a number, which may be missing. -/
def readExponent : List Char → Except Flaw (List Char × List Char)
  | [] => .ok ([], [])
  | e :: cs =>
      if e = 'e' ∨ e = 'E' then
        match cs with
        | '+' :: rest => (readDigits rest).map fun (digits, after) => (e :: '+' :: digits, after)
        | '-' :: rest => (readDigits rest).map fun (digits, after) => (e :: '-' :: digits, after)
        | _ => (readDigits cs).map fun (digits, after) => (e :: digits, after)
      else .ok ([], e :: cs)

/-- The whole part of a number; a leading zero stands alone. -/
def readWhole : List Char → Except Flaw (List Char × List Char)
  | '0' :: cs => .ok (['0'], cs)
  | cs => readDigits cs

def readUnsigned (cs : List Char) : Except Flaw (List Char × List Char) := do
  let (whole, afterWhole) ← readWhole cs
  let (fraction, afterFraction) ← readFraction afterWhole
  let (exponent, rest) ← readExponent afterFraction
  return (whole ++ fraction ++ exponent, rest)

def readNumber : List Char → Except Flaw (Json × List Char)
  | '-' :: cs => (readUnsigned cs).map fun (digits, rest) =>
      (number (String.ofList ('-' :: digits)), rest)
  | cs => (readUnsigned cs).map fun (digits, rest) => (number (String.ofList digits), rest)

/-- A string; something else is not expected at the given place. -/
def readString (place : Place) : List Char → Except Flaw (String × List Char)
  | '"' :: cs =>
      match JsonString.readBody cs with
      | .ok (points, rest) => .ok (String.ofList (JsonString.joinPairs points), rest)
      | .error flaw => .error (.ofString flaw)
  | cs => refuse place cs

/-- Reads the letters of a word that stands for a value. -/
def readWord (text : String) (meaning : Json) :
    List Char → List Char → Except Flaw (Json × List Char)
  | [], rest => .ok (meaning, rest)
  | due :: letters, cs =>
      match cs with
      | c :: rest =>
          if c = due then readWord text meaning letters rest else refuse (.word text due) cs
      | [] => .error .unfinished

/-- How deep values may be nested. -/
def maxDepth : Nat := 10000

/-- Reads a value below others and what follows it; `fuel` bounds the number of steps. -/
def read (depth : Nat) : Nat → List Char → Except Flaw (Json × List Char)
  | 0, _ => .error .unfinished
  | fuel + 1, cs =>
      match skipBlanks cs with
      | [] => .error .unfinished
      | c :: rest =>
          if c = 'n' then readWord "null" null "null".toList (c :: rest)
          else if c = 't' then readWord "true" (bool true) "true".toList (c :: rest)
          else if c = 'f' then readWord "false" (bool false) "false".toList (c :: rest)
          else if c = '"' then
            (readString .value (c :: rest)).map fun (s, after) => (string s, after)
          else if c = '[' ∨ c = '{' then
            if maxDepth ≤ depth then .error .tooDeep
            else if c = '[' then
              match skipBlanks rest with
              | ']' :: after => .ok (array [], after)
              | _ => (readItems depth fuel rest).map fun (items, after) => (array items, after)
            else
              match skipBlanks rest with
              | '}' :: after => .ok (object [], after)
              | _ => (readFields depth fuel rest).map fun (fields, after) => (object fields, after)
          else if c = '-' ∨ c.isDigit then readNumber (c :: rest)
          else if c = '}' then .error .mismatched
          else .error (.unexpected c .value)
where
  /-- Items up to the closing bracket. -/
  readItems (depth : Nat) : Nat → List Char → Except Flaw (List Json × List Char)
    | 0, _ => .error .unfinished
    | fuel + 1, cs => do
        let (item, rest) ← read (depth + 1) fuel cs
        match skipBlanks rest with
        | ',' :: more => do
            let (items, after) ← readItems depth fuel more
            return (item :: items, after)
        | ']' :: after => .ok ([item], after)
        | other => refuse .afterItem other
  /-- Fields up to the closing brace. -/
  readFields (depth : Nat) : Nat → List Char → Except Flaw (List (String × Json) × List Char)
    | 0, _ => .error .unfinished
    | fuel + 1, cs => do
        let (name, rest) ← readString .name (skipBlanks cs)
        match skipBlanks rest with
        | ':' :: valueText => do
            let (value, rest') ← read (depth + 1) fuel valueText
            match skipBlanks rest' with
            | ',' :: more => do
                let (fields, after) ← readFields depth fuel more
                return ((name, value) :: fields, after)
            | '}' :: after => .ok ([(name, value)], after)
            | other => refuse .afterField other
        | other => refuse .afterName other

/-- The value that a text holds, with nothing but blanks around it. -/
def parse (text : String) : Except Flaw Json :=
  match read 0 (2 * text.length + 2) text.toList with
  | .error flaw => .error flaw
  | .ok (value, rest) =>
      match skipBlanks rest with
      | [] => .ok value
      | other => refuse .afterAll other

end Json
end Text
end ScriptWeave
