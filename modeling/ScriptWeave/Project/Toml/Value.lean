import ScriptWeave.Text.Affix
import ScriptWeave.Text.Number

/-!
Values of TOML. A number keeps its spelling, because it is only read where a setting takes it; a
date or a time is only told apart by its shape.
-/

namespace ScriptWeave
namespace Project
namespace Toml

/-- What a date or a time is about. -/
inductive MomentKind where
  | instant
  | dateTime
  | date
  | time
deriving DecidableEq, Repr

inductive Value where
  | text (value : String)
  | flag (value : Bool)
  | integer (spelling : List Char)
  | fraction (spelling : List Char)
  | moment (kind : MomentKind) (spelling : List Char)
  | array (items : List Value)
  | table (entries : List (List String × Value))

def isBlank (c : Char) : Bool := c = ' ' || c = '\t'

def skipBlanks (cs : List Char) : List Char := cs.dropWhile isBlank

/-- Characters that a text or a comment may contain unescaped. -/
def isTextChar (c : Char) : Bool := c = '\t' || (0x20 ≤ c.toNat && c.toNat ≠ 0x7f)

/-- What follows a line break. -/
def afterBreak? : List Char → Option (List Char)
  | '\n' :: cs => some cs
  | '\r' :: '\n' :: cs => some cs
  | _ => none

/-- What follows the text of a comment: a line break or nothing. -/
def afterComment? : List Char → Option (List Char)
  | [] => some []
  | '\n' :: cs => some ('\n' :: cs)
  | '\r' :: '\n' :: cs => some ('\n' :: cs)
  | c :: cs => if isTextChar c then afterComment? cs else none

/-- What follows blanks, comments and line breaks. -/
def afterGap? : Nat → List Char → Option (List Char)
  | 0, _ => none
  | fuel + 1, cs => do
      let rest ← match skipBlanks cs with
        | '#' :: more => afterComment? more
        | more => some more
      match rest with
      | '\n' :: _ | '\r' :: _ => afterGap? fuel (← afterBreak? rest)
      | _ => some rest

/-- The character of hexadecimal digits, most significant first. -/
def hexChar? (digits : List Char) : Option Char := do
  let n ← digits.foldlM (fun n c => do
    let d ← Text.digitValue? c
    if d < 16 then some (16 * n + d) else none) 0
  if n.isValidChar then some (Char.ofNat n) else none

def escaped? : Char → Option Char
  | 'b' => some (Char.ofNat 8)
  | 't' => some '\t'
  | 'n' => some '\n'
  | 'f' => some (Char.ofNat 12)
  | 'r' => some '\r'
  | 'e' => some (Char.ofNat 27)
  | '"' => some '"'
  | '\\' => some '\\'
  | _ => none

def hexLength? : Char → Option Nat
  | 'u' => some 4
  | 'U' => some 8
  | _ => none

/-- The character after a backslash, and what follows its escape. -/
def readEscape? : List Char → Option (Char × List Char)
  | [] => none
  | c :: cs =>
      match hexLength? c with
      | some n => do
          if (cs.take n).length < n then none
          return (← hexChar? (cs.take n), cs.drop n)
      | none => (escaped? c).map fun char => (char, cs)

/-- Text up to the closing double quote, and what follows it. -/
def readBasic? : Nat → List Char → Option (List Char × List Char)
  | 0, _ => none
  | _ + 1, [] => none
  | _ + 1, '"' :: cs => some ([], cs)
  | fuel + 1, '\\' :: cs => do
      let (char, rest) ← readEscape? cs
      let (text, after) ← readBasic? fuel rest
      return (char :: text, after)
  | fuel + 1, c :: cs =>
      if isTextChar c then (readBasic? fuel cs).map fun (text, rest) => (c :: text, rest) else none

/-- Text up to the closing single quote, and what follows it. -/
def readLiteral? : List Char → Option (List Char × List Char)
  | [] => none
  | '\'' :: cs => some ([], cs)
  | c :: cs =>
      if isTextChar c then (readLiteral? cs).map fun (text, rest) => (c :: text, rest) else none

/-- The text of several lines up to three quotes, and what follows them. Two more quotes may stand
in front of the closing ones. -/
def splitLines? (quote : Char) (escapes : Bool) : List Char → Option (List Char × List Char)
  | [] => none
  | c :: cs =>
      let quotes := (c :: cs).takeWhile (· = quote)
      if 3 ≤ quotes.length then
        if quotes.length ≤ 5 then some (quotes.drop 3, (c :: cs).drop quotes.length) else none
      else if escapes && c = '\\' then
        match cs with
        | [] => none
        | d :: rest => (splitLines? quote escapes rest).map fun (text, after) =>
            (c :: d :: text, after)
      else if isTextChar c || c = '\n' || (c = '\r' && cs.head? = some '\n') then
        (splitLines? quote escapes cs).map fun (text, after) => (c :: text, after)
      else none

/-- Whether only blanks stand before the end of the line. -/
def isLineEnd : List Char → Bool
  | '\n' :: _ => true
  | '\r' :: '\n' :: _ => true
  | c :: cs => isBlank c && isLineEnd cs
  | [] => false

/-- Text of several lines without its escapes. A backslash at the end of a line takes with it all
white space after it. -/
def unescapeLines? : Nat → List Char → Option (List Char)
  | 0, _ => none
  | _ + 1, [] => some []
  | fuel + 1, '\\' :: cs =>
      if isLineEnd cs then
        unescapeLines? fuel (cs.dropWhile fun c => isBlank c || c = '\n' || c = '\r')
      else do
        let (char, rest) ← readEscape? cs
        return char :: (← unescapeLines? fuel rest)
  | fuel + 1, c :: cs => (unescapeLines? fuel cs).map (c :: ·)

/-- A line break right after the opening quotes does not count. -/
def dropFirstBreak (cs : List Char) : List Char := (afterBreak? cs).getD cs

/-- A text in quotes of any kind, and what follows it. -/
def readText? : List Char → Option (String × List Char)
  | '"' :: '"' :: '"' :: cs => do
      let (body, rest) ← splitLines? '"' true cs
      let text ← unescapeLines? (body.length + 1) (dropFirstBreak body)
      return (String.ofList text, rest)
  | '"' :: cs => (readBasic? (cs.length + 1) cs).map fun (text, rest) => (String.ofList text, rest)
  | '\'' :: '\'' :: '\'' :: cs => (splitLines? '\'' false cs).map fun (body, rest) =>
      (String.ofList (dropFirstBreak body), rest)
  | '\'' :: cs => (readLiteral? cs).map fun (text, rest) => (String.ofList text, rest)
  | _ => none

def isKeyChar (c : Char) : Bool := c.isAlphanum || c = '_' || c = '-'

/-- One part of a key, and what follows it. -/
def readKeyPart? : List Char → Option (String × List Char)
  | '"' :: cs => (readBasic? (cs.length + 1) cs).map fun (key, rest) => (String.ofList key, rest)
  | '\'' :: cs => (readLiteral? cs).map fun (key, rest) => (String.ofList key, rest)
  | cs =>
      match cs.takeWhile isKeyChar with
      | [] => none
      | key => some (String.ofList key, cs.dropWhile isKeyChar)

/-- A key of parts with dots between them, and what follows it. -/
def readKey? : Nat → List Char → Option (List String × List Char)
  | 0, _ => none
  | fuel + 1, cs => do
      let (part, rest) ← readKeyPart? (skipBlanks cs)
      match skipBlanks rest with
      | '.' :: more => do
          let (parts, after) ← readKey? fuel more
          return (part :: parts, after)
      | after => return ([part], after)

/-- The digits of a base that a letter marks. -/
def baseDigit? : Char → Option (Char → Bool)
  | 'x' => some fun c => c = '_' || (Text.digitValue? c).any (· < 16)
  | 'o' => some fun c => c = '_' || (Text.digitValue? c).any (· < 8)
  | 'b' => some fun c => c = '_' || c = '0' || c = '1'
  | _ => none

/-- The end of a number that is not one, if it has such an end. -/
def special? : List Char → Option (List Char)
  | 'i' :: 'n' :: 'f' :: cs => some cs
  | 'n' :: 'a' :: 'n' :: cs => some cs
  | _ => none

/-- A number by its characters, whatever their order, and what follows it. -/
def readLooseNumber? (cs : List Char) : Option (Value × List Char) :=
  let body := cs.takeWhile fun c => c.isDigit || ['+', '-', '_', '.', 'e', 'E'].contains c
  match cs.drop body.length with
  | c :: rest =>
      if c = 'i' ∨ c = 'n' then
        (special? (c :: rest)).map fun after => (.fraction (body ++ (c :: rest).take 3), after)
      else finish body (c :: rest)
  | [] => finish body []
where
  finish (body rest : List Char) : Option (Value × List Char) :=
    if body.isEmpty then none
    else if body.any fun c => c = '.' || c = 'e' || c = 'E' then some (.fraction body, rest)
    else some (.integer body, rest)

/-- An integer or a fraction, and what follows it. A zero in front of anything but a fraction stands
alone or marks a base. -/
def readNumber? (cs : List Char) : Option (Value × List Char) :=
  match cs with
  | '0' :: x :: c :: rest =>
      if x = '.' ∨ x = 'e' ∨ x = 'E' then readLooseNumber? cs
      else
        match baseDigit? x with
        | none => some (.integer ['0'], x :: c :: rest)
        | some isDigit =>
            let digits := (c :: rest).takeWhile isDigit
            some (.integer ('0' :: x :: digits), (c :: rest).drop digits.length)
  | _ => readLooseNumber? cs

/-- How many characters at a place belong to a date or a time. One blank may stand in front of a
digit, and takes the character after the digit with it. -/
def momentLength : Bool → List Char → Nat
  | _, [] => 0
  | spaced, ' ' :: d :: cs =>
      if spaced || !d.isDigit then 0
      else
        match cs with
        | [] => 2
        | _ :: rest => momentLength true rest + 3
  | spaced, c :: cs =>
      if c.isDigit || ['-', 'T', 't', ':', '.', '+', 'Z', 'z'].contains c then
        momentLength spaced cs + 1
      else 0

/-- What characters are about that look like a date or a time. -/
def momentKind (cs : List Char) : MomentKind :=
  let hasTime := cs.any fun c => c = 'T' || c = 't' || c = ':' || c = '.' || c = ' '
  let hasZone := cs.any (fun c => c = '+' || c = 'Z' || c = 'z') || (cs.drop 8).contains '-'
  if !hasTime then .date
  else if !cs.contains '-' then .time
  else if hasZone then .instant
  else .dateTime

/-- Whether a date or a time starts here. -/
def startsMoment : List Char → Bool
  | a :: b :: ':' :: _ => a.isDigit && b.isDigit
  | a :: b :: c :: d :: '-' :: _ => a.isDigit && b.isDigit && c.isDigit && d.isDigit
  | _ => false

/-- Anything but a text, a truth value, an array or a table. -/
def readBare? (cs : List Char) : Option (Value × List Char) :=
  match cs with
  | 'i' :: _ | 'n' :: _ => (special? cs).map fun rest => (.fraction (cs.take 3), rest)
  | _ =>
      if startsMoment cs then
        let spelling := cs.take (momentLength false cs)
        some (.moment (momentKind spelling) spelling, cs.drop spelling.length)
      else readNumber? cs

mutual

/-- A value and what follows it; `fuel` bounds the number of steps. -/
def readValue? : Nat → List Char → Option (Value × List Char)
  | 0, _ => none
  | fuel + 1, cs =>
      match cs with
      | [] => none
      | '"' :: _ | '\'' :: _ => (readText? cs).map fun (text, rest) => (.text text, rest)
      | 't' :: 'r' :: 'u' :: 'e' :: rest => some (.flag true, rest)
      | 'f' :: 'a' :: 'l' :: 's' :: 'e' :: rest => some (.flag false, rest)
      | '[' :: rest => (readItems? fuel true rest).map fun (items, after) => (.array items, after)
      | '{' :: rest => (readEntries? fuel true rest).map fun (entries, after) =>
          (.table entries, after)
      | _ => readBare? cs

/-- Items up to the closing bracket. -/
def readItems? : Nat → Bool → List Char → Option (List Value × List Char)
  | 0, _, _ => none
  | fuel + 1, first, cs => do
      match ← afterGap? (cs.length + 1) cs with
      | ']' :: rest => return ([], rest)
      | ',' :: more =>
          if first then none
          else
            match ← afterGap? (more.length + 1) more with
            | ']' :: rest => return ([], rest)
            | rest => readItem? fuel rest
      | rest => if first then readItem? fuel rest else none

/-- An item and those after it. -/
def readItem? : Nat → List Char → Option (List Value × List Char)
  | 0, _ => none
  | fuel + 1, cs => do
      let (item, rest) ← readValue? fuel cs
      let (items, after) ← readItems? fuel false rest
      return (item :: items, after)

/-- Entries up to the closing brace, all of them on one line. -/
def readEntries? : Nat → Bool → List Char → Option (List (List String × Value) × List Char)
  | 0, _, _ => none
  | fuel + 1, first, cs =>
      match skipBlanks cs with
      | '}' :: rest => some ([], rest)
      | ',' :: rest => if first then none else readMoreEntries? fuel (skipBlanks rest)
      | rest => if first then readMoreEntries? fuel rest else none

/-- An entry and those after it. -/
def readMoreEntries? : Nat → List Char → Option (List (List String × Value) × List Char)
  | 0, _ => none
  | fuel + 1, cs => do
      let (entry, rest) ← readEntry? fuel cs
      let (entries, after) ← readEntries? fuel false rest
      return (entry :: entries, after)

/-- A key, an equals sign and a value, and what follows them. -/
def readEntry? : Nat → List Char → Option ((List String × Value) × List Char)
  | 0, _ => none
  | fuel + 1, cs => do
      let (key, rest) ← readKey? (cs.length + 1) cs
      match rest with
      | '=' :: more => do
          let (value, after) ← readValue? fuel (skipBlanks more)
          return ((key, value), after)
      | _ => none

end

end Toml
end Project
end ScriptWeave
