/-!
Files of environment variables: lines of a name, an equals sign and a value, with comments, an
optional `export` in front, values in quotes, and references to earlier variables.
-/

namespace ScriptWeave
namespace Project
namespace DotEnv

/-- Variables with their values; a later one of the same name replaces an earlier one. -/
abbrev Variables : Type := List (String × String)

namespace Variables

def get? (vars : Variables) (name : String) : Option String := List.lookup name vars

def insert (vars : Variables) (name value : String) : Variables := (name, value) :: vars

end Variables

/-- Blanks inside a line. -/
def isBlank (c : Char) : Bool :=
  c = ' ' || c = '\t' || c = '\r' || c.toNat = 11 || c.toNat = 12 || c.toNat = 0x85 ||
    c.toNat = 0xa0

/-- White space between statements: blanks, line breaks and the spaces of other scripts. -/
def isSpace (c : Char) : Bool :=
  isBlank c || c = '\n' || c.toNat = 0x1680 || (0x2000 ≤ c.toNat && c.toNat ≤ 0x200a) ||
    c.toNat = 0x2028 || c.toNat = 0x2029 || c.toNat = 0x202f || c.toNat = 0x205f ||
    c.toNat = 0x3000

/-- Whether a byte may occur in a name: a letter, a digit or number, an underscore, a dot or a
blank, each byte read as the character of its number. -/
def isNameByte (b : Nat) : Bool :=
  let c := Char.ofNat b
  c.isAlphanum || c = '_' || c = '.' || isBlank c || b = 0xaa || b = 0xb5 || b = 0xba ||
    b = 0xb2 || b = 0xb3 || b = 0xb9 || (0xbc ≤ b && b ≤ 0xbe) ||
    (0xc0 ≤ b && b ≤ 0xff && b ≠ 0xd7 && b ≠ 0xf7)

def isNameChar (c : Char) : Bool :=
  (String.singleton c).toUTF8.toList.all fun b => isNameByte b.toNat

/-- Where the next statement starts, if there is one; comments run to the end of the line. -/
def nextStatement : Nat → List Char → List Char
  | 0, _ => []
  | fuel + 1, cs =>
      match cs.dropWhile isSpace with
      | '#' :: rest => nextStatement fuel (rest.dropWhile (· ≠ '\n'))
      | rest => rest

def dropExport (cs : List Char) : List Char :=
  match cs with
  | 'e' :: 'x' :: 'p' :: 'o' :: 'r' :: 't' :: c :: rest =>
      if isBlank c then (c :: rest).dropWhile isBlank else cs
  | _ => cs

/-- The characters of a name up to the sign after it, and what follows the sign. Without any sign
the name is empty and everything is value, but there has to be something. -/
def splitName? (cs : List Char) : Option (List Char × List Char) :=
  let name := cs.takeWhile fun c => isNameChar c && c ≠ ':' && c ≠ '='
  match cs.drop name.length with
  | [] => if cs.isEmpty then none else some ([], cs)
  | c :: rest => if c = '=' ∨ c = ':' then some (name, rest) else none

def trimRight (isTrimmed : Char → Bool) (cs : List Char) : List Char :=
  (cs.reverse.dropWhile isTrimmed).reverse

def trim (isTrimmed : Char → Bool) (cs : List Char) : List Char :=
  trimRight isTrimmed (cs.dropWhile isTrimmed)

/-- A bare value up to its last comment, if it has one; a comment starts with a hash after a
blank. -/
def beforeComment? : List Char → Option (List Char)
  | [] => none
  | c :: rest =>
      match beforeComment? rest with
      | some value => some (c :: value)
      | none => if isBlank c && rest.head? = some '#' then some [c] else none

def dropComment (line : List Char) : List Char := (beforeComment? line).getD line

def isReferenceChar (c : Char) : Bool := c.isUpper || c.isDigit || c = '_'

/-- The text of a reference after its dollar sign: an opening parenthesis, an opening brace, a name
and a closing brace, each of which may be missing. -/
def splitReference (cs : List Char) : List Char × List Char × List Char :=
  let (opening, afterParen) := match cs with
    | '(' :: rest => (['('], rest)
    | _ => ([], cs)
  let (opening, afterOpening) := match afterParen with
    | '{' :: rest => (opening ++ ['{'], rest)
    | _ => (opening, afterParen)
  let name := afterOpening.takeWhile isReferenceChar
  match afterOpening.drop name.length with
  | '}' :: rest => (name, opening ++ name ++ ['}'], rest)
  | rest => (name, opening ++ name, rest)

/-- Replaces references by the values of variables; a backslash keeps a dollar sign. -/
def expand (vars : Variables) : Nat → List Char → List Char
  | 0, cs => cs
  | _ + 1, [] => []
  | fuel + 1, '\\' :: '$' :: cs =>
      let (_, text, rest) := splitReference cs
      '$' :: text ++ expand vars fuel rest
  | fuel + 1, '$' :: cs =>
      let (name, text, rest) := splitReference cs
      let shown := if name.isEmpty then '$' :: text
        else ((vars.get? (String.ofList name)).getD "").toList
      shown ++ expand vars fuel rest
  | fuel + 1, c :: cs => c :: expand vars fuel cs

def expandText (vars : Variables) (cs : List Char) : String :=
  String.ofList (expand vars (cs.length + 1) cs)

/-- Line breaks written as escapes. -/
def unescapeBreaks : List Char → List Char
  | '\\' :: 'n' :: cs => '\n' :: unescapeBreaks cs
  | '\\' :: 'r' :: cs => '\r' :: unescapeBreaks cs
  | '\\' :: '\n' :: cs => '\\' :: unescapeBreaks ('\n' :: cs)
  | '\\' :: c :: cs => '\\' :: c :: unescapeBreaks cs
  | c :: cs => c :: unescapeBreaks cs
  | [] => []

/-- Drops the backslash in front of every character but a dollar sign. -/
def dropBackslashes : List Char → List Char
  | '\\' :: '$' :: cs => '\\' :: dropBackslashes ('$' :: cs)
  | '\\' :: c :: cs => c :: dropBackslashes cs
  | c :: cs => c :: dropBackslashes cs
  | [] => []

/-- The text up to a closing quote that no backslash precedes, and what follows the quote. -/
def splitQuoted? (quote : Char) : Char → List Char → Option (List Char × List Char)
  | _, [] => none
  | before, c :: cs =>
      if c = quote ∧ before ≠ '\\' then some ([], cs)
      else (splitQuoted? quote c cs).map fun (text, rest) => (c :: text, rest)

/-- A value and what follows it. -/
def readValue? (vars : Variables) : List Char → Option (String × List Char)
  | '\'' :: cs => (splitQuoted? '\'' '\'' cs).map fun (text, rest) =>
      (String.ofList (trim (· = '\'') text), rest)
  | '"' :: cs => (splitQuoted? '"' '"' cs).map fun (text, rest) =>
      (expandText vars (dropBackslashes (unescapeBreaks (trim (· = '"') text))), rest)
  | cs =>
      let line := cs.takeWhile fun c => c ≠ '\n' && c ≠ '\r'
      some (expandText vars (trim isBlank (dropComment line)), cs.drop line.length)

/-- Reads statements up to the end. -/
def readAll? : Nat → Variables → List Char → Option Variables
  | 0, vars, _ => some vars
  | fuel + 1, vars, cs =>
      match nextStatement (cs.length + 1) cs with
      | [] => some vars
      | statement => do
          let (name, afterName) ← splitName? (dropExport (statement.dropWhile isBlank))
          let (value, rest) ← readValue? vars (afterName.dropWhile isBlank)
          readAll? fuel (vars.insert (String.ofList (trimRight isSpace name)) value) rest

/-- Two characters that together break a line count as one. -/
def joinBreaks : List Char → List Char
  | '\r' :: '\n' :: cs => '\n' :: joinBreaks cs
  | c :: cs => c :: joinBreaks cs
  | [] => []

/-- The variables of a file, or nothing if it is malformed. -/
def parse? (text : String) : Option Variables :=
  let cs := joinBreaks text.toList
  readAll? (cs.length + 1) [] cs

end DotEnv
end Project
end ScriptWeave
