/-!
Places in a source text. Lines and columns count from one, and a column counts characters.

Lexemes of the script language. A recogniser is given the first character and the characters after
it, and answers how many of the latter belong to its lexeme. The recognisers are tried in the order
of `TokenKind.all`, and the first that answers decides; keywords come before identifiers, so a name
that only begins with a keyword is still a name.
-/

namespace ScriptWeave
namespace Script

structure Position where
  line : Nat
  column : Nat
deriving DecidableEq, Repr, Inhabited

namespace Position

/-- The place of the first character of a text. -/
def start : Position := ⟨1, 1⟩

/-- The place after one character: a newline begins the next line. -/
def next (p : Position) (c : Char) : Position :=
  if c = '\n' then ⟨p.line + 1, 1⟩ else ⟨p.line, p.column + 1⟩

/-- The place after a run of characters. -/
def advance (p : Position) (cs : List Char) : Position :=
  cs.foldl next p

/-- Whether a place comes before another in reading order. -/
def before (p q : Position) : Bool :=
  p.line < q.line || (p.line == q.line && p.column < q.column)

/-- The usual spelling, the line and the column separated by a colon. -/
def render (p : Position) : String :=
  s!"{p.line}:{p.column}"

theorem advance_nil (p : Position) : p.advance [] = p := rfl

end Position
inductive TokenKind where
  | comment
  | blank
  | string
  | number
  | keyword
  | ident
  | operator
  | punctuation
deriving DecidableEq, Repr

structure Token where
  kind : TokenKind
  text : String
  pos : Position
deriving DecidableEq, Repr

namespace Lexeme

def keywords : List String :=
  ["package", "import", "class", "extends", "implements", "function", "var", "const", "return",
   "if", "else", "while", "for", "throw", "try", "catch", "finally", "break", "continue", "new",
   "this", "super", "true", "false", "null", "public", "private", "protected", "internal", "static",
   "final", "override", "dynamic", "typeof", "instanceof", "void"]

/-- Operators of more than one character, each before its own initial part. -/
def longOperators : List String :=
  ["===", "!==", "==", "!=", "<=", ">=", "&&", "||", "++", "--", "+=", "-=", "*=", "/=", "%="]

def isBlankChar (c : Char) : Bool :=
  c = ' ' || c = '\t' || c = '\n' || c = '\r' || c.toNat = 12

def isLetter (c : Char) : Bool :=
  ('a' ≤ c && c ≤ 'z') || ('A' ≤ c && c ≤ 'Z')

def isDigit (c : Char) : Bool := '0' ≤ c && c ≤ '9'

def isHexDigit (c : Char) : Bool :=
  isDigit c || ('a' ≤ c && c ≤ 'f') || ('A' ≤ c && c ≤ 'F')

/-- Letters, digits and the underscore: the characters that extend a keyword. -/
def isWordChar (c : Char) : Bool := isLetter c || isDigit c || c = '_'

def isNameStart (c : Char) : Bool := isLetter c || c = '_' || c = '$'

def isNameChar (c : Char) : Bool := isNameStart c || isDigit c

/-- The length of the longest run of characters of a class at the front of a text. -/
def runLength (p : Char → Bool) (cs : List Char) : Nat := (cs.takeWhile p).length

/-- The characters up to and with the first `*/`. -/
def throughClose? : List Char → Option Nat
  | '*' :: '/' :: _ => some 2
  | _ :: cs => (throughClose? cs).map (· + 1)
  | [] => none

/-- A line comment stops before the newline; a block comment needs its end. -/
def comment? : Char → List Char → Option Nat
  | '/', '/' :: cs => some (runLength (· ≠ '\n') cs + 1)
  | '/', '*' :: cs => (throughClose? cs).map (· + 1)
  | _, _ => none

def blank? (c : Char) (cs : List Char) : Option Nat :=
  if isBlankChar c then some (runLength isBlankChar cs) else none

/-- The characters up to and with the closing quote. A backslash takes the next character along,
which must not be a newline. -/
def throughQuote? (quote : Char) : List Char → Option Nat
  | [] => none
  | '\\' :: c :: cs =>
      if c = '\n' then none else (throughQuote? quote cs).map (· + 2)
  | c :: cs =>
      if c = quote then some 1
      else if c = '\\' then none
      else (throughQuote? quote cs).map (· + 1)

def string? (c : Char) (cs : List Char) : Option Nat :=
  if c = '"' ∨ c = '\'' then throughQuote? c cs else none

/-- The length of an exponent, zero when there is none. -/
def exponentLength : List Char → Nat
  | e :: cs =>
      if e = 'e' ∨ e = 'E' then
        match cs with
        | sign :: ds =>
          if sign = '+' ∨ sign = '-' then
            match runLength isDigit ds with
            | 0 => 0
            | n => n + 2
          else
            match runLength isDigit cs with
            | 0 => 0
            | n => n + 1
        | [] => 0
      else 0
  | [] => 0

/-- The length of a fraction, zero when no digit follows the point. -/
def fractionLength : List Char → Nat
  | '.' :: cs =>
      match runLength isDigit cs with
      | 0 => 0
      | n => n + 1
  | _ => 0

/-- The characters of a decimal numeral after its first digit. -/
def decimalLength (cs : List Char) : Nat :=
  let whole := runLength isDigit cs
  let fraction := fractionLength (cs.drop whole)
  whole + fraction + exponentLength (cs.drop (whole + fraction))

/-- The characters of a hexadecimal numeral after its leading zero, zero when there is none. -/
def hexLength : List Char → Nat
  | x :: cs =>
      if x = 'x' ∨ x = 'X' then
        match runLength isHexDigit cs with
        | 0 => 0
        | n => n + 1
      else 0
  | [] => 0

def number? (c : Char) (cs : List Char) : Option Nat :=
  if isDigit c then
    if c = '0' ∧ hexLength cs ≠ 0 then some (hexLength cs) else some (decimalLength cs)
  else none

/-- A keyword is a whole word: a longer run of word characters is none. -/
def keyword? (c : Char) (cs : List Char) : Option Nat :=
  let n := runLength isWordChar cs
  if keywords.contains (String.ofList (c :: cs.take n)) then some n else none

def ident? (c : Char) (cs : List Char) : Option Nat :=
  if isNameStart c then some (runLength isNameChar cs) else none

def operator? (c : Char) (cs : List Char) : Option Nat :=
  match longOperators.find? fun op => op.toList.isPrefixOf (c :: cs) with
  | some op => some (op.length - 1)
  | none =>
      if ['-', '+', '*', '/', '%', '<', '>', '=', '!', '?'].contains c then some 0 else none

def punctuation? (c : Char) (_ : List Char) : Option Nat :=
  if ['{', '}', '(', ')', '[', ']', ';', ':', ',', '.'].contains c then some 0 else none

end Lexeme

namespace TokenKind

/-- The kinds in the order in which they are tried. -/
def all : List TokenKind :=
  [.comment, .blank, .string, .number, .keyword, .ident, .operator, .punctuation]

/-- How many of the characters after the first belong to a lexeme of this kind. -/
def recognise? : TokenKind → Char → List Char → Option Nat
  | .comment => Lexeme.comment?
  | .blank => Lexeme.blank?
  | .string => Lexeme.string?
  | .number => Lexeme.number?
  | .keyword => Lexeme.keyword?
  | .ident => Lexeme.ident?
  | .operator => Lexeme.operator?
  | .punctuation => Lexeme.punctuation?

/-- Comments and blanks separate tokens and are dropped. -/
def isLayout : TokenKind → Bool
  | .comment | .blank => true
  | _ => false

end TokenKind
end Script
end ScriptWeave
