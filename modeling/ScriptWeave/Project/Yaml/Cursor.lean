/-!
Places in a text of lines. Lines end at any of six line breaks, and blanks are spaces and tabs.
-/

namespace ScriptWeave
namespace Project
namespace Yaml

def isBlank (c : Char) : Bool := c = ' ' || c = '\t'

/-- Breaks that text keeps as they are. -/
def isSeparator (c : Char) : Bool := c.toNat = 0x2028 || c.toNat = 0x2029

def isBreak (c : Char) : Bool := c = '\n' || c = '\r' || c.toNat = 0x85 || isSeparator c

/-- Whether a blank, a line break or the end follows. -/
def endsWord : List Char → Bool
  | [] => true
  | c :: _ => isBlank c || isBreak c

/-- Whether a line break or the end follows. -/
def endsLine : List Char → Bool
  | [] => true
  | c :: _ => isBreak c

/-- Characters of names. -/
def isNameChar (c : Char) : Bool := c.isAlphanum || c = '_' || c = '-'

/-- Characters that a file may contain. -/
def isAllowed (c : Char) : Bool :=
  c = '\t' || c = '\n' || c = '\r' || (0x20 ≤ c.toNat && c.toNat ≤ 0x7e) || c.toNat = 0x85 ||
    (0xa0 ≤ c.toNat && c.toNat ≠ 0xfffe && c.toNat ≠ 0xffff)

/-- What is left of a text, and where that stands. -/
structure Cursor where
  rest : List Char
  index : Nat
  line : Nat
  column : Nat
deriving Repr

namespace Cursor

def ofChars (cs : List Char) : Cursor := ⟨cs, 0, 0, 0⟩

/-- The place after some characters of the same line. -/
def advance (c : Cursor) (n : Nat) : Cursor :=
  { c with rest := c.rest.drop n, index := c.index + n, column := c.column + n }

def skipWhile (c : Cursor) (p : Char → Bool) : Cursor := c.advance (c.rest.takeWhile p).length

def skipBlanks (c : Cursor) : Cursor := c.skipWhile isBlank

/-- The place after the characters up to a line break. -/
def skipLine (c : Cursor) : Cursor := c.skipWhile fun x => !isBreak x

/-- The start of the next line, and how text writes the break before it. -/
def break? (c : Cursor) : Option (Char × Cursor) :=
  match c.rest with
  | '\r' :: '\n' :: rest => some ('\n', ⟨rest, c.index + 2, c.line + 1, 0⟩)
  | x :: rest =>
      if isBreak x then
        some (if isSeparator x then x else '\n', ⟨rest, c.index + 1, c.line + 1, 0⟩)
      else none
  | [] => none

/-- Whether a mark between documents stands here. -/
def atMark (c : Cursor) : Bool :=
  c.column = 0 && match c.rest with
    | '-' :: '-' :: '-' :: rest | '.' :: '.' :: '.' :: rest => endsWord rest
    | _ => false

end Cursor
end Yaml
end Project
end ScriptWeave
