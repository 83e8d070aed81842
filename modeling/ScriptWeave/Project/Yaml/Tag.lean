import ScriptWeave.Project.Yaml.Cursor
import ScriptWeave.Text.Hex
import ScriptWeave.Text.Number
import ScriptWeave.Text.Utf8

/-!
Names of nodes and tags. A tag is written in full between angle brackets, or as a handle and a
suffix; a directive says what a handle stands for.
-/

namespace ScriptWeave
namespace Project
namespace Yaml

/-- The name of a node, after its indicator. -/
def readName? (c : Cursor) : Option (String × Cursor) :=
  let name := c.rest.takeWhile isNameChar
  let after := c.advance name.length
  let ends := endsWord after.rest ||
    after.rest.head?.any ['?', ':', ',', ']', '}', '%', '@', '\x60'].contains
  if name.isEmpty || !ends then none else some (String.ofList name, after)

/-- Characters of a tag besides those of names. -/
def isTagMark (c : Char) : Bool :=
  [';', '/', '?', ':', '@', '&', '=', '+', '$', ',', '.', '!', '~', '*', '\'', '(', ')', '[',
   ']'].contains c

/-- How many bytes a character takes by its first byte. -/
def byteCount? (byte : Nat) : Option Nat :=
  if byte < 0x80 then some 1
  else if byte < 0xc0 then none
  else if byte < 0xe0 then some 2
  else if byte < 0xf0 then some 3
  else if byte < 0xf8 then some 4
  else none

/-- A byte after a percent sign. -/
def readByte? : List Char → Option Nat
  | '%' :: a :: b :: _ => Text.hexNumber? [a, b]
  | _ => none

/-- The escaped bytes of one character. -/
def readEscapedChar? (c : Cursor) : Option (List UInt8 × Cursor) := do
  let first ← readByte? c.rest
  let count ← byteCount? first
  let more ← (List.range (count - 1)).mapM fun i => do
    let byte ← readByte? (c.rest.drop (3 * (i + 1)))
    if 0x80 ≤ byte ∧ byte < 0xc0 then some byte else none
  return ((first :: more).map UInt8.ofNat, c.advance (3 * count))

/-- The bytes of a tag or a suffix, which may be empty. -/
def readTagBytes? : Nat → Cursor → Option (List UInt8 × Cursor)
  | 0, _ => none
  | fuel + 1, c =>
      match c.rest with
      | '%' :: _ => do
          let (bytes, c) ← readEscapedChar? c
          let (more, after) ← readTagBytes? fuel c
          return (bytes ++ more, after)
      | x :: _ =>
          if isNameChar x || isTagMark x then do
            let (more, after) ← readTagBytes? fuel (c.advance 1)
            return (UInt8.ofNat x.toNat :: more, after)
          else some ([], c)
      | [] => some ([], c)

/-- The text of a tag or a suffix, which may be empty. -/
def readTagText? (c : Cursor) : Option (String × Cursor) :=
  (readTagBytes? (c.rest.length + 1) c).map fun (bytes, after) => (Text.Utf8.decode bytes, after)

/-- An exclamation mark, a name that may be empty, and perhaps a second exclamation mark. -/
def readHandle? (c : Cursor) : Option (String × Bool × Cursor) :=
  match c.rest with
  | '!' :: rest =>
      let name := rest.takeWhile isNameChar
      let after := c.advance (name.length + 1)
      if after.rest.head? = some '!' then
        some (String.ofList ('!' :: name ++ ['!']), true, after.advance 1)
      else some (String.ofList ('!' :: name), false, after)
  | _ => none

/-- A tag by its handle, which is empty if the tag is written in full, and its suffix. -/
def readTag? (c : Cursor) : Option ((String × String) × Cursor) := do
  let (tag, after) ← match c.rest with
    | '!' :: '<' :: _ => do
        let (text, after) ← readTagText? (c.advance 2)
        if text = "" || after.rest.head? ≠ some '>' then none
        some (("", text), after.advance 1)
    | _ => do
        let (handle, closed, after) ← readHandle? c
        let (suffix, after) ← readTagText? after
        if closed then
          if suffix = "" then none else some ((handle, suffix), after)
        else
          let whole := String.ofList (handle.toList.drop 1) ++ suffix
          some (if whole = "" then ("", "!") else ("!", whole), after)
  if endsWord after.rest then some (tag, after) else none

inductive Directive where
  | version (major minor : Nat)
  | handle (handle tag : String)
deriving DecidableEq, Repr

/-- A number of one or two digits. -/
def readVersionPart? (c : Cursor) : Option (Nat × Cursor) :=
  let digits := c.rest.takeWhile Char.isDigit
  if digits.isEmpty || 2 < digits.length then none
  else some (Text.decimalValue digits, c.advance digits.length)

/-- What follows the name of a directive. -/
def readDirectiveValue? (name : String) (c : Cursor) : Option (Directive × Cursor) := do
  if name = "YAML" then
    let (major, c) ← readVersionPart? c
    if c.rest.head? ≠ some '.' then none
    let (minor, c) ← readVersionPart? (c.advance 1)
    return (.version major minor, c)
  else if name = "TAG" then
    let (handle, closed, c) ← readHandle? c
    if !closed && handle ≠ "!" then none
    if !c.rest.head?.any isBlank then none
    let (tag, c) ← readTagText? c.skipBlanks
    if tag = "" || !endsWord c.rest then none
    return (.handle handle tag, c)
  else none

/-- A directive after its percent sign, and the start of the next line. -/
def readDirective? (c : Cursor) : Option (Directive × Cursor) := do
  let name := c.rest.takeWhile isNameChar
  let c := c.advance name.length
  if name.isEmpty || !endsWord c.rest then none
  let (directive, c) ← readDirectiveValue? (String.ofList name) c.skipBlanks
  let c := c.skipBlanks
  let c := if c.rest.head? = some '#' then c.skipLine else c
  if !endsLine c.rest then none
  match c.break? with
  | some (_, next) => return (directive, next)
  | none => return (directive, c)

end Yaml
end Project
end ScriptWeave
