import ScriptWeave.Text.Hex

/-!
String literals that are valid both as JSON and inside a script. Besides quotes, backslashes and
control characters, the characters `<`, `>`, `&` and the two Unicode line separators are escaped, so
that a literal can stand in any surrounding text. `decode?` reads any JSON string literal.
-/

namespace ScriptWeave
namespace Text
namespace JsonString

/-- The escape of one character inside a literal. -/
def escape (c : Char) : List Char :=
  match c.toNat with
  | 0x22 => ['\\', '"']
  | 0x5c => ['\\', '\\']
  | 0x08 => ['\\', 'b']
  | 0x0c => ['\\', 'f']
  | 0x0a => ['\\', 'n']
  | 0x0d => ['\\', 'r']
  | 0x09 => ['\\', 't']
  | n =>
    if n < 0x20 ∨ n = 0x3c ∨ n = 0x3e ∨ n = 0x26 ∨ n = 0x2028 ∨ n = 0x2029 then
      '\\' :: 'u' :: hexPadded 4 n
    else [c]

/-- The literal of a text, as characters. -/
def encode (cs : List Char) : List Char :=
  '"' :: (cs.flatMap escape ++ ['"'])

/-- The character of a single-letter escape. -/
def shortEscape? : Char → Option Char
  | '"' => some '"'
  | '\\' => some '\\'
  | '/' => some '/'
  | 'b' => some (Char.ofNat 8)
  | 'f' => some (Char.ofNat 12)
  | 'n' => some '\n'
  | 'r' => some '\r'
  | 't' => some '\t'
  | _ => none

/-- Why the body of a literal cannot be read. -/
inductive Flaw where
  | unfinished
  | control (c : Char)
  /-- A malformed escape: its characters, and the first bytes of one that it only reaches into. -/
  | escape (chars : List Char) (bytes : List UInt8)
deriving DecidableEq, Repr

/-- The characters within a number of bytes, and the bytes of a character that is cut off. -/
def takeBytes : Nat → List Char → List Char × List UInt8
  | _, [] => ([], [])
  | n, c :: cs =>
      let bytes := (String.singleton c).toUTF8.toList
      if bytes.length ≤ n then
        let (chars, cut) := takeBytes (n - bytes.length) cs
        (c :: chars, cut)
      else ([], bytes.take n)

def malformedEscape (width : Nat) (cs : List Char) : Flaw :=
  let (chars, bytes) := takeBytes width cs
  .escape chars bytes

/-- What is wrong with an escape that no rule reads. -/
def escapeFlaw : List Char → Flaw
  | '\\' :: 'u' :: cs =>
      if cs.length < 4 ∧ cs.all (fun c => (hexValue? c).isSome) then .unfinished
      else malformedEscape 6 ('\\' :: 'u' :: cs)
  | cs => malformedEscape 2 cs

/-- Reads the body of a literal up to its closing quote. The first part lists code points, in which
an escape may have left halves of surrogate pairs; the second is the text after the quote. -/
def readBody : List Char → Except Flaw (List Nat × List Char)
  | [] => .error .unfinished
  | '"' :: rest => .ok ([], rest)
  | ['\\'] => .error .unfinished
  | '\\' :: 'u' :: a :: b :: c :: d :: rest =>
      match hexNumber? [a, b, c, d] with
      | some point => do
          let (points, after) ← readBody rest
          return (point :: points, after)
      | none => .error (escapeFlaw ('\\' :: 'u' :: a :: b :: c :: d :: rest))
  | '\\' :: c :: rest =>
      match shortEscape? c with
      | some char => do
          let (points, after) ← readBody rest
          return (char.toNat :: points, after)
      | none => .error (escapeFlaw ('\\' :: c :: rest))
  | c :: rest =>
      if c.toNat < 0x20 then .error (.control c)
      else do
        let (points, after) ← readBody rest
        return (c.toNat :: points, after)

/-- Joins the halves of surrogate pairs; a half without its partner becomes U+FFFD. -/
def joinPairs : List Nat → List Char
  | [] => []
  | [point] => [if 0xd800 ≤ point ∧ point < 0xe000 then Char.ofNat 0xfffd else Char.ofNat point]
  | point :: next :: rest =>
      if 0xd800 ≤ point ∧ point < 0xdc00 ∧ 0xdc00 ≤ next ∧ next < 0xe000 then
        Char.ofNat (0x10000 + (point - 0xd800) * 0x400 + (next - 0xdc00)) :: joinPairs rest
      else if 0xd800 ≤ point ∧ point < 0xe000 then Char.ofNat 0xfffd :: joinPairs (next :: rest)
      else Char.ofNat point :: joinPairs (next :: rest)

/-- The text of a JSON string literal, with nothing after it. -/
def decode? : List Char → Option (List Char)
  | '"' :: body =>
      match readBody body with
      | .ok (points, []) => some (joinPairs points)
      | _ => none
  | _ => none

/-- The literal of a string. -/
def literal (s : String) : String :=
  String.ofList (encode s.toList)

end JsonString
end Text
end ScriptWeave
