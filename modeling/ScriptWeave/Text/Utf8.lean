/-!
Texts and bytes. A byte that no well-formed character starts at stands for the replacement
character.
-/

namespace ScriptWeave
namespace Text
namespace Utf8

/-- The bytes of a character. -/
def ofChar (c : Char) : List UInt8 := (String.singleton c).toUTF8.toList

def replacement : Char := Char.ofNat 0xfffd

def isTail (b : UInt8) : Bool := 0x80 ≤ b.toNat && b.toNat < 0xc0

/-- The character whose first bits are `start` and whose others are those of `count` more bytes. The
shortest form has to be used, so a number below `least` is refused. -/
def ofParts? (start count least : Nat) (rest : List UInt8) : Option Char :=
  let tail := rest.take count
  let point := tail.foldl (fun n b => 64 * n + (b.toNat - 0x80)) start
  if tail.length = count ∧ tail.all isTail ∧ least ≤ point ∧ point.isValidChar then
    some (Char.ofNat point)
  else none

/-- The character at a byte, and how many more bytes belong to it. -/
def charAt (b : UInt8) (rest : List UInt8) : Char × Nat :=
  let n := b.toNat
  let found (count : Nat) (char : Option Char) : Char × Nat :=
    match char with
    | some c => (c, count)
    | none => (replacement, 0)
  if n < 0x80 then (Char.ofNat n, 0)
  else if n < 0xc0 then (replacement, 0)
  else if n < 0xe0 then found 1 (ofParts? (n - 0xc0) 1 0x80 rest)
  else if n < 0xf0 then found 2 (ofParts? (n - 0xe0) 2 0x800 rest)
  else if n < 0xf8 then found 3 (ofParts? (n - 0xf0) 3 0x10000 rest)
  else (replacement, 0)

/-- The characters after some bytes that belong to a character already read. -/
def decodeAfter : Nat → List UInt8 → List Char
  | _, [] => []
  | skipped + 1, _ :: rest => decodeAfter skipped rest
  | 0, b :: rest =>
      let (c, more) := charAt b rest
      c :: decodeAfter more rest

def decode (bytes : List UInt8) : String := String.ofList (decodeAfter 0 bytes)

end Utf8
end Text
end ScriptWeave
