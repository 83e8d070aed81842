import ScriptWeave.Text.Hex
import ScriptWeave.Text.Printable

/-!
Text in double quotes and single characters in single quotes, for messages. Printable characters
stand for themselves; a quote and a backslash are escaped; control characters have their short
escapes where one exists and a hexadecimal escape otherwise.
-/

namespace ScriptWeave
namespace Text

/-- The escape of one character between quotes of a kind. -/
def quotedChar (quote c : Char) : List Char :=
  if c = quote ∨ c = '\\' then ['\\', c]
  else if isPrintable c then [c]
  else match c.toNat with
    | 7 => ['\\', 'a']
    | 8 => ['\\', 'b']
    | 12 => ['\\', 'f']
    | 10 => ['\\', 'n']
    | 13 => ['\\', 'r']
    | 9 => ['\\', 't']
    | 11 => ['\\', 'v']
    | n =>
      if n < 0x20 ∨ n = 0x7f then '\\' :: 'x' :: hexPadded 2 n
      else if n < 0x10000 then '\\' :: 'u' :: hexPadded 4 n
      else '\\' :: 'U' :: hexPadded 8 n

/-- A text in double quotes with its escapes, as messages show names and lexemes. -/
def quoted (s : String) : String :=
  String.ofList ('"' :: (s.toList.flatMap (quotedChar '"') ++ ['"']))

/-- A single character in single quotes, as messages show it. -/
def quotedLetter (c : Char) : String := String.ofList ('\'' :: (quotedChar '\'' c ++ ['\'']))

end Text
end ScriptWeave
