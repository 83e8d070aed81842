import ScriptWeave.Script.Token
import ScriptWeave.Text.Quoted

/-!
Cutting a text into tokens. Every lexeme is kept with its place, layout included, so that the
lexemes of a text that can be cut are the text again; the parser reads them without the layout.
-/

namespace ScriptWeave
namespace Script
namespace Lexer

/-- The kind of the lexeme at the front of a text, and how many characters follow its first one. -/
def front? (c : Char) (cs : List Char) : Option (TokenKind × Nat) :=
  TokenKind.all.findSome? fun kind => (kind.recognise? c cs).map (kind, ·)

/-- The place where no lexeme begins, and the text from there on. -/
structure Stuck where
  pos : Position
  rest : List Char

/-- All lexemes of a text that starts at a place, and the place where the text ends. -/
def scan (pos : Position) : List Char → Except Stuck (List Token × Position)
  | [] => .ok ([], pos)
  | c :: cs =>
      match front? c cs with
      | none => .error ⟨pos, c :: cs⟩
      | some (kind, n) =>
          let lexeme := c :: cs.take n
          match scan (pos.advance lexeme) (cs.drop n) with
          | .error stuck => .error stuck
          | .ok (tokens, stop) => .ok (⟨kind, String.ofList lexeme, pos⟩ :: tokens, stop)
termination_by cs => cs.length
decreasing_by simp only [List.length_drop, List.length_cons]; omega

/-- How many characters of an unreadable rest a message shows. -/
def sampleLength : Nat := 16

/-- The shown part of an unreadable rest; a cut is marked by three dots. -/
def sample (rest : List Char) : String :=
  if rest.length > sampleLength then String.ofList (rest.take sampleLength) ++ "..."
  else String.ofList rest

end Lexer

/-- The tokens of a text without layout, and the place where the text ends. -/
def tokens (text : String) : Except Lexer.Stuck (List Token × Position) :=
  (Lexer.scan .start text.toList).map fun (all, stop) =>
    (all.filter fun token => !token.kind.isLayout, stop)

end Script
end ScriptWeave
