import ScriptWeave.Script.Lexer
import ScriptWeave.Script.Matcher

/-!
Reading a source text into its tree. A text is refused either at the first character where no token
begins, or at a token that the grammar cannot place.
-/

namespace ScriptWeave
namespace Script

inductive SyntaxError where
  | unreadable (pos : Position) (rest : List Char)
  | unexpected (cause : Mismatch)

namespace SyntaxError

def pos : SyntaxError → Position
  | unreadable pos _ => pos
  | unexpected cause => cause.pos

def message : SyntaxError → String
  | unreadable _ rest => "lexer: invalid input text " ++ Text.quoted (Lexer.sample rest)
  | unexpected cause =>
      "unexpected token " ++ Text.quoted cause.found ++
        if cause.expected.isEmpty then ""
        else " (expected " ++ " ".intercalate (Gram.renderAll cause.expected) ++ ")"

end SyntaxError

open Matcher in
/-- Matches all tokens as one file. Tokens that remain are a mismatch, unless a deeper one was met
on the way. -/
def parseTokens (tokens : List Token) (stop : Position) : Except Mismatch File :=
  let leftover (s : State) : Mismatch :=
    if s.index < s.depth then s.deepest.getD (s.mismatch stop []) else s.mismatch stop []
  match Production.run stop (Production.fuelFor tokens) .file ⟨0, tokens, none, 0⟩ with
  | .failed cause _ => .error cause
  | .unmatched s => .error (leftover s)
  | .matched file s => if s.rest.isEmpty then .ok file else .error (leftover s)

/-- The tree of a source text. -/
def parse (text : String) : Except SyntaxError File :=
  match tokens text with
  | .error stuck => .error (.unreadable stuck.pos stuck.rest)
  | .ok (tokens, stop) => (parseTokens tokens stop).mapError .unexpected

end Script
end ScriptWeave
