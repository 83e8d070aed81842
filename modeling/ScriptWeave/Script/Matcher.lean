import ScriptWeave.Script.Grammar

/-!
Matching tokens against the grammar. Alternatives are ordered and repetition is greedy. An option, a
repetition and an alternative are tried on a copy of the state; a copy that fails is dropped when it
has gone at most `lookahead` tokens ahead, and decides the whole match when it has gone further. The
state remembers the mismatch found deepest in the text, for the case that no branch reports one.
-/

namespace ScriptWeave
namespace Script

/-- A token that cannot stand where it was found, and what could have stood there. -/
structure Mismatch where
  pos : Position
  found : String
  expected : List Gram

namespace Matcher

/-- How far past its start a failing branch may have read and still be dropped. -/
def lookahead : Nat := 4

/-- How the end of the text is shown. -/
def endMark : String := "<EOF>"

/-- The tokens that remain, how many were read, and the deepest mismatch with its depth. -/
structure State where
  index : Nat
  rest : List Token
  deepest : Option Mismatch
  depth : Nat

/-- A match with its value, no match at all, or a match that broke off. -/
inductive Outcome (α : Type) where
  | matched (value : α) (state : State)
  | unmatched (state : State)
  | failed (cause : Mismatch) (state : State)

namespace Outcome

/-- Continues after a match. -/
def andThen {α β : Type} (o : Outcome α) (next : α → State → Outcome β) : Outcome β :=
  match o with
  | matched value s => next value s
  | unmatched s => unmatched s
  | failed cause s => failed cause s

def map {α β : Type} (f : α → β) (o : Outcome α) : Outcome β :=
  o.andThen fun value s => matched (f value) s

end Outcome

namespace State

/-- The place and the text of the next token; `stop` is the place where the text ends. -/
def next (stop : Position) (s : State) : Position × String :=
  match s.rest with
  | token :: _ => (token.pos, token.text)
  | [] => (stop, endMark)

/-- The mismatch of the next token with the given expectation. -/
def mismatch (stop : Position) (s : State) (expected : List Gram) : Mismatch :=
  ⟨(s.next stop).1, (s.next stop).2, expected⟩

/-- Remembers a mismatch unless a deeper one is known. -/
def note (s : State) (cause : Mismatch) : State :=
  if s.depth ≤ s.index then { s with deepest := some cause, depth := s.index } else s

/-- Goes on where a branch stopped, with the deeper of the two remembered mismatches. -/
def accept (s branch : State) : State :=
  if s.depth ≤ branch.depth then branch
  else { branch with deepest := s.deepest, depth := s.depth }

/-- Remembers the mismatch of a failing branch. -/
def learn (s : State) (cause : Mismatch) (branch : State) : State :=
  if s.depth < branch.depth then { s with deepest := branch.deepest, depth := branch.depth }
  else if s.depth ≤ branch.index then
    { s with deepest := some cause, depth := max branch.index branch.depth }
  else s

/-- Whether a failing branch went so far that its failure decides. -/
def commits (s branch : State) : Bool := s.index + lookahead < branch.index

/-- Goes on after a branch that failed: the failure decides, or the branch is dropped. -/
def recover {α : Type} (s : State) (cause : Mismatch) (branch : State)
    (dropped : State → Outcome α) : Outcome α :=
  let s' := s.learn cause branch
  if s.commits branch then .failed cause (s'.accept branch) else dropped s'

end State

/-- Repeats a step until it does not match; every match reads a token, so `n` bounds the number of
matches when it is the number of remaining tokens. -/
def repeatMatch {α : Type} (step : State → Outcome α) : Nat → State → Outcome (List α)
  | 0, s => .matched [] s
  | n + 1, s =>
      match step s with
      | .failed cause branch => (s.note cause).recover cause branch (.matched [] ·)
      | .unmatched branch => .matched [] (s.accept branch)
      | .matched value branch =>
          (repeatMatch step n (s.accept branch)).map (value :: ·)

end Matcher

open Matcher

/-- How a production is matched where a grammar expression calls it. -/
abbrev Calls : Type := (p : Production) → State → Outcome p.Node

namespace Gram

mutual

/-- Matches a grammar expression. -/
def run (stop : Position) (calls : Calls) : (g : Gram) → State → Outcome g.Value
  | token options, s =>
      match s.rest with
      | next :: rest =>
          if options.any (·.accepts next) then
            .matched next { s with index := s.index + 1, rest := rest }
          else .unmatched s
      | [] => .unmatched s
  | call p, s => calls p s
  | seq first rest, s =>
      (first.run stop calls s).andThen fun value s' =>
        (runAll stop calls rest s').map (value, ·)
  | opt g, s =>
      match g.run stop calls s with
      | .failed cause branch => (s.note cause).recover cause branch (.matched none ·)
      | .unmatched branch => .matched none (s.accept branch)
      | .matched value branch => .matched (some value) (s.accept branch)
  | many g, s => repeatMatch (g.run stop calls) (s.rest.length + 1) s
  | alt branches, s => runAny stop calls branches none 0 s

/-- Matches the items of a sequence after the first; none of them may be missing. -/
def runAll (stop : Position) (calls : Calls) : (gs : List Gram) → State → Outcome (ValueAll gs)
  | [], s => .matched () s
  | g :: gs, s =>
      match g.run stop calls s with
      | .failed cause s' => .failed cause s'
      | .unmatched s' => .failed (s'.mismatch stop (g :: gs)) s'
      | .matched value s' => (runAll stop calls gs s').map (value, ·)

/-- Matches the first branch that fits. When none does, the mismatch of the branch that read
furthest is the result, and of equals the last. -/
def runAny (stop : Position) (calls : Calls) :
    (gs : List Gram) → Option Mismatch → Nat → State → Outcome (ValueAny gs)
  | [], none, _, s => .unmatched s
  | [], some cause, _, s => .failed cause (s.note cause)
  | g :: gs, best, reach, s =>
      match g.run stop calls s with
      | .matched value branch => .matched (.inl value) (s.accept branch)
      | .unmatched _ => (runAny stop calls gs best reach s).map .inr
      | .failed cause branch =>
          s.recover cause branch fun s' =>
            if reach ≤ branch.index then
              (runAny stop calls gs (some cause) branch.index s').map .inr
            else (runAny stop calls gs best reach s').map .inr

end

end Gram

namespace Production

/-- Matches a production; `fuel` bounds how deep productions may call each other. -/
def run (stop : Position) : Nat → Calls
  | 0, _, s => .unmatched s
  | fuel + 1, p, s =>
      match p.body.run stop (run stop fuel) s with
      | .matched value s' => .matched (p.build (s.next stop).1 value) s'
      | .unmatched s' => .unmatched s'
      | .failed cause s' => .failed cause (s'.note cause)

/-- Enough fuel for a number of tokens: no production calls itself before it has read a token. -/
def fuelFor (tokens : List Token) : Nat := all.length * (tokens.length + 1)

end Production
end Script
end ScriptWeave
