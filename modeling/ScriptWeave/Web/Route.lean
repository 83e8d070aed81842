/-!
Route paths. A path is static text with parameters in braces and a wildcard written as a star in
braces. A brace that is never closed is static text.
-/

namespace ScriptWeave

inductive RoutePart where
  | static (text : String)
  | parameter (name : String)
  | wildcard
deriving DecidableEq, Repr

namespace RoutePart

theorem length_dropWhile_le {α : Type} (p : α → Bool) (l : List α) :
    (l.dropWhile p).length ≤ l.length := by
  induction l with
  | nil => simp
  | cons a l ih =>
      rw [List.dropWhile_cons]
      split
      · exact Nat.le_succ_of_le ih
      · exact Nat.le_refl _

/-- What a name in braces stands for. -/
def named (name : List Char) : RoutePart :=
  if name = ['*'] then wildcard else parameter (String.ofList name)

/-- The parts of a path. -/
def ofChars : List Char → List RoutePart
  | [] => []
  | c :: cs =>
      if c = '{' then
        match _h : cs.dropWhile (· ≠ '}') with
        | [] => [static (String.ofList (c :: cs))]
        | _ :: rest => named (cs.takeWhile (· ≠ '}')) :: ofChars rest
      else
        static (String.ofList (c :: cs.takeWhile (· ≠ '{'))) :: ofChars (cs.dropWhile (· ≠ '{'))
termination_by cs => cs.length
decreasing_by
  · have := length_dropWhile_le (· ≠ '}') cs
    rw [_h] at this
    simp at this ⊢
    omega
  · have := length_dropWhile_le (· ≠ '{') cs
    simp at this ⊢
    omega

/-- The written form of a part. -/
def render : RoutePart → String
  | static text => text
  | parameter name => "\x7b" ++ name ++ "\x7d"
  | wildcard => "\x7b*\x7d"

end RoutePart

/-- A route path by its parts. -/
abbrev Route : Type := List RoutePart

namespace Route

def ofText (text : String) : Route := RoutePart.ofChars text.toList

def render (r : Route) : String := String.join (r.map RoutePart.render)

/-- The names of the parameters; the name of the wildcard is a star. -/
def parameterNames (r : Route) : List String :=
  r.filterMap fun
    | .static _ => none
    | .parameter name => some name
    | .wildcard => some "*"

end Route
end ScriptWeave
