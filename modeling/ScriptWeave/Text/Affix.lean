/-!
Beginnings and ends of texts.
-/

namespace ScriptWeave
namespace Text

def beginsWith (front s : String) : Bool := front.toList.isPrefixOf s.toList

def endsIn (tail s : String) : Bool := tail.toList.isSuffixOf s.toList

/-- The text without the given beginning, which is removed at most once. -/
def dropFront (front s : String) : String :=
  if beginsWith front s then String.ofList (s.toList.drop front.toList.length) else s

/-- The text without the given end, which is removed at most once. -/
def dropTail (tail s : String) : String :=
  if endsIn tail s then String.ofList (s.toList.take (s.toList.length - tail.toList.length)) else s

/-- The pieces of a text between the occurrences of a character. -/
def splitChars (sep : Char) : List Char → List (List Char)
  | [] => [[]]
  | c :: cs =>
      match splitChars sep cs with
      | [] => [[c]]
      | piece :: pieces => if c = sep then [] :: piece :: pieces else (c :: piece) :: pieces

/-- The pieces of a string between the occurrences of a character. -/
def split (sep : Char) (s : String) : List String := (splitChars sep s.toList).map String.ofList

/-- Where a text occurs first. -/
def findIn? (part : List Char) : List Char → Option Nat
  | [] => if part.isEmpty then some 0 else none
  | c :: cs => if part.isPrefixOf (c :: cs) then some 0 else (findIn? part cs).map (· + 1)

/-- Where a text occurs last. -/
def findLastIn? (part : List Char) : List Char → Option Nat
  | [] => if part.isEmpty then some 0 else none
  | c :: cs =>
      match findLastIn? part cs with
      | some i => some (i + 1)
      | none => if part.isPrefixOf (c :: cs) then some 0 else none

/-- How often a text occurs without overlaps. The empty text occurs around each character. -/
def countIn (part : List Char) (cs : List Char) : Nat :=
  if part.isEmpty then cs.length + 1 else go cs.length cs
where
  go : Nat → List Char → Nat
    | 0, _ => 0
    | fuel + 1, cs =>
        match findIn? part cs with
        | some i => go fuel (cs.drop (i + part.length)) + 1
        | none => 0

end Text
end ScriptWeave
