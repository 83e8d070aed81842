import ScriptWeave.Text.Affix

/-!
Slash-separated paths. Cleaning is purely lexical: empty elements and single dots vanish, and two
dots take back the element before them.
-/

namespace ScriptWeave
namespace Text
namespace Path

def isAbsolute (p : String) : Bool := beginsWith "/" p

/-- The elements between the slashes of a path. -/
def elements (p : String) : List String := split '/' p

/-- Adds an element to the elements of a cleaned path, the last one first. -/
def push (rooted : Bool) (done : List String) (element : String) : List String :=
  if element = "" ∨ element = "." then done
  else if element = ".." then
    match done with
    | [] => if rooted then [] else [".."]
    | last :: rest => if last = ".." then ".." :: last :: rest else rest
  else element :: done

/-- The elements of a path that remain after cleaning. -/
def cleanElements (p : String) : List String :=
  ((elements p).foldl (push (isAbsolute p)) []).reverse

/-- The shortest path that leads to the same place. -/
def clean (p : String) : String :=
  let joined := "/".intercalate (cleanElements p)
  if isAbsolute p then "/" ++ joined
  else if joined = "" then "."
  else joined

/-- Joins paths and cleans the result; empty ones are left out. -/
def join (parts : List String) : String :=
  match parts.filter (· ≠ "") with
  | [] => ""
  | nonempty => clean ("/".intercalate nonempty)

/-- The path of the directory that holds the last element. -/
def directory (p : String) : String :=
  clean ("/".intercalate ((elements p).dropLast ++ [""]))

/-- The last element of a path. -/
def base (p : String) : String :=
  if p = "" then "."
  else
    match (elements p).reverse.dropWhile (· = "") with
    | [] => "/"
    | last :: _ => last

/-- The end of the last element from its last dot on. -/
def extension (p : String) : String :=
  let last := (elements p).getLastD ""
  let tail := last.toList.reverse.takeWhile (· ≠ '.')
  if tail.length = last.toList.length then "" else String.ofList ('.' :: tail.reverse)

end Path
end Text
end ScriptWeave
