import ScriptWeave.Text.Affix
import ScriptWeave.Text.Number

/-!
Flags on a command line. A flag has a long name and may have a letter; it takes a value unless it is
a switch. Flags may stand anywhere until two dashes end them.
-/

namespace ScriptWeave
namespace Command

open Text

inductive FlagType where
  | switch
  | text
  | count
deriving DecidableEq, Repr

structure FlagSpec where
  name : String
  letter : Option Char
  type : FlagType
deriving DecidableEq, Repr

namespace FlagSpec

/-- How a message shows the flag. -/
def title (f : FlagSpec) : String :=
  match f.letter with
  | some c => "-" ++ String.singleton c ++ ", --" ++ f.name
  | none => "--" ++ f.name

/-- Why a value does not suit the flag. -/
def objection? (f : FlagSpec) (value : String) : Option String :=
  match f.type with
  | .text => none
  | .switch =>
      if (readBool? value).isSome then none
      else some ("strconv.ParseBool: parsing " ++ quoted value ++ ": " ++
        ValueError.malformed.reason)
  | .count =>
      match readInt value with
      | .ok _ => none
      | .error e => some ("strconv.ParseInt: parsing " ++ quoted value ++ ": " ++ e.reason)

end FlagSpec

/-- What a command line says: values of flags, the latest last, and other arguments. -/
structure Parsed where
  values : List (String × String)
  arguments : List String
deriving DecidableEq, Repr

namespace Parsed

def empty : Parsed := ⟨[], []⟩

/-- The value of a flag, if it was given. -/
def value? (p : Parsed) (name : String) : Option String :=
  (p.values.reverse.find? (·.1 = name)).map (·.2)

def text (p : Parsed) (name : String) : String := (p.value? name).getD ""

def isSet (p : Parsed) (name : String) : Bool := ((p.value? name).bind readBool?).getD false

/-- Gives a flag a value that suits it. -/
def set (p : Parsed) (f : FlagSpec) (value : String) : Except String Parsed :=
  match f.objection? value with
  | none => .ok { p with values := p.values ++ [(f.name, value)] }
  | some reason =>
      .error ("invalid argument " ++ quoted value ++ " for " ++ quoted f.title ++
        " flag: " ++ reason)

end Parsed

section Parsing

variable (specs : List FlagSpec)

def byName? (name : String) : Option FlagSpec := specs.find? (·.name = name)

def byLetter? (c : Char) : Option FlagSpec := specs.find? (·.letter = some c)

/-- Whether a word is a flag that takes the next word as its value. A flag that is not known is
thought to take one. -/
def takesNext (word : String) : Bool :=
  if word.toList.contains '=' then false
  else
    match word.toList with
    | '-' :: '-' :: name => !((byName? specs (String.ofList name)).any (·.type = .switch))
    | ['-', c] => c.toNat < 128 && !((byLetter? specs c).any (·.type = .switch))
    | _ => false

/-- The words of a command line that are neither flags nor their values. -/
def operands : List String → List String
  | [] => []
  | word :: words =>
      if word = "--" then []
      else if takesNext specs word then
        match words with
        | _ :: next :: rest => operands (next :: rest)
        | _ => []
      else if word ≠ "" && !beginsWith "-" word then word :: operands words
      else operands words

/-- How a message shows a letter: only its first byte, as a character in single quotes. -/
def shownLetter (c : Char) : String :=
  quotedLetter (Char.ofNat ((String.singleton c).toUTF8.toList.headD 0).toNat)

/-- What the letters of a flag for test runs begin with; such flags mean nothing here. -/
def testLetters : List Char := "test.".toList

/-- Reads letters behind one dash; a letter that takes a value ends them. The second part of the
result says that the next word was taken as a value. -/
def readLetters (next : Option String) (p : Parsed) : List Char → Except String (Parsed × Bool)
  | [] => .ok (p, false)
  | c :: cs =>
      let shown := "-" ++ String.ofList (c :: cs)
      if testLetters.isPrefixOf (c :: cs) then .ok (p, false)
      else match byLetter? specs c with
      | none => .error ("unknown shorthand flag: " ++ shownLetter c ++ " in " ++ shown)
      | some f =>
          match cs, f.type, next with
          | '=' :: v :: vs, _, _ => (p.set f (String.ofList (v :: vs))).map fun p' => (p', false)
          | _, .switch, _ =>
              match p.set f "true" with
              | .error message => .error message
              | .ok p' => readLetters next p' cs
          | v :: vs, _, _ => (p.set f (String.ofList (v :: vs))).map fun p' => (p', false)
          | [], _, some value => (p.set f value).map fun p' => (p', true)
          | [], _, none =>
              .error ("flag needs an argument: " ++ shownLetter c ++ " in " ++ shown)

/-- Reads a flag by its long name. The second part of the result says that the next word was taken
as a value. -/
def readLong (next : Option String) (p : Parsed) (word : String) : Except String (Parsed × Bool) :=
  let body := word.toList.drop 2
  let name := body.takeWhile (· ≠ '=')
  if body.isEmpty ∨ body.head? = some '-' ∨ body.head? = some '=' then
    .error ("bad flag syntax: " ++ word)
  else
    match byName? specs (String.ofList name) with
    | none => .error ("unknown flag: --" ++ String.ofList name)
    | some f =>
        if body.contains '=' then
          (p.set f (String.ofList (body.drop (name.length + 1)))).map fun p' => (p', false)
        else if f.type = .switch then (p.set f "true").map fun p' => (p', false)
        else
          match next with
          | some value => (p.set f value).map fun p' => (p', true)
          | none => .error ("flag needs an argument: " ++ word)

/-- Reads a command line. -/
def parseFrom (p : Parsed) : List String → Except String Parsed
  | [] => .ok p
  | word :: words =>
      if word = "--" then .ok { p with arguments := p.arguments ++ words }
      else if word = "-" ∨ !beginsWith "-" word then
        parseFrom { p with arguments := p.arguments ++ [word] } words
      else
        let result := if beginsWith "--" word then readLong specs words.head? p word
          else readLetters specs words.head? p (word.toList.drop 1)
        match result with
        | .error message => .error message
        | .ok (p', false) => parseFrom p' words
        | .ok (p', true) =>
            match words with
            | [] => .ok p'
            | _ :: rest => parseFrom p' rest

def parse (words : List String) : Except String Parsed := parseFrom specs .empty words

end Parsing
end Command
end ScriptWeave
