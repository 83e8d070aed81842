import ScriptWeave.Command.Flags
import ScriptWeave.Text.Case

/-!
The commands of the program, and which of them a command line names. A name that is almost that of a
command is answered with suggestions.
-/

namespace ScriptWeave
namespace Command

open Text

inductive Name where
  | convert
  | serve
  | graph
  | clean
  | version
deriving DecidableEq, Repr

namespace Name

def text : Name → String
  | convert => "convert"
  | serve => "serve"
  | graph => "graph"
  | clean => "clean"
  | version => "version"

def all : List Name := [convert, serve, graph, clean, version]

end Name

def programName : String := "as2amd"

/-- The flags of every command. -/
def commonFlags : List FlagSpec :=
  [⟨"config", some 'c', .text⟩, ⟨"log-format", none, .text⟩, ⟨"log-level", none, .text⟩,
   ⟨"verbose", some 'v', .switch⟩, ⟨"quiet", some 'q', .switch⟩, ⟨"no-color", none, .switch⟩]

/-- The flag that asks for help. -/
def helpFlag : FlagSpec := ⟨"help", some 'h', .switch⟩

/-- The flags of every command that converts. -/
def sourceFlags : List FlagSpec :=
  [⟨"ignore-dot-files", none, .switch⟩, ⟨"strict-exports", none, .switch⟩,
   ⟨"no-substitutions", none, .switch⟩, ⟨"verify", none, .switch⟩, ⟨"workers", none, .count⟩]

def outFlag : FlagSpec := ⟨"out", some 'o', .text⟩

namespace Name

/-- The flags of a command beside the common ones. -/
def ownFlags : Name → List FlagSpec
  | convert => outFlag :: sourceFlags
  | serve =>
      [⟨"addr", none, .text⟩, ⟨"engine", none, .text⟩, ⟨"cache-size", none, .count⟩] ++ sourceFlags
  | graph => ⟨"json", none, .switch⟩ :: sourceFlags
  | clean => [outFlag]
  | version => []

def flags (n : Name) : List FlagSpec := n.ownFlags ++ commonFlags ++ [helpFlag]

/-- The complaint about arguments that a command does not take. -/
def objection? (n : Name) (arguments : List String) : Option String :=
  match n with
  | version =>
      arguments.head?.map fun word =>
        "unknown command " ++ quoted word ++ " for " ++ quoted (programName ++ " " ++ n.text)
  | _ =>
      if arguments.length ≤ 1 then none
      else some s!"accepts at most 1 arg(s), received {arguments.length}"

end Name

/-- The next row of the table of edit distances: `row` holds the distances of the prefixes of one
word to the part of the other word read so far, and `c` is its next letter. -/
def nextRow {α : Type} [DecidableEq α] (word : List α) (c : α) (row : List Nat) : List Nat :=
  let first := row.headD 0 + 1
  let steps := word.zip (row.zip (row.drop 1))
  first :: (steps.foldl (fun (left, out) (w, diagonal, above) =>
    let cell := min (min (above + 1) (left + 1)) (if w = c then diagonal else diagonal + 1)
    (cell, out ++ [cell])) (first, [])).2

/-- How many letters have to be changed, added or dropped to make one word of another. -/
def editDistance {α : Type} [DecidableEq α] (a b : List α) : Nat :=
  (b.foldl (fun row c => nextRow a c row) (List.range (a.length + 1))).getLastD 0

/-- Whether a typed word is close to the name of a command. -/
def isClose (typed name : String) : Bool :=
  editDistance (lower typed).toUTF8.toList (lower name).toUTF8.toList ≤ 2 ||
    beginsWith (lower typed) (lower name)

/-- The commands about the program itself that every command line knows. -/
def generalNames : List String := ["help", "completion"]

/-- The names that are suggested for a word. -/
def suggestions (typed : String) : List String :=
  (Name.all.map Name.text ++ ["completion"]).filter (isClose typed)

def unknownCommand (typed : String) : String :=
  "unknown command " ++ quoted typed ++ " for " ++ quoted programName ++
    match suggestions typed with
    | [] => ""
    | names =>
        "\n\nDid you mean this?\n" ++ String.join (names.map fun name => "\t" ++ name ++ "\n")

/-- What a command line asks for. -/
inductive Invocation where
  /-- Text about the program itself. -/
  | help
  | command (name : Name) (parsed : Parsed)

/-- Reads the flags and arguments of a command. -/
def readCommand (name : Name) (words : List String) : Except String Invocation := do
  let parsed ← parse name.flags words
  if parsed.isSet "help" then return .help
  match name.objection? parsed.arguments with
  | some message => throw message
  | none => return .command name parsed

/-- Reads a command line that names no command. -/
def readBare (words : List String) : Except String Invocation := do
  let _ ← parse (commonFlags ++ [helpFlag]) words
  return .help

/-- Reads a command line. The command is the first word that is neither a flag nor the value of
one; where the word occurs first, it is left out of what the command reads. -/
def Invocation.read (words : List String) : Except String Invocation :=
  match operands commonFlags words with
  | [] => readBare words
  | word :: _ =>
      match Name.all.find? (·.text = word) with
      | some name => readCommand name (words.erase word)
      | none => if generalNames.contains word then .ok .help else .error (unknownCommand word)

end Command
end ScriptWeave
