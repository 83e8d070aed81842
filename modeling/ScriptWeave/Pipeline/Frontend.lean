import ScriptWeave.Resolve.Module

/-!
What a language brings to a conversion: parsing, listing exports, resolving references, and weighing
dependencies. The front end for ActionScript is one; another follows a script that says for every
file what each phase answers.
-/

namespace ScriptWeave
namespace Pipeline

structure Frontend (Parsed Tree : Type) where
  parse : SourceFile → Except Fault Parsed
  /-- The exports of a file. The module that defines them is set when they are registered. -/
  exports : Parsed → Except Fault (List Export)
  resolve : Parsed → SymbolTable → Except Fault Tree
  /-- The modules that a tree depends on with their weights, each once. -/
  edges : Tree → Except Fault (List (ModuleId × Int64))

/-- The front end for ActionScript sources. -/
def Frontend.actionScript : Frontend Source Resolve.Module where
  parse file :=
    match Script.parse file.text with
    | .ok tree => .ok ⟨file.path, tree⟩
    | .error error => .error (.issue (.ofSyntaxError file.path error))
  exports source := .ok (source.file.exports .unset)
  resolve source table := Resolve.run source table
  edges m := .ok (m.edges.map fun (id, n) => (id, Int64.ofNat n))

/-- What a file answers in each phase. -/
structure ScriptedFile where
  path : String
  parseFault : Option Fault
  /-- A package that is declared, or a name in it. -/
  exports : List (String × Option String)
  exportFault : Option Fault
  /-- Packages and names that the file uses. -/
  uses : List (String × String)
  resolveFault : Option Fault
  edges : List (ModuleId × Int64)
  edgeFault : Option Fault

/-- A file with the weights of what it depends on. -/
structure ScriptedTree where
  file : ScriptedFile
  weights : List (ModuleId × Int64)

namespace ScriptedTree

/-- Adds to the weight of a module. -/
def addWeight (weights : List (ModuleId × Int64)) (entry : ModuleId × Int64) :
    List (ModuleId × Int64) :=
  match weights with
  | [] => [entry]
  | w :: ws => if w.1 = entry.1 then (w.1, w.2 + entry.2) :: ws else w :: addWeight ws entry

end ScriptedTree

/-- The outcome of a step that fails when a fault is given. -/
def failingOn {α : Type} (fault : Option Fault) (value : α) : Except Fault α :=
  match fault with
  | some f => .error f
  | none => .ok value

/-- An export of a name, or the package alone. -/
def scriptedExport : String × Option String → Export
  | (package, none) => .package package
  | (package, some name) => .symbol package ⟨name, package, .type, true, .unset⟩

/-- The script of a path; of several the last one counts. -/
def scriptOf (files : List ScriptedFile) (path : String) : Except Fault ScriptedFile :=
  match files.reverse.find? (·.path = path) with
  | some file => .ok file
  | none => .error (.plain ("no script for " ++ path) none)

/-- The front end that follows a script. -/
def Frontend.scripted (files : List ScriptedFile) : Frontend ScriptedFile ScriptedTree where
  parse file := do
    let script ← scriptOf files file.path
    failingOn script.parseFault script
  exports script := failingOn script.exportFault (script.exports.map scriptedExport)
  resolve script table :=
    let used := script.uses.filterMap fun (package, name) =>
      (table.lookup? package name).map fun symbol => (symbol.exportPath, (1 : Int64))
    failingOn script.resolveFault ⟨script, (used ++ script.edges).foldl ScriptedTree.addWeight []⟩
  edges tree := failingOn tree.file.edgeFault tree.weights

end Pipeline
end ScriptWeave
