import ScriptWeave.Fault.Kinds
import ScriptWeave.Resolve.Imports

/-!
Files with all references resolved. A resolved module keeps its tree and one link for every
reference of the file; what it depends on is read off the links.
-/

namespace ScriptWeave
namespace Resolve

open Script (Owner Position Reference ReferenceKey)

/-- A reference with its meaning. -/
structure Link where
  reference : Reference
  binding : Binding

namespace Link

def symbol? (l : Link) : Option Symbol :=
  match l.binding.target with
  | .external symbol => some symbol
  | _ => none

/-- The part of a class whose receiver the link reaches from a nested function. -/
def captures? (l : Link) : Option Owner :=
  match l.binding.target with
  | .instance _ _ true => l.reference.context.around.map (·.owner)
  | _ => none

end Link

/-- A file whose references are all resolved, the links in reading order. -/
structure Module where
  source : Source
  links : List Link

namespace Module

/-- The meaning recorded for a reference. -/
def binding? (m : Module) (key : ReferenceKey) : Option Binding :=
  (m.links.find? (·.reference.key = key)).map (·.binding)

/-- Every use of a symbol of another module, in reading order. -/
def uses (m : Module) : List Symbol := m.links.filterMap (·.symbol?)

/-- The symbols that the module uses, in order of first use. -/
def externals (m : Module) : List Symbol := distinct m.uses

/-- The modules that the module uses, in order of first use. -/
def dependencies (m : Module) : List ModuleId := distinct (m.uses.map (·.exportPath))

/-- How often the module uses symbols of another one. -/
def weight (m : Module) (id : ModuleId) : Nat := m.uses.countP (·.exportPath = id)

/-- The dependencies with their weights. -/
def edges (m : Module) : List (ModuleId × Nat) := m.dependencies.map fun id => (id, m.weight id)

/-- The methods and field sections that hand their receiver to nested functions. -/
def captures (m : Module) : List Owner := distinct (m.links.filterMap (·.captures?))

/-- The names that the module exports, in order of declaration. -/
def exportNames (m : Module) : List String := m.source.file.declaredNames

end Module

/-- Resolves references in turn, and separates links from failures. -/
def linkAll (env : Environment) : List Reference → List Link × List Failure
  | [] => ([], [])
  | r :: rest =>
      let (links, failures) := linkAll env rest
      match env.bind r with
      | .ok binding => (⟨r, binding⟩ :: links, failures)
      | .error reason => (links, Environment.complaint r reason :: failures)

/-- The issue of a failure in a file. -/
def Failure.issue (path : String) (f : Failure) : Issue :=
  .resolution path f.pos.line f.pos.column f.identifier f.reason.message

/-- One issue alone is itself the fault. -/
def faultOf (issues : List Issue) : Fault :=
  match issues with
  | [issue] => .issue issue
  | _ => .several issues

/-- Resolves all references of a file against the table. -/
def run (source : Source) (table : SymbolTable) : Except Fault Module :=
  let (env, refused) := (Environment.ofFile table source.file).addImports source.file.imports
  let (links, failed) := linkAll env source.file.references
  match refused ++ failed with
  | [] => .ok ⟨source, links⟩
  | failures => .error (faultOf (failures.map (·.issue source.path)))

end Resolve
end ScriptWeave
