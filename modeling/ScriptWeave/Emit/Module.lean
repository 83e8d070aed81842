import ScriptWeave.Emit.Printer
import ScriptWeave.Emit.Template
import ScriptWeave.Module.Output

/-!
The texts of emitted modules. A module names the modules that it depends on once, in order of first
use, and refers to their exports through the parameters of its factory. Inside of a merged module
the members refer to each other through the table of members.
-/

namespace ScriptWeave
namespace Emit

/-- The parameter that stands for the dependency at a position. -/
def parameter (i : Nat) : String := s!"__m{i}"

/-- The entries of a dependency list. -/
def dependencyList (ids : List ModuleId) : List Dependency :=
  ids.zipIdx.map fun (id, i) => ⟨id.logicalName, parameter i⟩

/-- An export of a dependency, read off its parameter. -/
def viaParameter (ids : List ModuleId) (symbol : Symbol) : String :=
  parameter (ids.idxOf symbol.exportPath) ++ "." ++ symbol.name

namespace Direct

/-- The modules that a source module depends on, itself left out. -/
def dependencies (id : ModuleId) (m : Resolve.Module) : List ModuleId :=
  m.dependencies.filter (· ≠ id)

/-- The spelling of a symbol inside of a source module. -/
def link (id : ModuleId) (m : Resolve.Module) (symbol : Symbol) : String :=
  if symbol.exportPath = id then symbol.name else viaParameter (dependencies id m) symbol

def body (m : Resolve.Module) : List Piece := file (.ofModule m) 1 m.source.file

def render (id : ModuleId) (m : Resolve.Module) : String :=
  DirectData.render
    { source := m.source.path
      deps := dependencyList (dependencies id m)
      body := Piece.renderAll (link id m) (body m)
      exports := m.exportNames }

end Direct

namespace Merged

variable (members : List (MergedMember Resolve.Module))

/-- The key of the member that was a module of its own. -/
def key? (id : ModuleId) : Option String := (members.find? (·.id = id)).map (·.key)

/-- The modules outside of the cycle that its members depend on. -/
def dependencies : List ModuleId :=
  Resolve.distinct (members.flatMap fun member =>
    member.tree.dependencies.filter fun id => (key? members id).isNone)

/-- The spelling of a symbol inside of a merged module. -/
def link (symbol : Symbol) : String :=
  match key? members symbol.exportPath with
  | some key => "__merged[" ++ Text.JsonString.literal key ++ "]." ++ symbol.name
  | none => viaParameter (dependencies members) symbol

def body (m : Resolve.Module) : List Piece := file (.ofModule m) 2 m.source.file

def render : String :=
  MergedData.render
    { deps := dependencyList (dependencies members)
      members := members.map fun member =>
        { key := member.key
          body := Piece.renderAll (link members) (body member.tree)
          exports := member.tree.exportNames } }

end Merged

/-- How the tree of an emitted module is read as a resolved module; what is none is described. -/
abbrev View (Tree : Type) : Type := Tree → Except String Resolve.Module

/-- The fault of a tree that is no resolved module. -/
def notResolved (description : String) : Fault :=
  .plain ("expected a rewritten module, got " ++ description) none

variable {Tree : Type}

/-- The member of a merged module with its tree read. -/
def readMember (view : View Tree) (member : MergedMember Tree) :
    Except Fault (MergedMember Resolve.Module) :=
  match view member.tree with
  | .ok m => .ok ⟨member.id, member.key, m⟩
  | .error description =>
      .error (.prefixed ("member " ++ member.id.path) (some (notResolved description)))

/-- The text of an emitted module. -/
def content (view : View Tree) : EmittedModule Tree → Except Fault String
  | .direct id tree =>
      match view tree with
      | .ok m => .ok (Direct.render id m)
      | .error description => .error (notResolved description)
  | .merged merged => do
      let members ← merged.members.mapM (readMember view)
      return Merged.render members
  | .redirect _ target key => .ok (RedirectData.render ⟨target.logicalName, key⟩)

/-- The text of an emitted module, or the issue of a module that cannot be rendered. -/
def module (view : View Tree) (m : EmittedModule Tree) : Except Issue GeneratedModule :=
  match content view m with
  | .ok text => .ok ⟨m.id, m.kind, text⟩
  | .error fault => .error (.generation m.id.path "render" (some fault))

/-- Renders modules in turn, and separates texts from issues. -/
def modules (view : View Tree) : List (EmittedModule Tree) → List GeneratedModule × List Issue
  | [] => ([], [])
  | m :: rest =>
      let (texts, issues) := modules view rest
      match module view m with
      | .ok text => (text :: texts, issues)
      | .error issue => (texts, issue :: issues)

/-- The fault of a generation that was cancelled before it began. -/
def cancelledFault : Fault :=
  .issue (.wrap .cancelled "generation cancelled" (some (.plain "context canceled" none)))

/-- The texts of all modules of an output set. Cancellation is noticed before the first module. -/
def generate (view : View Tree) (cancelled : Bool) (out : OutputSet Tree) :
    Except Fault (List GeneratedModule) :=
  if cancelled && !out.modules.isEmpty then .error cancelledFault
  else
    match modules view out.modules with
    | (texts, []) => .ok texts
    | (_, issues) => .error (.several issues)

end Emit
end ScriptWeave
