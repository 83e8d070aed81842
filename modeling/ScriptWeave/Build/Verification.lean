import ScriptWeave.Fault.Kinds
import ScriptWeave.Module.Output

/-!
Loading generated modules to see whether they can be loaded. The engine that runs scripts is a
parameter: it answers for a text by itself, and otherwise in view of what it has run before.
-/

namespace ScriptWeave

/-- An engine for scripts, by what it refuses and why. -/
structure ScriptEngine where
  /-- Why the text of a module is no script. -/
  compile? : GeneratedModule → Option String
  /-- Why no scope can be had in which modules are defined and asked for. -/
  open? : Option String
  /-- Why the scope does not take the name of a module, after others were defined in it. -/
  name? : List GeneratedModule → GeneratedModule → Option String
  /-- Why the text of a module cannot be run, after others were defined. -/
  define? : List GeneratedModule → GeneratedModule → Option String
  /-- Why a module cannot be loaded, of those defined, after others were asked for. -/
  load? : List GeneratedModule → List GeneratedModule → GeneratedModule → Option String

namespace ScriptEngine

/-- An engine that takes everything. -/
def lenient : ScriptEngine :=
  ⟨fun _ => none, none, fun _ _ => none, fun _ _ => none, fun _ _ _ => none⟩

/-- The issue of a module that the engine refuses in a step. -/
def refusal (step : String) (m : GeneratedModule) (message : String) : Issue :=
  .generation m.id.path step (some (.plain message none))

/-- Issues that were collected are a fault. -/
def collected : List Issue → Except Fault Unit
  | [] => .ok ()
  | issue :: issues => .error (.several (issue :: issues))

variable (engine : ScriptEngine)

/-- Defines modules in turn, up to the first one that is refused. -/
def define (defined : List GeneratedModule) : List GeneratedModule → Except Fault Unit
  | [] => .ok ()
  | m :: rest =>
      match engine.name? defined m, engine.define? defined m with
      | some message, _ => .error (.plain message none)
      | none, some message => .error (.issue (refusal "evaluate" m message))
      | none, none => define (defined ++ [m]) rest

/-- Asks for modules in turn; all that are refused are issues. -/
def loadIssues (modules asked : List GeneratedModule) : List GeneratedModule → List Issue
  | [] => []
  | m :: rest =>
      ((engine.load? modules asked m).map (refusal "load" m)).toList ++
        loadIssues modules (asked ++ [m]) rest

/-- Compiles all modules, then loads each one of them. -/
def verify (modules : List GeneratedModule) : Except Fault Unit := do
  collected (modules.filterMap fun m => (engine.compile? m).map (refusal "compile" m))
  match engine.open? with
  | some message => throw (.plain message none)
  | none => pure ()
  engine.define [] modules
  collected (engine.loadIssues modules [] modules)

end ScriptEngine
end ScriptWeave
