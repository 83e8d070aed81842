import ScriptWeave.Resolve.Binding
import ScriptWeave.Resolve.Export

/-!
The imports of a file. Each adds to the environment or fails on its own; what fails adds nothing.
-/

namespace ScriptWeave
namespace Resolve
namespace Environment

/-- The environment of a file before its imports. -/
def ofFile (table : SymbolTable) (file : Script.File) : Environment :=
  ⟨table, file.packageName, file.declaredNames, [], []⟩

/-- Opens all names of a package. -/
def importAll (env : Environment) (package : String) : Except Reason Environment :=
  if env.table.hasPackage package then
    .ok (if env.wildcards.contains package then env
      else { env with wildcards := env.wildcards ++ [package] })
  else .error (.unknownPackage package)

/-- Imports one name of a package. -/
def importOne (env : Environment) (package name : String) : Except Reason Environment :=
  if env.table.hasPackage package then
    match env.table.lookup? package name with
    | none => .error (.noSymbol package name)
    | some symbol =>
        if env.sees symbol then
          match env.imported? name with
          | none => .ok { env with imported := env.imported ++ [symbol] }
          | some existing =>
              if existing = symbol then .ok env else .error (.importConflict symbol existing)
        else .error (.notPublic symbol)
  else .error (.unknownPackage package)

/-- Adds one import. -/
def addImport (env : Environment) (i : Script.Import) : Except Reason Environment :=
  if i.wildcard then env.importAll i.name.dotted
  else env.importOne i.name.qualifier i.name.last

/-- Adds the imports in order and collects the failures. -/
def addImports (env : Environment) : List Script.Import → Environment × List Failure
  | [] => (env, [])
  | i :: rest =>
      match env.addImport i with
      | .ok env' => env'.addImports rest
      | .error reason =>
          let (env', failures) := env.addImports rest
          (env', ⟨i.pos, i.name.dotted, reason⟩ :: failures)

end Environment
end Resolve
end ScriptWeave
