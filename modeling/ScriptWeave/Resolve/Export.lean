import ScriptWeave.Module.SymbolTable
import ScriptWeave.Script.Tree

/-!
Parsed sources and what they export. A file declares its package and one symbol for each of its
top-level declarations.
-/

namespace ScriptWeave

/-- A parsed file with the path it came from. -/
structure Source where
  path : String
  file : Script.File

namespace Source

def id (s : Source) : ModuleId := .ofSource s.path

end Source

namespace Script

def DeclBody.symbolKind : DeclBody → SymbolKind
  | type _ => .type
  | function _ => .function
  | var decl => if decl.isConst then .constant else .variable

/-- The symbol of a declaration in a package, defined by the given module. -/
def Decl.symbol (d : Decl) (package : String) (id : ModuleId) : Symbol :=
  ⟨d.name, package, d.body.symbolKind, d.isPublic, id⟩

/-- The exports of a file: its package first, then its declarations in order. -/
def File.exports (f : File) (id : ModuleId) : List Export :=
  .package f.packageName ::
    f.decls.map fun d => .symbol f.packageName (d.symbol f.packageName id)

/-- The names that a file declares, in order. -/
def File.declaredNames (f : File) : List String := f.decls.map (·.name)

end Script

namespace SymbolTable

/-- Registers one export. -/
def register (t : SymbolTable) : Export → SymbolTable
  | .package name => t.declare name
  | .symbol package symbol => t.insert package symbol

/-- Registers exports in order. -/
def registerAll (t : SymbolTable) (exports : List Export) : SymbolTable :=
  exports.foldl register t

end SymbolTable
end ScriptWeave
