import ScriptWeave.Module.SymbolTable
import ScriptWeave.Script.Reference

/-!
What a reference means. A name is looked up in the functions around it, in the class around it, in
the file, in its imports, in its package and in the top-level package, in that order; after that the
longest package-qualified name that the dotted parts spell is tried, then the globals of the target
runtime, and inside of a subclass whatever is left is taken for an inherited member. Targets of
`new` and superclasses try the qualified name first and are never inherited members.
-/

namespace ScriptWeave
namespace Resolve

open Script (Context Position Reference ReferenceKind)

/-- Globals of the target runtime. -/
def builtins : List String :=
  ["Array", "Boolean", "Date", "Error", "Function", "Infinity", "JSON", "Math", "NaN", "Number",
   "Object", "RangeError", "RegExp", "String", "SyntaxError", "TypeError", "arguments", "console",
   "decodeURIComponent", "encodeURIComponent", "isFinite", "isNaN", "parseFloat", "parseInt",
   "undefined"]

def isBuiltin (name : String) : Bool := builtins.contains name

/-- What a name stands for. -/
inductive Target where
  /-- A parameter, a local variable or a declaration of the same file. -/
  | here (name : String)
  | builtin (name : String)
  /-- A member of the receiver; an inherited one has an empty class. When captured it is reached
  from a nested function, which has a receiver of its own. -/
  | instance (name type : String) (captured : Bool)
  | static (name type : String)
  /-- A symbol of some module. -/
  | external (symbol : Symbol)
deriving DecidableEq, Repr

/-- The meaning of a reference, and how many dotted parts it takes up: members after an
identifier, or parts of a type name. -/
structure Binding where
  target : Target
  consume : Nat
deriving DecidableEq, Repr

/-- Why a name has no meaning. -/
inductive Reason where
  | unknownPackage (package : String)
  | noSymbol (package name : String)
  | notPublic (symbol : Symbol)
  | importConflict (incoming existing : Symbol)
  | ambiguous (name : String) (candidates : List Symbol)
  | unresolvedName (name : String)
  | unresolvedType (name : String)

def Reason.message : Reason → String
  | unknownPackage package => s!"unknown package '{package}'"
  | noSymbol package name => s!"package '{package}' has no symbol '{name}'"
  | notPublic symbol => s!"'{symbol.qualifiedName}' is not public"
  | importConflict incoming existing =>
      s!"import of '{incoming.qualifiedName}' conflicts with '{existing.qualifiedName}'"
  | ambiguous name candidates =>
      s!"'{name}' is ambiguous between " ++
        " and ".intercalate (candidates.map (·.qualifiedName))
  | unresolvedName name => s!"unresolved identifier '{name}'"
  | unresolvedType name => s!"unresolved type '{name}'"

/-- A reason with its place and the name it is about. -/
structure Failure where
  pos : Position
  identifier : String
  reason : Reason

/-- What the names of a file are looked up in. -/
structure Environment where
  table : SymbolTable
  package : String
  /-- The names that the file declares. -/
  declared : List String
  /-- The symbols that are imported by name. -/
  imported : List Symbol
  /-- The packages that are imported as a whole, in order of import. -/
  wildcards : List String

/-- The distinct members of a list in order of their first occurrence. -/
def distinct {α : Type} [DecidableEq α] : List α → List α
  | [] => []
  | a :: as => a :: (distinct as).filter (· ≠ a)

namespace Environment

/-- Whether the file sees a symbol. -/
def sees (env : Environment) (symbol : Symbol) : Bool :=
  symbol.isPublic || symbol.package = env.package

/-- The visible symbol of a package. -/
def visible? (env : Environment) (package name : String) : Option Symbol :=
  (env.table.lookup? package name).filter env.sees

def imported? (env : Environment) (name : String) : Option Symbol :=
  env.imported.find? (·.name = name)

/-- The visible symbols of a name among the packages imported as a whole, each symbol once. -/
def wildcardMatches (env : Environment) (name : String) : List Symbol :=
  distinct (env.wildcards.filterMap (env.visible? · name))

/-- A public symbol of the top-level package, for the files of other packages. -/
def topLevel? (env : Environment) (name : String) : Option Symbol :=
  (env.table.lookup? "" name).filter fun symbol => env.package ≠ "" && symbol.isPublic

/-- The symbol that a name has in the file, outside of all functions and classes. -/
def symbol? (env : Environment) (name : String) : Except Reason (Option Symbol) :=
  match env.imported? name with
  | some symbol => .ok (some symbol)
  | none =>
      match env.wildcardMatches name with
      | [symbol] => .ok (some symbol)
      | first :: second :: rest => .error (.ambiguous name (first :: second :: rest))
      | [] =>
          match env.table.lookup? env.package name with
          | some symbol => .ok (some symbol)
          | none => .ok (env.topLevel? name)

/-- A member of the class around a context. -/
def member? (ctx : Context) (name : String) : Option Target :=
  ctx.around.bind fun c =>
    (c.member? name).map fun isStatic =>
      if isStatic then .static name c.name else .instance name c.name ctx.insideClosure

/-- What a plain name stands for, if anything. -/
def lookup (env : Environment) (ctx : Context) (name : String) : Except Reason (Option Target) :=
  if ctx.declares name then .ok (some (.here name))
  else
    match member? ctx name with
    | some target => .ok (some target)
    | none =>
        if env.declared.contains name then .ok (some (.here name))
        else (env.symbol? name).map (·.map .external)

/-- The visible symbol that the first `n` parts of a dotted name spell as a package, and the part
after them as a name in it. -/
def qualifiedAt? (env : Environment) (parts : List String) (n : Nat) : Option Symbol :=
  match parts[n]? with
  | some name => env.visible? (".".intercalate (parts.take n)) name
  | none => none

/-- The symbol of the longest qualified name at the front of a dotted name, with the number of
parts of its package, which is at most `n`. -/
def qualifiedUpTo? (env : Environment) (parts : List String) : Nat → Option (Symbol × Nat)
  | 0 => none
  | n + 1 =>
      match env.qualifiedAt? parts (n + 1) with
      | some symbol => some (symbol, n + 1)
      | none => env.qualifiedUpTo? parts n

def qualified? (env : Environment) (parts : List String) : Option (Symbol × Nat) :=
  env.qualifiedUpTo? parts (parts.length - 1)

/-- The member that a name must be inherited as, in a class with a superclass. -/
def inherited? (ctx : Context) (name : String) : Option Target :=
  match ctx.around with
  | some c => if c.inherits then some (.instance name "" ctx.insideClosure) else none
  | none => none

/-- The meaning of an identifier in an expression. -/
def identifier (env : Environment) (r : Reference) : Except Reason Binding := do
  match ← env.lookup r.context r.first with
  | some target => return ⟨target, 0⟩
  | none =>
      match env.qualified? r.parts with
      | some (symbol, n) => return ⟨.external symbol, n⟩
      | none =>
          if isBuiltin r.first then return ⟨.builtin r.first, 0⟩
          else
            match inherited? r.context r.first with
            | some target => return ⟨target, 0⟩
            | none => throw (.unresolvedName r.first)

/-- The meaning of a type name. -/
def typeName (env : Environment) (r : Reference) : Except Reason Binding := do
  match env.qualified? r.parts with
  | some (symbol, n) => return ⟨.external symbol, n + 1⟩
  | none =>
      match ← env.lookup r.context r.first with
      | some target => return ⟨target, 1⟩
      | none =>
          if isBuiltin r.first then return ⟨.builtin r.first, 1⟩
          else throw (.unresolvedType (".".intercalate r.parts))

/-- The meaning of a reference. -/
def bind (env : Environment) (r : Reference) : Except Reason Binding :=
  match r.key.kind with
  | .ident => env.identifier r
  | .create | .base => env.typeName r

/-- The name that a complaint about a reference is filed under. A dotted type is named in full
unless its first part is ambiguous. -/
def complaint (r : Reference) (reason : Reason) : Failure :=
  match reason with
  | .unresolvedType name => ⟨r.namePos, name, reason⟩
  | _ => ⟨r.namePos, r.first, reason⟩

end Environment
end Resolve
end ScriptWeave
