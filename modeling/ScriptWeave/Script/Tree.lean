import ScriptWeave.Script.Token

/-!
The tree of a source file. Expressions keep one type for each level of binding strength, so a tree
can only hold what the grammar accepts without parentheses. A node stores the place of its first
token unless a part of it starts there.
-/

namespace ScriptWeave
namespace Script

/-- A dotted name; it has at least one part. -/
structure QualifiedName where
  pos : Position
  first : String
  rest : List String
deriving DecidableEq, Repr

namespace QualifiedName

def parts (q : QualifiedName) : List String := q.first :: q.rest

/-- The parts joined by dots. -/
def dotted (q : QualifiedName) : String := ".".intercalate q.parts

/-- The final part. -/
def last (q : QualifiedName) : String := q.rest.getLastD q.first

/-- All parts but the final one, joined by dots. -/
def qualifier (q : QualifiedName) : String := ".".intercalate q.parts.dropLast

end QualifiedName

/-- A type annotation. It has no effect on what is emitted, apart from default values. -/
inductive TypeRef where
  | any (pos : Position)
  | void (pos : Position)
  | named (name : QualifiedName)
deriving DecidableEq, Repr

namespace TypeRef

def pos : TypeRef → Position
  | any pos | void pos => pos
  | named name => name.pos

end TypeRef

mutual

/-- A conditional expression, alone or as the target of an assignment. -/
inductive Expr where
  | value (cond : Conditional)
  | assign (target : Conditional) (op : String) (value : Expr)

inductive Conditional where
  | plain (test : Binary)
  | choice (test : Binary) (yes : Expr) (no : Expr)

/-- A chain of operands and infix operators as written, without grouping by precedence. -/
structure Binary where
  head : Unary
  tail : List OpTerm

structure OpTerm where
  pos : Position
  op : String
  operand : Unary

structure Unary where
  pos : Position
  ops : List String
  operand : Postfix

structure Postfix where
  primary : Primary
  suffixes : List Suffix
  update : Option String

inductive Suffix where
  | member (pos : Position) (name : String)
  | index (pos : Position) (key : Expr)
  | call (pos : Position) (args : List Expr)

inductive Primary where
  | number (pos : Position) (text : String)
  | string (pos : Position) (text : String)
  | bool (pos : Position) (text : String)
  | null (pos : Position)
  | this (pos : Position)
  | super (pos : Position)
  | newBare (pos : Position) (type : QualifiedName)
  | newCall (pos : Position) (type : QualifiedName) (args : List Expr)
  | function (pos : Position) (params : List Param) (result : Option TypeRef) (body : Block)
  | array (pos : Position) (elements : List Expr)
  | object (pos : Position) (properties : List Property)
  | ident (pos : Position) (name : String)
  | paren (pos : Position) (inner : Expr)

/-- A key as spelled, a name, a string or a number, with its value. -/
structure Property where
  pos : Position
  key : String
  value : Expr

structure Param where
  pos : Position
  name : String
  type : Option TypeRef
  default : Option Expr

structure Block where
  pos : Position
  stmts : List Stmt

inductive Stmt where
  | block (body : Block)
  | var (decl : VarDecl)
  | returns (pos : Position) (value : Option Expr)
  | branch (pos : Position) (cond : Expr) (yes : Stmt) (no : Option Stmt)
  | whileLoop (pos : Position) (cond : Expr) (body : Stmt)
  | forLoop (pos : Position) (init : Option ForInit) (cond : Option Expr) (post : Option Expr)
      (body : Stmt)
  | throws (pos : Position) (value : Expr)
  | attempt (pos : Position) (body : Block) (handler : Option Catch) (final : Option Block)
  | breaks (pos : Position)
  | continues (pos : Position)
  | empty (pos : Position)
  | expr (value : Expr)

inductive ForInit where
  | var (decl : VarDecl)
  | expr (value : Expr)

structure Catch where
  pos : Position
  name : String
  type : Option TypeRef
  body : Block

/-- A variable or constant, without the terminator. -/
structure VarDecl where
  pos : Position
  isConst : Bool
  name : String
  type : Option TypeRef
  value : Option Expr

end

namespace Primary

def pos : Primary → Position
  | number pos _ | string pos _ | bool pos _ | null pos | this pos | super pos
  | newBare pos _ | newCall pos _ _ | function pos _ _ _ | array pos _ | object pos _
  | ident pos _ | paren pos _ => pos

end Primary

namespace Suffix

def pos : Suffix → Position
  | member pos _ | index pos _ | call pos _ => pos

end Suffix

namespace Postfix

def pos (p : Postfix) : Position := p.primary.pos

/-- The names of the member suffixes that directly follow the primary. -/
def memberChain (p : Postfix) : List String :=
  chain p.suffixes
where
  chain : List Suffix → List String
    | .member _ name :: rest => name :: chain rest
    | _ => []

end Postfix

namespace Binary

def pos (b : Binary) : Position := b.head.pos

end Binary

namespace Conditional

def pos : Conditional → Position
  | plain test | choice test _ _ => test.pos

end Conditional

namespace Expr

def pos : Expr → Position
  | value cond | assign cond _ _ => cond.pos

end Expr

namespace ForInit

def pos : ForInit → Position
  | var decl => decl.pos
  | expr value => value.pos

end ForInit

namespace Stmt

def pos : Stmt → Position
  | block body => body.pos
  | var decl => decl.pos
  | returns pos _ | branch pos _ _ _ | whileLoop pos _ _ | forLoop pos _ _ _ _ | throws pos _
  | attempt pos _ _ _ | breaks pos | continues pos | empty pos => pos
  | expr value => value.pos

end Stmt

/-- A named function or method. -/
structure Function where
  pos : Position
  name : String
  params : List Param
  result : Option TypeRef
  body : Block

inductive MemberBody where
  | method (function : Function)
  | field (decl : VarDecl)

structure Member where
  pos : Position
  modifiers : List String
  body : MemberBody

namespace Member

def name (m : Member) : String :=
  match m.body with
  | .method function => function.name
  | .field decl => decl.name

/-- Whether the member belongs to the class rather than to its instances. -/
def isStatic (m : Member) : Bool := m.modifiers.contains "static"

end Member

structure Class where
  pos : Position
  name : String
  base : Option QualifiedName
  interfaces : List QualifiedName
  members : List Member

namespace Class

/-- The first method that is named after the class and is not static. -/
def constructor? (c : Class) : Option Function :=
  c.members.findSome? fun m =>
    match m.body with
    | .method function =>
        if function.name = c.name ∧ m.isStatic = false then some function else none
    | .field _ => none

end Class

inductive DeclBody where
  | type (decl : Class)
  | function (decl : Function)
  | var (decl : VarDecl)

/-- A declaration of the package block. -/
structure Decl where
  pos : Position
  modifiers : List String
  body : DeclBody

namespace Decl

def name (d : Decl) : String :=
  match d.body with
  | .type decl => decl.name
  | .function decl => decl.name
  | .var decl => decl.name

def isPublic (d : Decl) : Bool := d.modifiers.contains "public"

end Decl

/-- An import of one name, or of all names of a package. -/
structure Import where
  pos : Position
  name : QualifiedName
  wildcard : Bool

/-- One source file: a package block with imports and declarations. -/
structure File where
  pos : Position
  package : Option QualifiedName
  imports : List Import
  decls : List Decl

namespace File

/-- The dotted package name, empty for the top-level package. -/
def packageName (f : File) : String := (f.package.map (·.dotted)).getD ""

end File
end Script
end ScriptWeave
