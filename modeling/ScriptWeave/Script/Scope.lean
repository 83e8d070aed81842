import ScriptWeave.Script.Tree

/-!
Scopes of names. A function, named or not, makes one scope of its parameters and of every name that
its body declares outside of nested function literals, wherever the declaration stands. Around the
functions of a class lie the members of the class.
-/

namespace ScriptWeave
namespace Script

namespace Stmt

mutual

/-- The names that a statement declares in the function around it. -/
def declared : Stmt → List String
  | block body => Block.declared body
  | var decl => [decl.name]
  | branch _ _ yes no => declared yes ++ declaredOption no
  | whileLoop _ _ body => declared body
  | forLoop _ init _ _ body =>
      (match init with
        | some (.var decl) => [decl.name]
        | _ => []) ++ declared body
  | attempt _ body handler final =>
      Block.declared body ++ Catch.declaredOption handler ++ Block.declaredOption final
  | returns _ _ | throws _ _ | breaks _ | continues _ | empty _ | expr _ => []

def declaredOption : Option Stmt → List String
  | none => []
  | some stmt => declared stmt

def declaredAll : List Stmt → List String
  | [] => []
  | stmt :: stmts => declared stmt ++ declaredAll stmts

def Block.declared : Block → List String
  | ⟨_, stmts⟩ => declaredAll stmts

def Block.declaredOption : Option Block → List String
  | none => []
  | some body => Block.declared body

def Catch.declaredOption : Option Catch → List String
  | none => []
  | some ⟨_, name, _, body⟩ => name :: Block.declared body

end

end Stmt

/-- The scope of one function. -/
structure Frame where
  names : List String
  /-- Whether the function is a literal inside of another one or of a field. -/
  closure : Bool

/-- The scope of a function with the given parameters and body. -/
def Frame.ofFunction (params : List Param) (body : Block) (closure : Bool) : Frame :=
  ⟨params.map (·.name) ++ Stmt.Block.declared body, closure⟩

/-- The part of a class whose receiver nested functions reach: a method, or the fields. -/
inductive Owner where
  | method (pos : Position)
  | fields (pos : Position)
deriving DecidableEq, Repr

def Owner.pos : Owner → Position
  | method pos | fields pos => pos

/-- The class around a reference. -/
structure ClassContext where
  name : String
  /-- The members by name and whether they are static, in order of declaration. -/
  members : List (String × Bool)
  /-- Whether the class has a superclass. -/
  inherits : Bool
  owner : Owner

/-- Whether a class has a member of the name, and then whether the last one is static. -/
def ClassContext.member? (c : ClassContext) (name : String) : Option Bool :=
  (c.members.reverse.find? (·.1 = name)).map (·.2)

/-- The members that can be named without their class; functions named after the class cannot. -/
def Class.memberNames (c : Class) : List (String × Bool) :=
  c.members.filterMap fun m =>
    match m.body with
    | .method function => if function.name = c.name then none else some (m.name, m.isStatic)
    | .field _ => some (m.name, m.isStatic)

/-- Where a reference stands: the functions around it, the innermost first, and the class. -/
structure Context where
  frames : List Frame
  around : Option ClassContext

namespace Context

/-- Outside of all functions and classes. -/
def outer : Context := ⟨[], none⟩

def push (ctx : Context) (frame : Frame) : Context := { ctx with frames := frame :: ctx.frames }

/-- Whether a function literal lies between the reference and its class. -/
def insideClosure (ctx : Context) : Bool := ctx.frames.any (·.closure)

/-- Whether some function around the reference declares the name. -/
def declares (ctx : Context) (name : String) : Bool :=
  ctx.frames.any (·.names.contains name)

end Context

/-- The context of the members of a class. -/
def Class.context (c : Class) (owner : Owner) : Context :=
  ⟨[], some ⟨c.name, c.memberNames, c.base.isSome, owner⟩⟩

end Script
end ScriptWeave
