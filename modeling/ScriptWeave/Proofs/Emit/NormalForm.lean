import ScriptWeave.Emit.Printer
import ScriptWeave.Proofs.Script.Unplaced

/-!
The normal form of a function, which printing writes down: no types and no constants, a value for
every typed variable, blocks as the bodies of conditions and loops, arguments for every `new`, and
for each default value a leading statement that assigns it. A normal form has no places.
-/

namespace ScriptWeave
namespace Emit
namespace Normal

open Script

/-- The value with which a variable of a type starts. -/
def startValue : TypeRef → Expr
  | .named name =>
      match name.dotted with
      | "int" | "uint" => .atom (.number .start "0")
      | "Number" => .atom (.ident .start "NaN")
      | "Boolean" => .atom (.bool .start "false")
      | _ => .atom (.null .start)
  | .any _ | .void _ => .atom (.ident .start "undefined")

/-- A statement as the body of a condition or a loop: a block. -/
def wrapped : Stmt → Stmt
  | .block body => .block body
  | s => .block ⟨.start, [s]⟩

/-- A statement after `else`: a block, or a condition that continues the chain. -/
def chained : Stmt → Stmt
  | .branch pos cond yes no => .branch pos cond yes no
  | s => wrapped s

/-- A parameter by its name alone. -/
def param (p : Param) : Param := ⟨.start, p.name, none, none⟩

/-- The statement that gives a parameter its default value. -/
def assignDefault (name : String) (value : Expr) : Stmt :=
  .branch .start
    (.value (.plain ⟨⟨.start, [], ⟨.ident .start name, [], none⟩⟩,
      [⟨.start, "===", ⟨.start, [], ⟨.ident .start "undefined", [], none⟩⟩⟩]⟩))
    (.block ⟨.start, [.expr (.assign (.plain ⟨⟨.start, [], ⟨.ident .start name, [], none⟩⟩, []⟩) "="
      value)]⟩)
    none

mutual

def expr : Expr → Expr
  | .value cond => .value (conditional cond)
  | .assign target op value => .assign (conditional target) op (expr value)

def exprs : List Expr → List Expr
  | [] => []
  | e :: es => expr e :: exprs es

def exprOption : Option Expr → Option Expr
  | none => none
  | some e => some (expr e)

def conditional : Conditional → Conditional
  | .plain test => .plain (binary test)
  | .choice test yes no => .choice (binary test) (expr yes) (expr no)

def binary : Binary → Binary
  | ⟨head, tail⟩ => ⟨unary head, opTerms tail⟩

def opTerms : List OpTerm → List OpTerm
  | [] => []
  | term :: rest => opTerm term :: opTerms rest

def opTerm : OpTerm → OpTerm
  | ⟨_, op, operand⟩ => ⟨.start, op, unary operand⟩

def unary : Unary → Unary
  | ⟨_, ops, operand⟩ => ⟨.start, ops, postfixExpr operand⟩

def postfixExpr : Postfix → Postfix
  | ⟨inner, suffixes, update⟩ => ⟨primary inner, suffixParts suffixes, update⟩

def suffixParts : List Suffix → List Suffix
  | [] => []
  | part :: rest => suffixPart part :: suffixParts rest

def suffixPart : Suffix → Suffix
  | .member _ name => .member .start name
  | .index _ key => .index .start (expr key)
  | .call _ args => .call .start (exprs args)

def primary : Primary → Primary
  | .number _ text => .number .start text
  | .string _ text => .string .start text
  | .bool _ text => .bool .start text
  | .null _ => .null .start
  | .this _ => .this .start
  | .super _ => .super .start
  | .newBare _ type => .newCall .start type.unplaced []
  | .newCall _ type args => .newCall .start type.unplaced (exprs args)
  | .function _ ps _ body =>
      .function .start (ps.map param) none ⟨.start, defaults ps ++ block body⟩
  | .array _ elements => .array .start (exprs elements)
  | .object _ ps => .object .start (properties ps)
  | .ident _ name => .ident .start name
  | .paren _ inner => .paren .start (expr inner)

def property : Property → Property
  | ⟨_, key, value⟩ => ⟨.start, key, expr value⟩

def properties : List Property → List Property
  | [] => []
  | p :: ps => property p :: properties ps

/-- One statement for each parameter with a default value. -/
def defaults : List Param → List Stmt
  | [] => []
  | ⟨_, _, _, none⟩ :: rest => defaults rest
  | ⟨_, name, _, some value⟩ :: rest => assignDefault name (expr value) :: defaults rest

/-- The statements of a block. -/
def block : Block → List Stmt
  | ⟨_, body⟩ => stmts body

def stmts : List Stmt → List Stmt
  | [] => []
  | s :: ss => stmt s :: stmts ss

def stmt : Stmt → Stmt
  | .block body => .block ⟨.start, block body⟩
  | .var decl => .var (varDecl decl)
  | .returns _ value => .returns .start (exprOption value)
  | .branch _ cond yes no => .branch .start (expr cond) (wrapped (stmt yes)) (otherwise no)
  | .whileLoop _ cond body => .whileLoop .start (expr cond) (wrapped (stmt body))
  | .forLoop _ init cond post body =>
      .forLoop .start (forInitOption init) (exprOption cond) (exprOption post) (wrapped (stmt body))
  | .throws _ value => .throws .start (expr value)
  | .attempt _ body handler final =>
      .attempt .start ⟨.start, block body⟩ (catchOption handler) (blockOption final)
  | .breaks _ => .breaks .start
  | .continues _ => .continues .start
  | .empty _ => .empty .start
  | .expr value => .expr (expr value)

def otherwise : Option Stmt → Option Stmt
  | none => none
  | some s => some (chained (stmt s))

def forInitOption : Option ForInit → Option ForInit
  | none => none
  | some init => some (forInit init)

def forInit : ForInit → ForInit
  | .var decl => .var (varDecl decl)
  | .expr value => .expr (expr value)

def catchOption : Option Catch → Option Catch
  | none => none
  | some handler => some (catchClause handler)

def catchClause : Catch → Catch
  | ⟨_, name, _, body⟩ => ⟨.start, name, none, ⟨.start, block body⟩⟩

def blockOption : Option Block → Option Block
  | none => none
  | some body => some ⟨.start, block body⟩

def varDecl : VarDecl → VarDecl
  | ⟨_, _, name, none, none⟩ => ⟨.start, false, name, none, none⟩
  | ⟨_, _, name, some type, none⟩ => ⟨.start, false, name, none, some (startValue type)⟩
  | ⟨_, _, name, _, some value⟩ => ⟨.start, false, name, none, some (expr value)⟩

end

def function (f : Function) : Function :=
  ⟨.start, f.name, f.params.map param, none, ⟨.start, defaults f.params ++ block f.body⟩⟩

section

variable (pos : Position) (cond : Expr) (body : Stmt)

theorem stmt_block (body : Block) : stmt (.block body) = .block ⟨.start, block body⟩ := rfl

theorem stmt_branch (no : Option Stmt) : stmt (.branch pos cond body no) =
    .branch .start (expr cond) (wrapped (stmt body)) (otherwise no) := rfl

theorem stmt_whileLoop : stmt (.whileLoop pos cond body) =
    .whileLoop .start (expr cond) (wrapped (stmt body)) := rfl

theorem stmt_forLoop (init : Option ForInit) (cond post : Option Expr) :
    stmt (.forLoop pos init cond post body) =
      .forLoop .start (forInitOption init) (exprOption cond) (exprOption post)
        (wrapped (stmt body)) := rfl

theorem stmt_attempt (body : Block) (handler : Option Catch) (final : Option Block) :
    stmt (.attempt pos body handler final) =
      .attempt .start ⟨.start, block body⟩ (catchOption handler) (blockOption final) := rfl

end

end Normal
end Emit
end ScriptWeave
