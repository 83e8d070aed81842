import ScriptWeave.Script.Scope

/-!
All references of a source file in reading order, each with the context that decides what it means.
-/

namespace ScriptWeave
namespace Script

/-- What refers to a name: an expression, the target of `new`, or a superclass. -/
inductive ReferenceKind where
  | ident
  | create
  | base
deriving DecidableEq, Repr

/-- The place that a reference is known by. -/
structure ReferenceKey where
  kind : ReferenceKind
  pos : Position
deriving DecidableEq, Repr

/-- A reference with its dotted parts; those after the first are members that directly follow. -/
structure Reference where
  key : ReferenceKey
  /-- The place that a complaint about the reference names. -/
  namePos : Position
  first : String
  rest : List String
  context : Context

def Reference.parts (r : Reference) : List String := r.first :: r.rest

/-- The reference of a qualified type name. -/
def Reference.ofType (kind : ReferenceKind) (pos : Position) (q : QualifiedName) (ctx : Context) :
    Reference :=
  ⟨⟨kind, pos⟩, q.pos, q.first, q.rest, ctx⟩

namespace References

mutual

def expr (ctx : Context) : Expr → List Reference
  | .value cond => conditional ctx cond
  | .assign target _ value => conditional ctx target ++ expr ctx value

def exprs (ctx : Context) : List Expr → List Reference
  | [] => []
  | e :: es => expr ctx e ++ exprs ctx es

def exprOption (ctx : Context) : Option Expr → List Reference
  | none => []
  | some e => expr ctx e

def conditional (ctx : Context) : Conditional → List Reference
  | .plain test => binary ctx test
  | .choice test yes no => binary ctx test ++ expr ctx yes ++ expr ctx no

def binary (ctx : Context) : Binary → List Reference
  | ⟨head, tail⟩ => unary ctx head ++ opTerms ctx tail

def opTerms (ctx : Context) : List OpTerm → List Reference
  | [] => []
  | ⟨_, _, operand⟩ :: rest => unary ctx operand ++ opTerms ctx rest

def unary (ctx : Context) : Unary → List Reference
  | ⟨_, _, operand⟩ => postfixExpr ctx operand

def postfixExpr (ctx : Context) : Postfix → List Reference
  | ⟨primary, suffixes, _⟩ =>
      primaryExpr ctx (Postfix.memberChain.chain suffixes) primary ++ suffixParts ctx suffixes

def suffixParts (ctx : Context) : List Suffix → List Reference
  | [] => []
  | .member _ _ :: rest => suffixParts ctx rest
  | .index _ key :: rest => expr ctx key ++ suffixParts ctx rest
  | .call _ args :: rest => exprs ctx args ++ suffixParts ctx rest

/-- The members that follow an identifier belong to its reference. -/
def primaryExpr (ctx : Context) (chain : List String) : Primary → List Reference
  | .ident pos name => [⟨⟨.ident, pos⟩, pos, name, chain, ctx⟩]
  | .newBare pos type => [.ofType .create pos type ctx]
  | .newCall pos type args => .ofType .create pos type ctx :: exprs ctx args
  | .function _ ps _ body =>
      let inner := ctx.push (.ofFunction ps body true)
      params inner ps ++ block inner body
  | .array _ elements => exprs ctx elements
  | .object _ ps => properties ctx ps
  | .paren _ inner => expr ctx inner
  | .number _ _ | .string _ _ | .bool _ _ | .null _ | .this _ | .super _ => []

def properties (ctx : Context) : List Property → List Reference
  | [] => []
  | ⟨_, _, value⟩ :: rest => expr ctx value ++ properties ctx rest

/-- Default values see all parameters and names of the function. -/
def params (ctx : Context) : List Param → List Reference
  | [] => []
  | ⟨_, _, _, value⟩ :: rest => exprOption ctx value ++ params ctx rest

def block (ctx : Context) : Block → List Reference
  | ⟨_, body⟩ => stmts ctx body

def blockOption (ctx : Context) : Option Block → List Reference
  | none => []
  | some body => block ctx body

def stmts (ctx : Context) : List Stmt → List Reference
  | [] => []
  | s :: ss => stmt ctx s ++ stmts ctx ss

def stmtOption (ctx : Context) : Option Stmt → List Reference
  | none => []
  | some s => stmt ctx s

def stmt (ctx : Context) : Stmt → List Reference
  | .block body => block ctx body
  | .var decl => varDecl ctx decl
  | .returns _ value => exprOption ctx value
  | .branch _ cond yes no => expr ctx cond ++ stmt ctx yes ++ stmtOption ctx no
  | .whileLoop _ cond body => expr ctx cond ++ stmt ctx body
  | .forLoop _ init cond post body =>
      forInit ctx init ++ exprOption ctx cond ++ exprOption ctx post ++ stmt ctx body
  | .throws _ value => expr ctx value
  | .attempt _ body handler final =>
      block ctx body ++ catchOption ctx handler ++ blockOption ctx final
  | .expr value => expr ctx value
  | .breaks _ | .continues _ | .empty _ => []

def forInit (ctx : Context) : Option ForInit → List Reference
  | none => []
  | some (.var decl) => varDecl ctx decl
  | some (.expr value) => expr ctx value

def catchOption (ctx : Context) : Option Catch → List Reference
  | none => []
  | some ⟨_, _, _, body⟩ => block ctx body

def varDecl (ctx : Context) : VarDecl → List Reference
  | ⟨_, _, _, _, value⟩ => exprOption ctx value

end

/-- The references of a function in the given surroundings. -/
def function (ctx : Context) (f : Function) : List Reference :=
  let inner := ctx.push (.ofFunction f.params f.body false)
  params inner f.params ++ block inner f.body

def member (c : Class) (m : Member) : List Reference :=
  match m.body with
  | .method f => function (c.context (.method f.pos)) f
  | .field decl => varDecl (c.context (.fields c.pos)) decl

def type (c : Class) : List Reference :=
  (match c.base with
    | none => []
    | some base => [.ofType .base base.pos base .outer]) ++ c.members.flatMap (member c)

def decl (d : Decl) : List Reference :=
  match d.body with
  | .type c => type c
  | .function f => function .outer f
  | .var v => varDecl .outer v

end References

/-- The references of a file. -/
def File.references (f : File) : List Reference := f.decls.flatMap References.decl

end Script
end ScriptWeave
