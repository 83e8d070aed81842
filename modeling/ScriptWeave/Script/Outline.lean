import ScriptWeave.Script.Tree
import ScriptWeave.Text.Json

/-!
A tree as a JSON value, for tools that look at trees. Every node is an object that names its parts
and leaves out those that are missing or empty; on request it also names the place of its first
token.
-/

namespace ScriptWeave
namespace Script
namespace Outline

open Text (Json)

abbrev Fields : Type := List (String × Json)

/-- The object of a node. -/
def node (places : Bool) (pos : Position) (fields : Fields) : Json :=
  .object (if places then ("pos", .string pos.render) :: fields else fields)

def mark (name : String) : Fields := [(name, .bool true)]

def text (name value : String) : Fields := [(name, .string value)]

def optional {α : Type} (name : String) (f : α → Json) : Option α → Fields
  | none => []
  | some a => [(name, f a)]

/-- A list of parts; an empty one is left out. -/
def several (name : String) (items : List Json) : Fields :=
  if items.isEmpty then [] else [(name, .array items)]

def texts (name : String) (items : List String) : Fields := several name (items.map .string)

def qualified (places : Bool) (q : QualifiedName) : Json :=
  node places q.pos (texts "parts" q.parts)

def typeRef (places : Bool) (t : TypeRef) : Json :=
  node places t.pos <|
    match t with
    | .any _ => mark "any"
    | .void _ => mark "void"
    | .named q => [("name", qualified places q)]

def typeOption (places : Bool) (name : String) (t : Option TypeRef) : Fields :=
  optional name (typeRef places) t

mutual

def expr (places : Bool) : Expr → Json
  | .value c => node places c.pos [("cond", conditional places c)]
  | .assign c op v =>
      node places c.pos
        ([("cond", conditional places c)] ++ text "op" op ++ [("value", expr places v)])

def exprs (places : Bool) : List Expr → List Json
  | [] => []
  | e :: es => expr places e :: exprs places es

def exprOption (places : Bool) (name : String) : Option Expr → Fields
  | none => []
  | some e => [(name, expr places e)]

def conditional (places : Bool) : Conditional → Json
  | .plain b => node places b.pos [("test", binary places b)]
  | .choice b y n =>
      node places b.pos
        [("test", binary places b), ("then", expr places y), ("else", expr places n)]

def binary (places : Bool) : Binary → Json
  | ⟨head, tail⟩ =>
      node places head.pos (("head", unary places head) :: several "tail" (opTerms places tail))

def opTerms (places : Bool) : List OpTerm → List Json
  | [] => []
  | ⟨pos, op, operand⟩ :: rest =>
      node places pos (text "op" op ++ [("operand", unary places operand)]) :: opTerms places rest

def unary (places : Bool) : Unary → Json
  | ⟨pos, ops, operand⟩ => node places pos
      (texts "ops" ops ++ [("operand", postfixExpr places operand)])

def postfixExpr (places : Bool) : Postfix → Json
  | ⟨primary, suffixes, update⟩ =>
      node places primary.pos
        ([("primary", primaryExpr places primary)] ++
          several "suffixes" (suffixList places suffixes) ++ optional "update" .string update)

def suffixList (places : Bool) : List Suffix → List Json
  | [] => []
  | s :: ss => suffix places s :: suffixList places ss

def suffix (places : Bool) : Suffix → Json
  | .member pos name => node places pos (text "member" name)
  | .index pos key => node places pos [("index", expr places key)]
  | .call pos args => node places pos (mark "call" ++ several "args" (exprs places args))

def primaryExpr (places : Bool) : Primary → Json
  | .number pos t => node places pos (text "number" t)
  | .string pos t => node places pos (text "string" t)
  | .bool pos t => node places pos (text "bool" t)
  | .null pos => node places pos (mark "null")
  | .this pos => node places pos (mark "this")
  | .super pos => node places pos (mark "super")
  | .newBare pos type =>
      node places pos [("new", node places pos [("type", qualified places type)])]
  | .newCall pos type args =>
      node places pos [("new", node places pos
        ([("type", qualified places type)] ++ mark "hasArgs" ++
          several "args" (exprs places args)))]
  | .function pos ps result body =>
      node places pos [("func", node places pos
        (several "params" (params places ps) ++ typeOption places "result" result
          ++ [("body", block places body)]))]
  | .array pos elements =>
      node places pos [("array", node places pos (several "elements" (exprs places elements)))]
  | .object pos ps =>
      node places pos [("object", node places pos (several "props" (properties places ps)))]
  | .ident pos name => node places pos (text "ident" name)
  | .paren pos inner => node places pos [("paren", expr places inner)]

def properties (places : Bool) : List Property → List Json
  | [] => []
  | ⟨pos, key, value⟩ :: rest =>
      node places pos (text "key" key ++ [("value", expr places value)]) :: properties places rest

def params (places : Bool) : List Param → List Json
  | [] => []
  | ⟨pos, name, type, default⟩ :: rest =>
      node places pos (text "name" name ++ typeOption places "type" type
        ++ exprOption places "default" default) :: params places rest

def block (places : Bool) : Block → Json
  | ⟨pos, body⟩ => node places pos (several "stmts" (stmts places body))

def blockOption (places : Bool) (name : String) : Option Block → Fields
  | none => []
  | some b => [(name, block places b)]

def stmts (places : Bool) : List Stmt → List Json
  | [] => []
  | s :: ss => stmt places s :: stmts places ss

def stmtOption (places : Bool) (name : String) : Option Stmt → Fields
  | none => []
  | some s => [(name, stmt places s)]

def stmt (places : Bool) : Stmt → Json
  | .block body => node places body.pos [("block", block places body)]
  | .var decl => node places decl.pos [("var", varDecl places decl)]
  | .returns pos value =>
      node places pos [("return", node places pos (exprOption places "value" value))]
  | .branch pos cond yes no =>
      node places pos [("if", node places pos
        ([("cond", expr places cond), ("then", stmt places yes)] ++ stmtOption places "else" no))]
  | .whileLoop pos cond body =>
      node places pos [("while", node places pos
        [("cond", expr places cond), ("body", stmt places body)])]
  | .forLoop pos init cond post body =>
      node places pos [("for", node places pos
        (forInit places init ++ exprOption places "cond" cond ++ exprOption places "post" post
          ++ [("body", stmt places body)]))]
  | .throws pos value => node places pos [("throw", node places pos [("value", expr places value)])]
  | .attempt pos body handler final =>
      node places pos [("try", node places pos
        ([("body", block places body)] ++ catchOption places handler
          ++ blockOption places "finally" final))]
  | .breaks pos => node places pos (mark "break")
  | .continues pos => node places pos (mark "continue")
  | .empty pos => node places pos (mark "empty")
  | .expr value => node places value.pos [("expr", expr places value)]

def forInit (places : Bool) : Option ForInit → Fields
  | none => []
  | some (.var decl) => [("init", node places decl.pos [("var", varDecl places decl)])]
  | some (.expr value) => [("init", node places value.pos [("expr", expr places value)])]

def catchOption (places : Bool) : Option Catch → Fields
  | none => []
  | some ⟨pos, name, type, body⟩ =>
      [("catch", node places pos
        (text "name" name ++ typeOption places "type" type ++ [("body", block places body)]))]

def varDecl (places : Bool) : VarDecl → Json
  | ⟨pos, isConst, name, type, value⟩ =>
      node places pos (text "kind" (if isConst then "const" else "var") ++ text "name" name
        ++ typeOption places "type" type ++ exprOption places "value" value)

end

def function (places : Bool) (f : Function) : Json :=
  node places f.pos (text "name" f.name ++ several "params" (params places f.params)
    ++ typeOption places "result" f.result ++ [("body", block places f.body)])

def member (places : Bool) (m : Member) : Json :=
  node places m.pos (texts "modifiers" m.modifiers ++
    match m.body with
    | .method f => [("function", function places f)]
    | .field v => [("variable", varDecl places v)])

def type (places : Bool) (c : Class) : Json :=
  node places c.pos (text "name" c.name ++ optional "extends" (qualified places) c.base
    ++ several "implements" (c.interfaces.map (qualified places))
    ++ several "members" (c.members.map (member places)))

def decl (places : Bool) (d : Decl) : Json :=
  node places d.pos (texts "modifiers" d.modifiers ++
    match d.body with
    | .type c => [("class", type places c)]
    | .function f => [("function", function places f)]
    | .var v => [("variable", varDecl places v)])

def importJson (places : Bool) (i : Import) : Json :=
  node places i.pos ([("name", qualified places i.name)]
    ++ if i.wildcard then mark "wildcard" else [])

end Outline

/-- The outline of a file. -/
def File.outline (places : Bool) (f : File) : Text.Json :=
  Outline.node places f.pos (Outline.optional "package" (Outline.qualified places) f.package
    ++ Outline.several "imports" (f.imports.map (Outline.importJson places))
    ++ Outline.several "decls" (f.decls.map (Outline.decl places)))

end Script
end ScriptWeave
