import ScriptWeave.Script.Token
import ScriptWeave.Script.Tree

/-!
The grammar as data. A production has a body built from terminals, calls, sequences, options,
repetitions and ordered alternatives; the type of what a body matches is read off the body, and
`Production.build` turns such a match into a node of the tree. The written form of the grammar comes
from the same data.
-/

namespace ScriptWeave
namespace Script

/-- A token as the grammar asks for it: with an exact text, or of a kind. -/
inductive Terminal where
  | word (text : String)
  | kind (kind : TokenKind)
deriving DecidableEq, Repr

namespace Terminal

def accepts : Terminal → Token → Bool
  | word text, token => token.text = text
  | kind k, token => token.kind = k

def render : Terminal → String
  | word text => "\"" ++ text ++ "\""
  | kind .comment => "<comment>"
  | kind .blank => "<whitespace>"
  | kind .string => "<string>"
  | kind .number => "<number>"
  | kind .keyword => "<keyword>"
  | kind .ident => "<ident>"
  | kind .operator => "<operator>"
  | kind .punctuation => "<punct>"

end Terminal

inductive Production where
  | file
  | qualifiedName
  | importDecl
  | decl
  | classDecl
  | member
  | function
  | param
  | typeRef
  | expr
  | conditional
  | binary
  | unary
  | postfixExpr
  | primary
  | newExpr
  | functionExpr
  | block
  | stmt
  | varDecl
  | returnStmt
  | ifStmt
  | whileStmt
  | forStmt
  | forInit
  | throwStmt
  | tryStmt
  | catchClause
  | arrayLiteral
  | objectLiteral
  | property
  | suffixPart
  | opTerm
deriving DecidableEq, Repr

namespace Production

/-- The productions in the order in which the grammar is written. -/
def all : List Production :=
  [.file, .qualifiedName, .importDecl, .decl, .classDecl, .member, .function, .param, .typeRef,
   .expr, .conditional, .binary, .unary, .postfixExpr, .primary, .newExpr, .functionExpr, .block,
   .stmt, .varDecl, .returnStmt, .ifStmt, .whileStmt, .forStmt, .forInit, .throwStmt, .tryStmt,
   .catchClause, .arrayLiteral, .objectLiteral, .property, .suffixPart, .opTerm]

def name : Production → String
  | file => "File"
  | qualifiedName => "QualifiedName"
  | importDecl => "Import"
  | decl => "Decl"
  | classDecl => "Class"
  | member => "Member"
  | function => "Function"
  | param => "Param"
  | typeRef => "TypeRef"
  | expr => "Expr"
  | conditional => "Conditional"
  | binary => "Binary"
  | unary => "Unary"
  | postfixExpr => "Postfix"
  | primary => "Primary"
  | newExpr => "New"
  | functionExpr => "FuncExpr"
  | block => "Block"
  | stmt => "Stmt"
  | varDecl => "VarDecl"
  | returnStmt => "Return"
  | ifStmt => "If"
  | whileStmt => "While"
  | forStmt => "For"
  | forInit => "ForInit"
  | throwStmt => "Throw"
  | tryStmt => "Try"
  | catchClause => "Catch"
  | arrayLiteral => "ArrayLit"
  | objectLiteral => "ObjectLit"
  | property => "Property"
  | suffixPart => "Suffix"
  | opTerm => "OpTerm"

/-- The type of tree node that a production yields. -/
@[reducible] def Node : Production → Type
  | file => File
  | qualifiedName => QualifiedName
  | importDecl => Import
  | decl => Decl
  | classDecl => Class
  | member => Member
  | function => Function
  | param => Param
  | typeRef => TypeRef
  | expr => Expr
  | conditional => Conditional
  | binary => Binary
  | unary => Unary
  | postfixExpr => Postfix
  | primary | newExpr | functionExpr | arrayLiteral | objectLiteral => Primary
  | block => Block
  | stmt | returnStmt | ifStmt | whileStmt | forStmt | throwStmt | tryStmt => Stmt
  | varDecl => VarDecl
  | forInit => ForInit
  | catchClause => Catch
  | property => Property
  | suffixPart => Suffix
  | opTerm => OpTerm

end Production

/-- A grammar expression. -/
inductive Gram where
  /-- One token that some of the terminals accepts. -/
  | token (options : List Terminal)
  | call (p : Production)
  | seq (first : Gram) (rest : List Gram)
  | opt (g : Gram)
  | many (g : Gram)
  | alt (branches : List Gram)

namespace Gram

mutual

/-- What a match of a grammar expression holds. -/
@[reducible] def Value : Gram → Type
  | token _ => Token
  | call p => p.Node
  | seq first rest => first.Value × ValueAll rest
  | opt g => Option g.Value
  | many g => List g.Value
  | alt branches => ValueAny branches

/-- What a match of a sequence holds: a value for every item. -/
@[reducible] def ValueAll : List Gram → Type
  | [] => Unit
  | g :: gs => g.Value × ValueAll gs

/-- What a match of alternatives holds: a value of one branch. -/
@[reducible] def ValueAny : List Gram → Type
  | [] => Empty
  | g :: gs => g.Value ⊕ ValueAny gs

end

@[reducible] def word (text : String) : Gram := token [.word text]

@[reducible] def words (texts : List String) : Gram := token (texts.map .word)

@[reducible] def kind (k : TokenKind) : Gram := token [.kind k]

@[reducible] def ident : Gram := kind .ident

/-- One or more items separated by commas, or nothing. -/
@[reducible] def commaList (p : Production) : Gram :=
  opt (seq (call p) [many (seq (word ",") [call p])])

/-- A type annotation that may be missing. -/
@[reducible] def typeMark : Gram := opt (seq (word ":") [call .typeRef])

/-- A value after an equals sign that may be missing. -/
@[reducible] def defaultValue : Gram := opt (seq (word "=") [call .expr])

@[reducible] def modifiers : Gram :=
  many (words ["public", "private", "protected", "internal", "static", "final", "override",
    "dynamic"])

end Gram

open Gram in
/-- The right-hand side of a production. -/
@[reducible] def Production.body : Production → Gram
  | file => seq (word "package")
      [opt (call qualifiedName), word "\x7b", many (call importDecl), many (call decl), word "\x7d"]
  | qualifiedName => seq ident [many (seq (word ".") [ident])]
  | importDecl => seq (word "import")
      [call qualifiedName, opt (seq (word ".") [word "*"]), word ";"]
  | decl => seq modifiers
      [alt [call classDecl, call function, seq (call varDecl) [word ";"]]]
  | classDecl => seq (word "class")
      [ident, opt (seq (word "extends") [call qualifiedName]),
       opt (seq (word "implements")
         [call qualifiedName, many (seq (word ",") [call qualifiedName])]),
       word "\x7b", many (call member), word "\x7d"]
  | member => seq modifiers [alt [call function, seq (call varDecl) [word ";"]]]
  | function => seq (word "function")
      [ident, word "(", commaList param, word ")", typeMark, call block]
  | param => seq ident [typeMark, defaultValue]
  | typeRef => alt [word "*", word "void", call qualifiedName]
  | expr => seq (call conditional)
      [opt (seq (words ["=", "+=", "-=", "*=", "/=", "%="]) [call expr])]
  | conditional => seq (call binary)
      [opt (seq (word "?") [call expr, word ":", call expr])]
  | binary => seq (call unary) [many (call opTerm)]
  | unary => seq (many (words ["!", "-", "+", "++", "--", "typeof"])) [call postfixExpr]
  | postfixExpr => seq (call primary) [many (call suffixPart), opt (words ["++", "--"])]
  | primary => alt
      [kind .number, kind .string, words ["true", "false"], word "null", word "this", word "super",
       call newExpr, call functionExpr, call arrayLiteral, call objectLiteral, ident,
       seq (word "(") [call expr, word ")"]]
  | newExpr => seq (word "new")
      [call qualifiedName, opt (seq (word "(") [commaList expr, word ")"])]
  | functionExpr => seq (word "function")
      [word "(", commaList param, word ")", typeMark, call block]
  | block => seq (word "\x7b") [many (call stmt), word "\x7d"]
  | stmt => alt
      [call block, seq (call varDecl) [word ";"], call returnStmt, call ifStmt, call whileStmt,
       call forStmt, call throwStmt, call tryStmt, seq (word "break") [word ";"],
       seq (word "continue") [word ";"], word ";", seq (call expr) [word ";"]]
  | varDecl => seq (words ["var", "const"]) [ident, typeMark, defaultValue]
  | returnStmt => seq (word "return") [opt (call expr), word ";"]
  | ifStmt => seq (word "if")
      [word "(", call expr, word ")", call stmt, opt (seq (word "else") [call stmt])]
  | whileStmt => seq (word "while") [word "(", call expr, word ")", call stmt]
  | forStmt => seq (word "for")
      [word "(", opt (call forInit), word ";", opt (call expr), word ";", opt (call expr), word ")",
       call stmt]
  | forInit => alt [call varDecl, call expr]
  | throwStmt => seq (word "throw") [call expr, word ";"]
  | tryStmt => seq (word "try")
      [call block, opt (call catchClause), opt (seq (word "finally") [call block])]
  | catchClause => seq (word "catch") [word "(", ident, typeMark, word ")", call block]
  | arrayLiteral => seq (word "[") [commaList expr, word "]"]
  | objectLiteral => seq (word "\x7b") [commaList property, word "\x7d"]
  | property => seq (token [.kind .ident, .kind .string, .kind .number]) [word ":", call expr]
  | suffixPart => alt
      [seq (word ".") [ident], seq (word "[") [call expr, word "]"],
       seq (word "(") [commaList expr, word ")"]]
  | opTerm => seq
      (words ["||", "&&", "===", "!==", "==", "!=", "<=", ">=", "<", ">", "+", "-", "*", "/", "%",
        "instanceof"])
      [call unary]

namespace Gram

/-- The items of a separated list. -/
def listItems {p : Production} : (commaList p).Value → List p.Node
  | none => []
  | some (first, rest, ()) => first :: rest.map fun (_, item, ()) => item

/-- The type of an annotation. -/
def annotated : typeMark.Value → Option TypeRef
  | none => none
  | some (_, type, ()) => some type

/-- The expression of a default value. -/
def defaulted : defaultValue.Value → Option Expr
  | none => none
  | some (_, value, ()) => some value

end Gram

open Gram in
/-- The node of a match that starts at the given place. -/
def Production.build : (p : Production) → Position → p.body.Value → p.Node
  | file => fun pos (_, package, _, imports, decls, _, ()) => ⟨pos, package, imports, decls⟩
  | qualifiedName => fun pos (first, rest, ()) =>
      ⟨pos, first.text, rest.map fun (_, part, ()) => part.text⟩
  | importDecl => fun pos (_, name, wildcard, _, ()) => ⟨pos, name, wildcard.isSome⟩
  | decl => fun pos (modifiers, body, ()) => ⟨pos, modifiers.map Token.text,
      body.elim .type <| Sum.elim .function <| Sum.elim (fun (v, _, ()) => .var v) Empty.elim⟩
  | classDecl => fun pos (_, name, base, interfaces, _, members, _, ()) =>
      ⟨pos, name.text, base.map fun (_, q, ()) => q,
       match interfaces with
       | none => []
       | some (_, first, rest, ()) => first :: rest.map fun (_, q, ()) => q,
       members⟩
  | member => fun pos (modifiers, body, ()) => ⟨pos, modifiers.map Token.text,
      body.elim .method <| Sum.elim (fun (v, _, ()) => .field v) Empty.elim⟩
  | function => fun pos (_, name, _, params, _, result, body, ()) =>
      ⟨pos, name.text, listItems params, annotated result, body⟩
  | param => fun pos (name, type, value, ()) => ⟨pos, name.text, annotated type, defaulted value⟩
  | typeRef => fun pos =>
      Sum.elim (fun _ => .any pos) <| Sum.elim (fun _ => .void pos) <| Sum.elim .named Empty.elim
  | expr => fun _ (target, assignment, ()) =>
      match assignment with
      | none => .value target
      | some (op, value, ()) => .assign target op.text value
  | conditional => fun _ (test, choice, ()) =>
      match choice with
      | none => .plain test
      | some (_, yes, _, no, ()) => .choice test yes no
  | binary => fun _ (head, tail, ()) => ⟨head, tail⟩
  | unary => fun pos (ops, operand, ()) => ⟨pos, ops.map Token.text, operand⟩
  | postfixExpr => fun _ (inner, suffixes, update, ()) =>
      ⟨inner, suffixes, update.map Token.text⟩
  | primary => fun pos =>
      Sum.elim (fun t => .number pos t.text) <| Sum.elim (fun t => .string pos t.text) <|
      Sum.elim (fun t => .bool pos t.text) <| Sum.elim (fun _ => .null pos) <|
      Sum.elim (fun _ => .this pos) <| Sum.elim (fun _ => .super pos) <|
      Sum.elim id <| Sum.elim id <| Sum.elim id <| Sum.elim id <|
      Sum.elim (fun t => .ident pos t.text) <|
      Sum.elim (fun (_, inner, _, ()) => .paren pos inner) Empty.elim
  | newExpr => fun pos (_, type, args, ()) =>
      match args with
      | none => .newBare pos type
      | some (_, args, _, ()) => .newCall pos type (listItems args)
  | functionExpr => fun pos (_, _, params, _, result, body, ()) =>
      .function pos (listItems params) (annotated result) body
  | block => fun pos (_, stmts, _, ()) => ⟨pos, stmts⟩
  | stmt => fun pos =>
      Sum.elim .block <| Sum.elim (fun (v, _, ()) => .var v) <|
      Sum.elim id <| Sum.elim id <| Sum.elim id <| Sum.elim id <| Sum.elim id <| Sum.elim id <|
      Sum.elim (fun _ => .breaks pos) <| Sum.elim (fun _ => .continues pos) <|
      Sum.elim (fun _ => .empty pos) <|
      Sum.elim (fun (value, _, ()) => .expr value) Empty.elim
  | varDecl => fun pos (keyword, name, type, value, ()) =>
      ⟨pos, keyword.text = "const", name.text, annotated type, defaulted value⟩
  | returnStmt => fun pos (_, value, _, ()) => .returns pos value
  | ifStmt => fun pos (_, _, cond, _, yes, no, ()) =>
      .branch pos cond yes (no.map fun (_, body, ()) => body)
  | whileStmt => fun pos (_, _, cond, _, body, ()) => .whileLoop pos cond body
  | forStmt => fun pos (_, _, init, _, cond, _, post, _, body, ()) =>
      .forLoop pos init cond post body
  | forInit => fun _ => Sum.elim .var <| Sum.elim .expr Empty.elim
  | throwStmt => fun pos (_, value, _, ()) => .throws pos value
  | tryStmt => fun pos (_, body, handler, final, ()) =>
      .attempt pos body handler (final.map fun (_, last, ()) => last)
  | catchClause => fun pos (_, _, name, type, _, body, ()) =>
      ⟨pos, name.text, annotated type, body⟩
  | arrayLiteral => fun pos (_, elements, _, ()) => .array pos (listItems elements)
  | objectLiteral => fun pos (_, properties, _, ()) => .object pos (listItems properties)
  | property => fun pos (key, _, value, ()) => ⟨pos, key.text, value⟩
  | suffixPart => fun pos =>
      Sum.elim (fun (_, name, ()) => .member pos name.text) <|
      Sum.elim (fun (_, key, _, ()) => .index pos key) <|
      Sum.elim (fun (_, args, _, ()) => .call pos (listItems args)) Empty.elim
  | opTerm => fun pos (op, operand, ()) => ⟨pos, op.text, operand⟩

namespace Gram

/-- Whether the written form of an expression needs parentheses inside another one. -/
def isCompound : Gram → Bool
  | token options => options.length > 1
  | seq _ _ | alt _ => true
  | call _ | opt _ | many _ => false

def grouped (compound : Bool) (text : String) : String :=
  if compound then "(" ++ text ++ ")" else text

mutual

/-- The written form of a grammar expression. -/
def render : Gram → String
  | token options => " | ".intercalate (options.map Terminal.render)
  | call p => p.name
  | seq first rest => " ".intercalate (grouped first.isCompound first.render :: renderAll rest)
  | opt g => grouped g.isCompound g.render ++ "?"
  | many g => grouped g.isCompound g.render ++ "*"
  | alt branches => " | ".intercalate (renderAll branches)

/-- The written forms of the parts of a larger expression. -/
def renderAll : List Gram → List String
  | [] => []
  | g :: gs => grouped g.isCompound g.render :: renderAll gs

end

end Gram

/-- The written grammar, one production a line. -/
def grammarText : String :=
  "\n".intercalate (Production.all.map fun p => p.name ++ " = " ++ p.body.render ++ " .")

end Script
end ScriptWeave
