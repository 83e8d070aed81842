import ScriptWeave.Module.SymbolTable
import ScriptWeave.Resolve.Module

/-!
Printing a resolved file for the target runtime. Type annotations vanish, constants become
variables, default values of parameters become leading statements, and a class becomes a constructor
function inside of a function that receives the superclass. Names are printed as their bindings say.

Emitted text comes in pieces. A word is one lexeme of the target language, a blank is layout, and a
symbol of another module stays open until the module that it is emitted into is known.
-/

namespace ScriptWeave
namespace Emit

inductive Piece where
  | word (text : String)
  | blank (text : String)
  | external (symbol : Symbol)
deriving DecidableEq, Repr

namespace Piece

def space : Piece := blank " "

def newline : Piece := blank "\n"

/-- The blanks that begin a line at a depth of nesting. -/
def indent (depth : Nat) : Piece := blank (String.ofList (List.replicate (4 * depth) ' '))

/-- The text of a piece, where `link` spells the symbols of other modules. -/
def render (link : Symbol → String) : Piece → String
  | word text => text
  | blank text => text
  | external symbol => link symbol

/-- The symbol that a piece leaves open. -/
def symbol? : Piece → Option Symbol
  | external symbol => some symbol
  | _ => none

/-- Words from their texts. -/
def words (texts : List String) : List Piece := texts.map word

/-- A line of its own. -/
def line (depth : Nat) (pieces : List Piece) : List Piece :=
  indent depth :: (pieces ++ [newline])

/-- The parts with a comma and a space between them. -/
def commas : List (List Piece) → List Piece
  | [] => []
  | [part] => part
  | part :: parts => part ++ [word ",", space] ++ commas parts

/-- The text of a list of pieces. -/
def renderAll (link : Symbol → String) (pieces : List Piece) : String :=
  String.join (pieces.map (render link))

/-- The symbols of other modules that a list of pieces refers to. -/
def symbols (pieces : List Piece) : List Symbol := pieces.filterMap symbol?

end Piece

open Script
open Piece (space newline indent line commas words)
open Resolve (Binding Target)

/-- What printing asks about a file: the meaning of references, and which methods and field
sections hand their receiver to nested functions. -/
structure Meaning where
  binding? : ReferenceKey → Option Binding
  captures : Owner → Bool

def Meaning.ofModule (m : Resolve.Module) : Meaning where
  binding? := m.binding?
  captures owner := m.captures.contains owner

/-- Words with dots between them. -/
def dotted : List String → List Piece
  | [] => []
  | [part] => [.word part]
  | part :: parts => .word part :: .word "." :: dotted parts

/-- The spelling of what a name stands for. -/
def target : Target → List Piece
  | .here name | .builtin name => [.word name]
  | .instance name _ captured => dotted [if captured then "_this" else "this", name]
  | .static name type => dotted [type, name]
  | .external symbol => [.external symbol]

/-- The spelling of a type name, with the parts that its binding does not take up. -/
def typeName (meaning : Meaning) (key : ReferenceKey) (q : QualifiedName) : List Piece :=
  match meaning.binding? key with
  | none => dotted q.parts
  | some b =>
      match q.parts.drop b.consume with
      | [] => target b.target
      | rest => target b.target ++ .word "." :: dotted rest

/-- The value with which a variable without initialiser starts. -/
def startValue : Option TypeRef → List Piece
  | some (.named name) =>
      match name.dotted with
      | "int" | "uint" => [.word "0"]
      | "Number" => [.word "NaN"]
      | "Boolean" => [.word "false"]
      | _ => [.word "null"]
  | _ => [.word "undefined"]

/-- Operators before an operand; a space follows each but the last, and always a word. -/
def unaryOps : List String → List Piece
  | [] => []
  | [op] => if op = "typeof" then [.word op, space] else [.word op]
  | op :: ops => .word op :: space :: unaryOps ops

/-- The names of parameters between parentheses. -/
def paramList (params : List Param) : List Piece :=
  [.word "("] ++ commas (params.map fun p => [.word p.name]) ++ [.word ")"]

mutual

def expr (m : Meaning) (d : Nat) : Expr → List Piece
  | .value cond => conditional m d cond
  | .assign lhs op value =>
      conditional m d lhs ++ [space, .word op, space] ++ expr m d value

/-- The expressions with a comma and a space before each. -/
def exprTail (m : Meaning) (d : Nat) : List Expr → List Piece
  | [] => []
  | e :: es => [.word ",", space] ++ expr m d e ++ exprTail m d es

/-- The expressions with a comma and a space between them. -/
def exprs (m : Meaning) (d : Nat) : List Expr → List Piece
  | [] => []
  | e :: es => expr m d e ++ exprTail m d es

def exprOption (m : Meaning) (d : Nat) : Option Expr → List Piece
  | none => []
  | some e => expr m d e

def conditional (m : Meaning) (d : Nat) : Conditional → List Piece
  | .plain test => binary m d test
  | .choice test yes no =>
      binary m d test ++ [space, .word "?", space] ++ expr m d yes
        ++ [space, .word ":", space] ++ expr m d no

def binary (m : Meaning) (d : Nat) : Binary → List Piece
  | ⟨head, tail⟩ => unary m d head ++ opTerms m d tail

def opTerms (m : Meaning) (d : Nat) : List OpTerm → List Piece
  | [] => []
  | ⟨_, op, operand⟩ :: rest =>
      [space, .word op, space] ++ unary m d operand ++ opTerms m d rest

def unary (m : Meaning) (d : Nat) : Unary → List Piece
  | ⟨_, ops, operand⟩ => unaryOps ops ++ postfixExpr m d operand

def postfixExpr (m : Meaning) (d : Nat) : Postfix → List Piece
  | ⟨.super _, suffixes, update⟩ => superExpr m d suffixes ++ (update.toList.map .word)
  | ⟨.ident pos name, suffixes, update⟩ =>
      (match m.binding? ⟨.ident, pos⟩ with
        | none => [.word name] ++ suffixParts m d 0 suffixes
        | some b => target b.target ++ suffixParts m d b.consume suffixes)
        ++ (update.toList.map .word)
  | ⟨primary, suffixes, update⟩ =>
      primaryExpr m d primary ++ suffixParts m d 0 suffixes ++ (update.toList.map .word)

/-- A call of `super` is a call of the superclass on the receiver, and a member of it is a member
of the prototype of the superclass. -/
def superExpr (m : Meaning) (d : Nat) : List Suffix → List Piece
  | .call _ args :: rest =>
      words ["_super", ".", "call", "(", "this"] ++ exprTail m d args ++ [.word ")"]
        ++ suffixParts m d 0 rest
  | .member _ name :: .call _ args :: rest =>
      words ["_super", ".", "prototype", ".", name, ".", "call", "(", "this"]
        ++ exprTail m d args ++ [.word ")"] ++ suffixParts m d 0 rest
  | .member _ name :: rest =>
      words ["_super", ".", "prototype", ".", name] ++ suffixParts m d 0 rest
  | .index _ key :: rest =>
      words ["_super", "["] ++ expr m d key ++ [.word "]"] ++ suffixParts m d 0 rest
  | [] => [.word "_super"]

/-- The suffixes after the first `n`. -/
def suffixParts (m : Meaning) (d : Nat) : Nat → List Suffix → List Piece
  | _, [] => []
  | n + 1, _ :: rest => suffixParts m d n rest
  | 0, .member _ name :: rest => [.word ".", .word name] ++ suffixParts m d 0 rest
  | 0, .index _ key :: rest =>
      [.word "["] ++ expr m d key ++ [.word "]"] ++ suffixParts m d 0 rest
  | 0, .call _ args :: rest =>
      [.word "("] ++ exprs m d args ++ [.word ")"] ++ suffixParts m d 0 rest

def primaryExpr (m : Meaning) (d : Nat) : Primary → List Piece
  | .number _ text | .string _ text | .bool _ text => [.word text]
  | .null _ => [.word "null"]
  | .this _ => [.word "this"]
  | .super _ => []
  | .ident _ name => [.word name]
  | .newBare pos type =>
      [.word "new", space] ++ typeName m ⟨.create, pos⟩ type ++ words ["(", ")"]
  | .newCall pos type args =>
      [.word "new", space] ++ typeName m ⟨.create, pos⟩ type ++ [.word "("] ++ exprs m d args
        ++ [.word ")"]
  | .function _ params _ body =>
      [.word "function", space] ++ paramList params ++ [space, .word "\x7b", newline]
        ++ defaults m (d + 1) params ++ block m d body ++ [indent d, .word "\x7d"]
  | .array _ elements => [.word "["] ++ exprs m d elements ++ [.word "]"]
  | .object _ [] => words ["\x7b", "\x7d"]
  | .object _ (p :: ps) =>
      [.word "\x7b", space] ++ property m d p ++ propertyTail m d ps ++ [space, .word "\x7d"]
  | .paren _ inner => [.word "("] ++ expr m d inner ++ [.word ")"]

def property (m : Meaning) (d : Nat) : Property → List Piece
  | ⟨_, key, value⟩ => [.word key, .word ":", space] ++ expr m d value

def propertyTail (m : Meaning) (d : Nat) : List Property → List Piece
  | [] => []
  | p :: ps => [.word ",", space] ++ property m d p ++ propertyTail m d ps

/-- One statement for each parameter with a default value. -/
def defaults (m : Meaning) (d : Nat) : List Param → List Piece
  | [] => []
  | ⟨_, _, _, none⟩ :: rest => defaults m d rest
  | ⟨_, name, _, some value⟩ :: rest =>
      line d [.word "if", space, .word "(", .word name, space, .word "===", space,
          .word "undefined", .word ")", space, .word "\x7b"]
        ++ line (d + 1)
          ([.word name, space, .word "=", space] ++ expr m (d + 1) value ++ [.word ";"])
        ++ line d [.word "\x7d"] ++ defaults m d rest

/-- The statements of a block, one level deeper. -/
def block (m : Meaning) (d : Nat) : Block → List Piece
  | ⟨_, body⟩ => stmts m (d + 1) body

def stmts (m : Meaning) (d : Nat) : List Stmt → List Piece
  | [] => []
  | s :: ss => stmt m false d s ++ stmts m d ss

/-- A statement; inside of braces that are already printed a block loses its own, and any other
statement stands one level deeper. -/
def stmt (m : Meaning) (braced : Bool) (d : Nat) : Stmt → List Piece
  | .block body =>
      if braced then block m d body
      else line d [.word "\x7b"] ++ block m d body ++ line d [.word "\x7d"]
  | .var decl =>
      let d := if braced then d + 1 else d
      line d (varDecl m d decl ++ [.word ";"])
  | .returns _ value =>
      let d := if braced then d + 1 else d
      match value with
      | none => line d (words ["return", ";"])
      | some e => line d ([.word "return", space] ++ expr m d e ++ [.word ";"])
  | .branch _ cond yes no =>
      let d := if braced then d + 1 else d
      line d ([.word "if", space, .word "("] ++ expr m d cond ++ [.word ")", space, .word "\x7b"])
        ++ stmt m true d yes ++ otherwise m d no
  | .whileLoop _ cond body =>
      let d := if braced then d + 1 else d
      line d ([.word "while", space, .word "("] ++ expr m d cond
          ++ [.word ")", space, .word "\x7b"])
        ++ stmt m true d body ++ line d [.word "\x7d"]
  | .forLoop _ init cond post body =>
      let d := if braced then d + 1 else d
      line d ([.word "for", space, .word "("] ++ forInit m d init ++ [.word ";", space]
          ++ exprOption m d cond ++ [.word ";", space] ++ exprOption m d post
          ++ [.word ")", space, .word "\x7b"])
        ++ stmt m true d body ++ line d [.word "\x7d"]
  | .throws _ value =>
      let d := if braced then d + 1 else d
      line d ([.word "throw", space] ++ expr m d value ++ [.word ";"])
  | .attempt _ body handler final =>
      let d := if braced then d + 1 else d
      line d [.word "try", space, .word "\x7b"] ++ block m d body ++ catchOption m d handler
        ++ finallyOption m d final ++ line d [.word "\x7d"]
  | .breaks _ => line (if braced then d + 1 else d) (words ["break", ";"])
  | .continues _ => line (if braced then d + 1 else d) (words ["continue", ";"])
  | .empty _ => line (if braced then d + 1 else d) [.word ";"]
  | .expr value =>
      let d := if braced then d + 1 else d
      line d (expr m d value ++ [.word ";"])

/-- What follows the first branch of a condition; a condition there continues the chain. -/
def otherwise (m : Meaning) (d : Nat) : Option Stmt → List Piece
  | none => line d [.word "\x7d"]
  | some (.branch _ cond yes no) =>
      line d ([.word "\x7d", space, .word "else", space, .word "if", space, .word "("]
          ++ expr m d cond ++ [.word ")", space, .word "\x7b"])
        ++ stmt m true d yes ++ otherwise m d no
  | some s =>
      line d [.word "\x7d", space, .word "else", space, .word "\x7b"]
        ++ stmt m true d s ++ line d [.word "\x7d"]

def forInit (m : Meaning) (d : Nat) : Option ForInit → List Piece
  | none => []
  | some (.var decl) => varDecl m d decl
  | some (.expr value) => expr m d value

def catchOption (m : Meaning) (d : Nat) : Option Catch → List Piece
  | none => []
  | some ⟨_, name, _, body⟩ =>
      line d [.word "\x7d", space, .word "catch", space, .word "(", .word name, .word ")", space,
          .word "\x7b"]
        ++ block m d body

def finallyOption (m : Meaning) (d : Nat) : Option Block → List Piece
  | none => []
  | some body =>
      line d [.word "\x7d", space, .word "finally", space, .word "\x7b"] ++ block m d body

/-- A declaration without its terminator. -/
def varDecl (m : Meaning) (d : Nat) : VarDecl → List Piece
  | ⟨_, _, name, none, none⟩ => [.word "var", space, .word name]
  | ⟨_, _, name, some type, none⟩ =>
      [.word "var", space, .word name, space, .word "=", space] ++ startValue (some type)
  | ⟨_, _, name, _, some value⟩ =>
      [.word "var", space, .word name, space, .word "=", space] ++ expr m d value

end

/-- The value that a variable gets. -/
def initialiser (m : Meaning) (d : Nat) (v : VarDecl) : List Piece :=
  match v.value with
  | some value => expr m d value
  | none => startValue v.type

/-- A function with the given header, ending and leading statements. -/
def function (m : Meaning) (d : Nat) (header : List Piece) (params : List Param) (body : Block)
    (ending prologue : List Piece) : List Piece :=
  line d (header ++ paramList params ++ [space, .word "\x7b"])
    ++ prologue ++ defaults m (d + 1) params ++ block m d body
    ++ line d (.word "\x7d" :: ending)

/-- Saves the receiver for nested functions. -/
def saveReceiver (d : Nat) (needed : Bool) : List Piece :=
  if needed then
    line d [.word "var", space, .word "_this", space, .word "=", space, .word "this", .word ";"]
  else []

/-- The fields of an instance, each assigned its first value. -/
def instanceFields (m : Meaning) (d : Nat) (c : Script.Class) : List Piece :=
  c.members.flatMap fun member =>
    match member.body with
    | .field v =>
        if member.isStatic then []
        else line d (dotted ["this", v.name] ++ [space, .word "=", space] ++ initialiser m d v
          ++ [.word ";"])
    | .method _ => []

def staticFields (m : Meaning) (d : Nat) (c : Script.Class) : List Piece :=
  c.members.flatMap fun member =>
    match member.body with
    | .field v =>
        if member.isStatic then
          line d (dotted [c.name, v.name] ++ [space, .word "=", space] ++ initialiser m d v
            ++ [.word ";"])
        else []
    | .method _ => []

/-- The constructor function; without a declared one it passes its arguments on. -/
def constructor (m : Meaning) (d : Nat) (c : Script.Class) : List Piece :=
  let header := [Piece.word "function", space, .word c.name]
  match c.constructor? with
  | some ctor =>
      function m d header ctor.params ctor.body []
        (saveReceiver (d + 1) (m.captures (.method ctor.pos) || m.captures (.fields c.pos))
          ++ instanceFields m (d + 1) c)
  | none =>
      line d (header ++ [.word "(", .word ")", space, .word "\x7b"])
        ++ saveReceiver (d + 1) (m.captures (.fields c.pos))
        ++ instanceFields m (d + 1) c
        ++ (if c.base.isSome then
              line (d + 1) (words ["_super", ".", "apply", "(", "this", ","] ++ [space]
                ++ words ["arguments", ")", ";"])
            else [])
        ++ line d [.word "\x7d"]

/-- The link of the prototype to that of the superclass. -/
def inheritance (d : Nat) (c : Script.Class) : List Piece :=
  if c.base.isSome then
    line d (dotted [c.name, "prototype"] ++ [space, .word "=", space]
        ++ words ["Object", ".", "create", "(", "_super", ".", "prototype", ")", ";"])
      ++ line d (dotted [c.name, "prototype", "constructor"] ++ [space, .word "=", space,
        .word c.name, .word ";"])
  else []

/-- All methods but the constructor. -/
def methods (m : Meaning) (d : Nat) (c : Script.Class) : List Piece :=
  c.members.flatMap fun member =>
    match member.body with
    | .method f =>
        if (c.constructor?.map (·.pos)) = some f.pos then []
        else
          let path := if member.isStatic then [c.name, f.name] else [c.name, "prototype", f.name]
          function m d
            (dotted path ++ [space, .word "=", space, .word "function", space]) f.params f.body
            [.word ";"] (saveReceiver (d + 1) (m.captures (.method f.pos)))
    | .field _ => []

def type (m : Meaning) (d : Nat) (c : Script.Class) : List Piece :=
  let base :=
    match c.base with
    | none => [Piece.word "Object"]
    | some q => typeName m ⟨.base, q.pos⟩ q
  line d ([.word "var", space, .word c.name, space, .word "=", space]
      ++ words ["(", "function"] ++ [space] ++ words ["(", "_super", ")"]
      ++ [space, .word "\x7b"])
    ++ constructor m (d + 1) c ++ inheritance (d + 1) c ++ methods m (d + 1) c
    ++ staticFields m (d + 1) c
    ++ line (d + 1) [.word "return", space, .word c.name, .word ";"]
    ++ line d (words ["\x7d", ")", "("] ++ base ++ words [")", ";"])

def decl (m : Meaning) (d : Nat) (x : Decl) : List Piece :=
  match x.body with
  | .type c => type m d c
  | .function f => function m d [.word "function", space, .word f.name] f.params f.body [] []
  | .var v => line d (varDecl m d v ++ [.word ";"])

/-- All declarations of a file at a depth of nesting. -/
def file (m : Meaning) (d : Nat) (f : File) : List Piece := f.decls.flatMap (decl m d)

end Emit
end ScriptWeave
