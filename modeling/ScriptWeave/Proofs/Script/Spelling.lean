import ScriptWeave.Proofs.Script.Fuel
import ScriptWeave.Proofs.Script.Lexing
import ScriptWeave.Proofs.Script.Writing

/-!
The spelling of a tree: the texts of its tokens in reading order, written out by the shape of the
tree alone. A text that is parsed is spelled by its tree: reading loses no token, repeats none,
moves none and gives none to another construct.
-/

namespace ScriptWeave
namespace Script

namespace Spelling

def qualified (q : QualifiedName) : List String := q.first :: q.rest.flatMap fun part => [".", part]

def typeRef : TypeRef → List String
  | .any _ => ["*"]
  | .void _ => ["void"]
  | .named name => qualified name

def typeMark : Option TypeRef → List String
  | none => []
  | some type => ":" :: typeRef type

mutual

def expr : Expr → List String
  | .value cond => conditional cond
  | .assign target op value => conditional target ++ op :: expr value

def exprTail : List Expr → List String
  | [] => []
  | e :: es => "," :: expr e ++ exprTail es

def exprs : List Expr → List String
  | [] => []
  | e :: es => expr e ++ exprTail es

def exprOption : Option Expr → List String
  | none => []
  | some e => expr e

def defaultValue : Option Expr → List String
  | none => []
  | some e => "=" :: expr e

def conditional : Conditional → List String
  | .plain test => binary test
  | .choice test yes no => binary test ++ "?" :: expr yes ++ ":" :: expr no

def binary : Binary → List String
  | ⟨head, tail⟩ => unary head ++ opTerms tail

def opTerms : List OpTerm → List String
  | [] => []
  | term :: rest => opTerm term ++ opTerms rest

def opTerm : OpTerm → List String
  | ⟨_, op, operand⟩ => op :: unary operand

def unary : Unary → List String
  | ⟨_, ops, operand⟩ => ops ++ postfixExpr operand

def postfixExpr : Postfix → List String
  | ⟨inner, suffixes, update⟩ => primary inner ++ suffixParts suffixes ++ update.toList

def suffixParts : List Suffix → List String
  | [] => []
  | part :: rest => suffixPart part ++ suffixParts rest

def suffixPart : Suffix → List String
  | .member _ name => [".", name]
  | .index _ key => "[" :: expr key ++ ["]"]
  | .call _ args => "(" :: exprs args ++ [")"]

def primary : Primary → List String
  | .number _ text | .string _ text | .bool _ text | .ident _ text => [text]
  | .null _ => ["null"]
  | .this _ => ["this"]
  | .super _ => ["super"]
  | .newBare _ type => "new" :: qualified type
  | .newCall _ type args => "new" :: qualified type ++ "(" :: exprs args ++ [")"]
  | .function _ ps result body =>
      "function" :: "(" :: params ps ++ ")" :: typeMark result ++ block body
  | .array _ elements => "[" :: exprs elements ++ ["]"]
  | .object _ ps => "\x7b" :: properties ps ++ ["\x7d"]
  | .paren _ inner => "(" :: expr inner ++ [")"]

def property : Property → List String
  | ⟨_, key, value⟩ => key :: ":" :: expr value

def propertyTail : List Property → List String
  | [] => []
  | p :: ps => "," :: property p ++ propertyTail ps

def properties : List Property → List String
  | [] => []
  | p :: ps => property p ++ propertyTail ps

def param : Param → List String
  | ⟨_, name, type, value⟩ => name :: typeMark type ++ defaultValue value

def paramTail : List Param → List String
  | [] => []
  | p :: ps => "," :: param p ++ paramTail ps

def params : List Param → List String
  | [] => []
  | p :: ps => param p ++ paramTail ps

def block : Block → List String
  | ⟨_, body⟩ => "\x7b" :: stmts body ++ ["\x7d"]

def stmts : List Stmt → List String
  | [] => []
  | s :: ss => stmt s ++ stmts ss

def stmt : Stmt → List String
  | .block body => block body
  | .var decl => varDecl decl ++ [";"]
  | .returns _ value => "return" :: exprOption value ++ [";"]
  | .branch _ cond yes no => "if" :: "(" :: expr cond ++ ")" :: stmt yes ++ otherwise no
  | .whileLoop _ cond body => "while" :: "(" :: expr cond ++ ")" :: stmt body
  | .forLoop _ init cond post body =>
      "for" :: "(" :: initOption init ++ ";" :: exprOption cond ++ ";" :: exprOption post
        ++ ")" :: stmt body
  | .throws _ value => "throw" :: expr value ++ [";"]
  | .attempt _ body handler final => "try" :: block body ++ handling handler ++ finishing final
  | .breaks _ => ["break", ";"]
  | .continues _ => ["continue", ";"]
  | .empty _ => [";"]
  | .expr value => expr value ++ [";"]

def otherwise : Option Stmt → List String
  | none => []
  | some s => "else" :: stmt s

def initOption : Option ForInit → List String
  | none => []
  | some init => forInit init

def forInit : ForInit → List String
  | .var decl => varDecl decl
  | .expr value => expr value

def handling : Option Catch → List String
  | none => []
  | some handler => catchClause handler

def catchClause : Catch → List String
  | ⟨_, name, type, body⟩ => "catch" :: "(" :: name :: typeMark type ++ ")" :: block body

def finishing : Option Block → List String
  | none => []
  | some body => "finally" :: block body

def varDecl : VarDecl → List String
  | ⟨_, isConst, name, type, value⟩ =>
      (if isConst then "const" else "var") :: name :: typeMark type ++ defaultValue value

end

def function (f : Function) : List String :=
  "function" :: f.name :: "(" :: params f.params ++ ")" :: typeMark f.result ++ block f.body

def member (m : Member) : List String :=
  m.modifiers ++
    match m.body with
    | .method f => function f
    | .field v => varDecl v ++ [";"]

def extending : Option QualifiedName → List String
  | none => []
  | some base => "extends" :: qualified base

def implementing : List QualifiedName → List String
  | [] => []
  | first :: rest => "implements" :: qualified first ++ rest.flatMap fun q => "," :: qualified q

def type (c : Class) : List String :=
  "class" :: c.name :: extending c.base ++ implementing c.interfaces
    ++ "\x7b" :: c.members.flatMap member ++ ["\x7d"]

def decl (d : Decl) : List String :=
  d.modifiers ++
    match d.body with
    | .type c => type c
    | .function f => function f
    | .var v => varDecl v ++ [";"]

def importDecl (i : Import) : List String :=
  "import" :: qualified i.name ++ (if i.wildcard then [".", "*"] else []) ++ [";"]

def file (f : File) : List String :=
  "package" :: (f.package.map qualified).getD [] ++ "\x7b" :: f.imports.flatMap importDecl
    ++ f.decls.flatMap decl ++ ["\x7d"]

/-- The spelling of the node of a production. -/
def node : (p : Production) → p.Node → List String
  | .file => file
  | .qualifiedName => qualified
  | .importDecl => importDecl
  | .decl => decl
  | .classDecl => type
  | .member => member
  | .function => function
  | .param => param
  | .typeRef => typeRef
  | .expr => expr
  | .conditional => conditional
  | .binary => binary
  | .unary => unary
  | .postfixExpr => postfixExpr
  | .primary | .newExpr | .functionExpr | .arrayLiteral | .objectLiteral => primary
  | .block => block
  | .stmt | .returnStmt | .ifStmt | .whileStmt | .forStmt | .throwStmt | .tryStmt => stmt
  | .varDecl => varDecl
  | .forInit => forInit
  | .catchClause => catchClause
  | .property => property
  | .suffixPart => suffixPart
  | .opTerm => opTerm

/-- Parts that follow one another with commas between them. -/
def separated : List (List String) → List String
  | [] => []
  | part :: parts => part ++ parts.flatMap fun next => "," :: next

theorem exprs_eq (es : List Expr) : exprs es = separated (es.map expr) := by
  have htail : ∀ es, exprTail es = (es.map expr).flatMap fun next => "," :: next := by
    intro es
    induction es with
    | nil => rfl
    | cons e es ih => simp [exprTail, ih]
  cases es with
  | nil => rfl
  | cons e es => simp [exprs, separated, htail]

theorem params_eq (ps : List Param) : params ps = separated (ps.map param) := by
  have htail : ∀ ps, paramTail ps = (ps.map param).flatMap fun next => "," :: next := by
    intro ps
    induction ps with
    | nil => rfl
    | cons p ps ih => simp [paramTail, ih]
  cases ps with
  | nil => rfl
  | cons p ps => simp [params, separated, htail]

theorem properties_eq (ps : List Property) : properties ps = separated (ps.map property) := by
  have htail : ∀ ps, propertyTail ps = (ps.map property).flatMap fun next => "," :: next := by
    intro ps
    induction ps with
    | nil => rfl
    | cons p ps ih => simp [propertyTail, ih]
  cases ps with
  | nil => rfl
  | cons p ps => simp [properties, separated, htail]

theorem opTerms_eq (terms : List OpTerm) : opTerms terms = terms.flatMap opTerm := by
  induction terms with
  | nil => rfl
  | cons term rest ih => simp [opTerms, ih]

theorem suffixParts_eq (parts : List Suffix) : suffixParts parts = parts.flatMap suffixPart := by
  induction parts with
  | nil => rfl
  | cons part rest ih => simp [suffixParts, ih]

theorem stmts_eq (ss : List Stmt) : stmts ss = ss.flatMap stmt := by
  induction ss with
  | nil => rfl
  | cons s ss ih => simp [stmts, ih]

end Spelling

namespace Gram

/-- The texts that a match stands for; a node of a called production is spelled. -/
abbrev texts (g : Gram) (value : g.Value) : List String :=
  g.collect (fun t => [t.text]) Spelling.node value

/-- The texts of the tokens are the spelling of the node. -/
def Spelled : Judgement := fun p node used => used.map (·.text) = Spelling.node p node

end Gram

namespace Production

open Gram

theorem commas_spelling (p : Production) (nodes : List p.Node) :
    commas (fun text => [text]) Spelling.node p nodes =
      Spelling.separated (nodes.map (Spelling.node p)) := by
  cases nodes <;> simp [commas, Spelling.separated, List.flatMap_map]

theorem typeMark_spelling (type : Option TypeRef) :
    behind (fun text => [text]) Spelling.node ":" typeRef type = Spelling.typeMark type := by
  cases type <;> rfl

theorem defaultValue_spelling (value : Option Expr) :
    behind (fun text => [text]) Spelling.node "=" expr value = Spelling.defaultValue value := by
  cases value <;> simp [behind, Spelling.defaultValue, Spelling.node]

section

attribute [local simp] written commas_spelling typeMark_spelling defaultValue_spelling
  Spelling.node Spelling.file Spelling.qualified Spelling.importDecl Spelling.decl Spelling.type
  Spelling.extending Spelling.implementing Spelling.member Spelling.function Spelling.param
  Spelling.typeRef Spelling.expr Spelling.conditional Spelling.binary Spelling.unary
  Spelling.postfixExpr Spelling.primary Spelling.block Spelling.stmt Spelling.varDecl
  Spelling.exprOption Spelling.otherwise Spelling.initOption Spelling.forInit Spelling.handling
  Spelling.finishing Spelling.catchClause Spelling.property Spelling.suffixPart Spelling.opTerm
  Spelling.exprs_eq Spelling.params_eq Spelling.properties_eq Spelling.opTerms_eq
  Spelling.suffixParts_eq Spelling.stmts_eq

/-- A node is spelled by its words and the spellings of its parts. -/
theorem written_spelling (p : Production) (node : p.Node) (h : p.Yields node) :
    written (fun text => [text]) Spelling.node p node = Spelling.node p node := by
  cases p with
  | file =>
      obtain ⟨pos, package, imports, decls⟩ := node
      cases package <;> simp
  | qualifiedName => simp
  | importDecl => simp
  | decl =>
      obtain ⟨pos, modifiers, body⟩ := node
      cases body <;> simp
  | classDecl =>
      obtain ⟨pos, name, base, interfaces, members⟩ := node
      cases base <;> cases interfaces <;> simp [behind, commasBehind, commas]
  | member =>
      obtain ⟨pos, modifiers, body⟩ := node
      cases body <;> simp
  | function => simp
  | param =>
      cases node
      simp
  | typeRef => cases node <;> simp
  | expr => cases node <;> simp
  | conditional => cases node <;> simp
  | binary =>
      cases node
      simp
  | unary =>
      cases node
      simp
  | postfixExpr =>
      obtain ⟨inner, suffixes, update⟩ := node
      cases update <;> simp
  | primary => cases node <;> simp
  | newExpr =>
      cases node with
      | newBare | newCall => simp
      | _ => cases h
  | functionExpr =>
      cases node with
      | function => simp
      | _ => cases h
  | block =>
      cases node
      simp
  | stmt => cases node <;> simp
  | varDecl =>
      cases node
      simp
  | returnStmt =>
      cases node with
      | returns pos value =>
          cases value <;> simp
      | _ => cases h
  | ifStmt =>
      cases node with
      | branch pos cond yes no =>
          cases no <;> simp [behind]
      | _ => cases h
  | whileStmt =>
      cases node with
      | whileLoop => simp
      | _ => cases h
  | forStmt =>
      cases node with
      | forLoop pos init cond post body =>
          cases init <;> cases cond <;> cases post <;> simp
      | _ => cases h
  | forInit => cases node <;> simp
  | throwStmt =>
      cases node with
      | throws => simp
      | _ => cases h
  | tryStmt =>
      cases node with
      | attempt pos body handler final =>
          cases handler <;> cases final <;> simp [behind]
      | _ => cases h
  | catchClause =>
      cases node
      simp
  | arrayLiteral =>
      cases node with
      | array => simp
      | _ => cases h
  | objectLiteral =>
      cases node with
      | object => simp
      | _ => cases h
  | property =>
      cases node
      simp
  | suffixPart =>
      cases node <;> simp
  | opTerm =>
      cases node
      simp

end

theorem texts_body {T : Token → Prop} (p : Production) (pos : Position) {value : p.body.Value}
    (h : p.body.Each T Yields value) :
    p.body.texts value = Spelling.node p (p.build pos value) := by
  rw [texts, collect_body (fun text => [text]) Spelling.node p pos h,
    written_spelling p _ (yields_build p pos value)]

/-- What is read is a sentence of its production, and the node spells it. -/
theorem spelled_of_reads (stop : Position) (p : Production) {input rest : List Token}
    {node : p.Node} (h : reads stop p input = .matched node rest) :
    ∃ used, input = used ++ rest ∧ Spelled p node used ∧ Derives (call p) used := by
  let R : Judgement := fun p node used =>
    (Spelled p node used ∧ Derives (call p) used) ∧ p.Yields node
  have hstep : ∀ p input value rest used, p.body.read (reads stop) input = .matched value rest →
      input = used ++ rest → p.body.Fits R value used →
        R p (p.build (placeOf stop input) value) used := by
    intro p input value rest used _ _ hfits
    have htexts : p.body.texts value = used.flatMap fun t => [t.text] :=
      hfits.collect rfl (fun h h' => h ▸ h' ▸ rfl) (fun _ => rfl) fun p node used h => by
        rw [← h.1.1, List.map_eq_flatMap]
    have heach : p.body.Each (fun _ => True) Yields value :=
      Fits.each (fun _ _ _ h _ => h.2) p.body hfits fun _ _ => trivial
    refine ⟨⟨?_, .call (hfits.derives fun _ _ _ h => h.1.2)⟩, yields_build p _ value⟩
    rw [Spelled, List.map_eq_flatMap, ← htexts, texts_body p _ heach]
  obtain ⟨used, hused, hjudged, _⟩ := reads_induction stop hstep p h
  exact ⟨used, hused, hjudged⟩

end Production

/-- The tree of a parsed text spells its tokens in order, every one of them once, and the tokens are
a sentence of the grammar; together with the layout between them the tokens are the text. -/
theorem parse_spelled (text : String) (file : File) (h : parse text = .ok file) :
    ∃ all stop, Lexer.scan .start text.toList = .ok (all, stop) ∧
      all.flatMap (·.text.toList) = text.toList ∧
      Spelling.file file = (all.filter fun t => !t.kind.isLayout).map (·.text) ∧
      Gram.Derives (.call .file) (all.filter fun t => !t.kind.isLayout) := by
  obtain ⟨ts, stop, htokens, hreads⟩ := (parse_eq_ok_iff text file).1 h
  obtain ⟨all, hscan, rfl⟩ := tokens_eq_ok htokens
  obtain ⟨used, hused, hspelled, hderives⟩ := Production.spelled_of_reads stop .file hreads
  rw [List.append_nil] at hused
  subst hused
  exact ⟨all, stop, hscan, Lexer.flatMap_scan hscan, hspelled.symm, hderives⟩

/-- A wildcard import, an object literal where a block could stand, and comments. -/
def sampleText : String :=
  "package a.b \x7bimport c.*; // all\nfunction f(x = 1):int \x7b" ++
    "\x7b'k': new C /* bare */\x7d.k++;\x7d\x7d"

theorem parse_spelled_sample : ∃ file, parse sampleText = .ok file ∧
    ∃ all stop, Lexer.scan .start sampleText.toList = .ok (all, stop) ∧
      all.flatMap (·.text.toList) = sampleText.toList ∧
      Spelling.file file = (all.filter fun t => !t.kind.isLayout).map (·.text) ∧
      Gram.Derives (.call .file) (all.filter fun t => !t.kind.isLayout) := by
  have hok : (parse sampleText).isOk = true := by decide +kernel
  cases hparse : parse sampleText with
  | error e => simp [hparse, Except.isOk, Except.toBool] at hok
  | ok file => exact ⟨file, rfl, parse_spelled sampleText file hparse⟩

end Script
end ScriptWeave
