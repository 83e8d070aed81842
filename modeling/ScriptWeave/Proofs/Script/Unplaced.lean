import ScriptWeave.Proofs.Script.Fuel

/-!
Trees without places. Reading looks at the kinds and texts of tokens alone; their places are only
handed on to the nodes. So tokens that differ in their places are read alike, and the trees differ
in their places alone.

Layout. What a parse depends on are the kinds and the spellings of the tokens. Blanks and comments
only move the tokens to other places, and the places go into the tree and nowhere else: a branch is
given up or decides by the tokens it has read, whatever stands between them.
-/

namespace ScriptWeave
namespace Script

def Token.unplaced (t : Token) : Token := { t with pos := .start }

def QualifiedName.unplaced (q : QualifiedName) : QualifiedName := { q with pos := .start }

def TypeRef.unplaced : TypeRef → TypeRef
  | any _ => any .start
  | void _ => void .start
  | named name => named name.unplaced

/-- A primary alone as an expression. -/
def Expr.atom (p : Primary) : Expr := .value (.plain ⟨⟨.start, [], ⟨p, [], none⟩⟩, []⟩)

namespace Unplaced

mutual

def expr : Expr → Expr
  | .value cond => .value (conditional cond)
  | .assign target op value => .assign (conditional target) op (expr value)

def exprs : List Expr → List Expr
  | [] => []
  | e :: es => expr e :: exprs es

def exprOption : Option Expr → Option Expr
  | none => none
  | some e => some (expr e)

def conditional : Conditional → Conditional
  | .plain test => .plain (binary test)
  | .choice test yes no => .choice (binary test) (expr yes) (expr no)

def binary : Binary → Binary
  | ⟨head, tail⟩ => ⟨unary head, opTerms tail⟩

def opTerms : List OpTerm → List OpTerm
  | [] => []
  | term :: rest => opTerm term :: opTerms rest

def opTerm : OpTerm → OpTerm
  | ⟨_, op, operand⟩ => ⟨.start, op, unary operand⟩

def unary : Unary → Unary
  | ⟨_, ops, operand⟩ => ⟨.start, ops, postfixExpr operand⟩

def postfixExpr : Postfix → Postfix
  | ⟨inner, suffixes, update⟩ => ⟨primary inner, suffixParts suffixes, update⟩

def suffixParts : List Suffix → List Suffix
  | [] => []
  | part :: rest => suffixPart part :: suffixParts rest

def suffixPart : Suffix → Suffix
  | .member _ name => .member .start name
  | .index _ key => .index .start (expr key)
  | .call _ args => .call .start (exprs args)

def primary : Primary → Primary
  | .number _ text => .number .start text
  | .string _ text => .string .start text
  | .bool _ text => .bool .start text
  | .null _ => .null .start
  | .this _ => .this .start
  | .super _ => .super .start
  | .newBare _ type => .newBare .start type.unplaced
  | .newCall _ type args => .newCall .start type.unplaced (exprs args)
  | .function _ ps result body =>
      .function .start (params ps) (result.map TypeRef.unplaced) (block body)
  | .array _ elements => .array .start (exprs elements)
  | .object _ ps => .object .start (properties ps)
  | .ident _ name => .ident .start name
  | .paren _ inner => .paren .start (expr inner)

def property : Property → Property
  | ⟨_, key, value⟩ => ⟨.start, key, expr value⟩

def properties : List Property → List Property
  | [] => []
  | p :: ps => property p :: properties ps

def param : Param → Param
  | ⟨_, name, type, value⟩ => ⟨.start, name, type.map TypeRef.unplaced, exprOption value⟩

def params : List Param → List Param
  | [] => []
  | p :: ps => param p :: params ps

def block : Block → Block
  | ⟨_, body⟩ => ⟨.start, stmts body⟩

def blockOption : Option Block → Option Block
  | none => none
  | some body => some (block body)

def stmts : List Stmt → List Stmt
  | [] => []
  | s :: ss => stmt s :: stmts ss

def stmtOption : Option Stmt → Option Stmt
  | none => none
  | some s => some (stmt s)

def stmt : Stmt → Stmt
  | .block body => .block (block body)
  | .var decl => .var (varDecl decl)
  | .returns _ value => .returns .start (exprOption value)
  | .branch _ cond yes no => .branch .start (expr cond) (stmt yes) (stmtOption no)
  | .whileLoop _ cond body => .whileLoop .start (expr cond) (stmt body)
  | .forLoop _ init cond post body =>
      .forLoop .start (forInitOption init) (exprOption cond) (exprOption post) (stmt body)
  | .throws _ value => .throws .start (expr value)
  | .attempt _ body handler final =>
      .attempt .start (block body) (catchOption handler) (blockOption final)
  | .breaks _ => .breaks .start
  | .continues _ => .continues .start
  | .empty _ => .empty .start
  | .expr value => .expr (expr value)

def forInitOption : Option ForInit → Option ForInit
  | none => none
  | some init => some (forInit init)

def forInit : ForInit → ForInit
  | .var decl => .var (varDecl decl)
  | .expr value => .expr (expr value)

def catchOption : Option Catch → Option Catch
  | none => none
  | some handler => some (catchClause handler)

def catchClause : Catch → Catch
  | ⟨_, name, type, body⟩ => ⟨.start, name, type.map TypeRef.unplaced, block body⟩

def varDecl : VarDecl → VarDecl
  | ⟨_, isConst, name, type, value⟩ =>
      ⟨.start, isConst, name, type.map TypeRef.unplaced, exprOption value⟩

end

def function (f : Function) : Function :=
  ⟨.start, f.name, params f.params, f.result.map TypeRef.unplaced, block f.body⟩

def member (m : Member) : Member :=
  ⟨.start, m.modifiers,
    match m.body with
    | .method f => .method (function f)
    | .field v => .field (varDecl v)⟩

def type (c : Class) : Class :=
  ⟨.start, c.name, c.base.map QualifiedName.unplaced, c.interfaces.map QualifiedName.unplaced,
    c.members.map member⟩

def decl (d : Decl) : Decl :=
  ⟨.start, d.modifiers,
    match d.body with
    | .type c => .type (type c)
    | .function f => .function (function f)
    | .var v => .var (varDecl v)⟩

def importDecl (i : Import) : Import := ⟨.start, i.name.unplaced, i.wildcard⟩

def file (f : File) : File :=
  ⟨.start, f.package.map QualifiedName.unplaced, f.imports.map importDecl, f.decls.map decl⟩

/-- The node of a production without places. -/
def node : (p : Production) → p.Node → p.Node
  | .file => file
  | .qualifiedName => QualifiedName.unplaced
  | .importDecl => importDecl
  | .decl => decl
  | .classDecl => type
  | .member => member
  | .function => function
  | .param => param
  | .typeRef => TypeRef.unplaced
  | .expr => expr
  | .conditional => conditional
  | .binary => binary
  | .unary => unary
  | .postfixExpr => postfixExpr
  | .primary | .newExpr | .functionExpr | .arrayLiteral | .objectLiteral => primary
  | .block => block
  | .stmt | .returnStmt | .ifStmt | .whileStmt | .forStmt | .throwStmt | .tryStmt => stmt
  | .varDecl => varDecl
  | .forInit => forInit
  | .catchClause => catchClause
  | .property => property
  | .suffixPart => suffixPart
  | .opTerm => opTerm

theorem exprs_eq (es : List Expr) : exprs es = es.map expr := by
  induction es with
  | nil => rfl
  | cons e es ih => rw [exprs, ih, List.map_cons]

theorem params_eq (ps : List Param) : params ps = ps.map param := by
  induction ps with
  | nil => rfl
  | cons p ps ih => rw [params, ih, List.map_cons]

theorem properties_eq (ps : List Property) : properties ps = ps.map property := by
  induction ps with
  | nil => rfl
  | cons p ps ih => rw [properties, ih, List.map_cons]

theorem opTerms_eq (terms : List OpTerm) : opTerms terms = terms.map opTerm := by
  induction terms with
  | nil => rfl
  | cons term rest ih => rw [opTerms, ih, List.map_cons]

theorem suffixParts_eq (parts : List Suffix) : suffixParts parts = parts.map suffixPart := by
  induction parts with
  | nil => rfl
  | cons part rest ih => rw [suffixParts, ih, List.map_cons]

theorem stmts_eq (ss : List Stmt) : stmts ss = ss.map stmt := by
  induction ss with
  | nil => rfl
  | cons s ss ih => rw [stmts, ih, List.map_cons]

end Unplaced

@[simp] theorem Terminal.accepts_unplaced (terminal : Terminal) (t : Token) :
    terminal.accepts t.unplaced = terminal.accepts t := by
  cases terminal <;> rfl

/-- A reading where tokens and value have lost their places. -/
def Reading.unplaced {α : Type} (f : α → α) : Reading α → Reading α
  | matched value rest => matched (f value) (rest.map Token.unplaced)
  | unmatched => unmatched
  | failed rest => failed (rest.map Token.unplaced)

namespace Reading

variable {α β : Type}

theorem unplaced_matched (f : α → α) (value : α) (rest : List Token) :
    (matched value rest).unplaced f = matched (f value) (rest.map Token.unplaced) := rfl

theorem unplaced_failed (f : α → α) (rest : List Token) :
    (failed rest).unplaced f = failed (rest.map Token.unplaced) := rfl

theorem map_unplaced {f : α → α} {g : β → β} {h k : α → β} (hcomm : ∀ a, k (f a) = g (h a))
    (r : Reading α) : (r.unplaced f).map k = (r.map h).unplaced g := by
  cases r with
  | matched value rest =>
      rw [unplaced, map, map, unplaced, hcomm]
  | unmatched | failed _ => rfl

theorem recover_unplaced {f : α → α} (input rest : List Token) (dropped : Reading α) :
    recover (input.map Token.unplaced) (rest.map Token.unplaced) (dropped.unplaced f) =
      (recover input rest dropped).unplaced f := by
  rw [recover, recover, List.length_map, List.length_map]
  split <;> rfl

theorem repeated_unplaced {f : α → α} {step step' : List Token → Reading α}
    (hstep : ∀ input, step' (input.map Token.unplaced) = (step input).unplaced f) (n : Nat)
    (input : List Token) :
    repeated step' n (input.map Token.unplaced) = (repeated step n input).unplaced (·.map f) := by
  induction n generalizing input with
  | zero => rfl
  | succ n ih =>
      rw [repeated, repeated, hstep]
      cases step input with
      | matched value rest =>
          simp only [unplaced_matched, ih]
          exact map_unplaced (by intro _; rfl) _
      | unmatched => rfl
      | failed rest => exact recover_unplaced (f := (·.map f)) input rest (.matched [] input)

end Reading

namespace Gram

mutual

/-- The value of a match without places. -/
def unplace : (g : Gram) → g.Value → g.Value
  | token _, next => next.unplaced
  | call p, node => Unplaced.node p node
  | seq first rest, (value, values) => (first.unplace value, unplaceAll rest values)
  | opt _, none => none
  | opt g, some value => some (g.unplace value)
  | many g, values => values.map g.unplace
  | alt branches, value => unplaceAny branches value

def unplaceAll : (gs : List Gram) → ValueAll gs → ValueAll gs
  | [], () => ()
  | g :: gs, (value, values) => (g.unplace value, unplaceAll gs values)

def unplaceAny : (gs : List Gram) → ValueAny gs → ValueAny gs
  | g :: _, .inl value => .inl (g.unplace value)
  | _ :: gs, .inr value => .inr (unplaceAny gs value)

end

section

variable {calls calls' : Readers}

mutual

theorem read_unplaced
    (hcalls : ∀ p input, calls' p (input.map Token.unplaced) =
      (calls p input).unplaced (Unplaced.node p))
    (g : Gram) (input : List Token) :
    g.read calls' (input.map Token.unplaced) = (g.read calls input).unplaced g.unplace := by
  cases g with
  | token options =>
      cases input with
      | nil => rfl
      | cons next rest =>
          simp only [List.map_cons, read, Terminal.accepts_unplaced]
          split <;> rfl
  | call p => exact hcalls p input
  | seq first others =>
      rw [read, read, read_unplaced hcalls first]
      cases first.read calls input with
      | matched value rest =>
          simp only [Reading.unplaced_matched, readAll_unplaced hcalls others]
          exact Reading.map_unplaced (by intro _; rfl) _
      | unmatched | failed _ => rfl
  | opt g =>
      rw [read, read, read_unplaced hcalls g]
      cases g.read calls input with
      | matched value rest => rfl
      | unmatched => rfl
      | failed rest =>
          simp only [Reading.unplaced_failed]
          exact Reading.recover_unplaced (f := (opt g).unplace) input rest (.matched none input)
  | many g =>
      rw [read, read, List.length_map]
      exact Reading.repeated_unplaced (read_unplaced hcalls g) _ input
  | alt branches =>
      rw [read, read]
      exact readAny_unplaced hcalls branches false input

theorem readAll_unplaced
    (hcalls : ∀ p input, calls' p (input.map Token.unplaced) =
      (calls p input).unplaced (Unplaced.node p))
    (gs : List Gram) (input : List Token) :
    readAll calls' gs (input.map Token.unplaced) =
      (readAll calls gs input).unplaced (unplaceAll gs) := by
  cases gs with
  | nil => rfl
  | cons g gs =>
      rw [readAll, readAll, read_unplaced hcalls g]
      cases g.read calls input with
      | matched value rest =>
          simp only [Reading.unplaced_matched, readAll_unplaced hcalls gs]
          exact Reading.map_unplaced (by intro _; rfl) _
      | unmatched | failed _ => rfl

theorem readAny_unplaced
    (hcalls : ∀ p input, calls' p (input.map Token.unplaced) =
      (calls p input).unplaced (Unplaced.node p))
    (gs : List Gram) (broken : Bool) (input : List Token) :
    readAny calls' gs broken (input.map Token.unplaced) =
      (readAny calls gs broken input).unplaced (unplaceAny gs) := by
  cases gs with
  | nil => cases broken <;> rfl
  | cons g gs =>
      have hinr : ∀ broken, (readAny calls' gs broken (input.map Token.unplaced)).map Sum.inr =
          ((readAny calls gs broken input).map Sum.inr).unplaced (unplaceAny (g :: gs)) := by
        intro broken
        rw [readAny_unplaced hcalls gs broken input]
        exact Reading.map_unplaced (by intro _; rfl) _
      rw [readAny, readAny, read_unplaced hcalls g]
      cases g.read calls input with
      | matched value rest => rfl
      | unmatched => exact hinr broken
      | failed rest =>
          simp only [Reading.unplaced_failed, hinr]
          exact Reading.recover_unplaced input rest _

end

end

theorem listItems_unplace {p : Production} (value : (commaList p).Value) :
    listItems ((commaList p).unplace value) = (listItems value).map (Unplaced.node p) := by
  cases value with
  | none => rfl
  | some items => simp [unplace, unplaceAll, listItems]

theorem annotated_unplace (value : typeMark.Value) :
    annotated (typeMark.unplace value) = (annotated value).map TypeRef.unplaced := by
  cases value <;> rfl

theorem defaulted_unplace (value : defaultValue.Value) :
    defaulted (defaultValue.unplace value) = Unplaced.exprOption (defaulted value) := by
  cases value <;> rfl

end Gram

namespace Production

open Gram

theorem build_unplace (p : Production) (pos : Position) (value : p.body.Value) :
    p.build .start (p.body.unplace value) = Unplaced.node p (p.build pos value) := by
  cases p with
  | file =>
      obtain ⟨_, package, _, imports, decls, _, ⟨⟩⟩ := value
      cases package <;> rfl
  | qualifiedName => simp [build, unplace, unplaceAll, Unplaced.node, QualifiedName.unplaced,
      Token.unplaced]
  | importDecl =>
      obtain ⟨_, name, wildcard, _, ⟨⟩⟩ := value
      cases wildcard <;> rfl
  | decl =>
      obtain ⟨modifiers, body, ⟨⟩⟩ := value
      rcases body with c | f | ⟨v, _, ⟨⟩⟩ | ⟨⟨⟩⟩ <;>
        simp [build, unplace, unplaceAll, unplaceAny, Unplaced.node, Unplaced.decl, Token.unplaced]
  | classDecl =>
      obtain ⟨_, name, base, interfaces, _, members, _, ⟨⟩⟩ := value
      cases base <;> cases interfaces <;>
        simp [build, unplace, unplaceAll, Unplaced.node, Unplaced.type, Token.unplaced]
  | member =>
      obtain ⟨modifiers, body, ⟨⟩⟩ := value
      rcases body with f | ⟨v, _, ⟨⟩⟩ | ⟨⟨⟩⟩ <;>
        simp [build, unplace, unplaceAll, unplaceAny, Unplaced.node, Unplaced.member,
          Token.unplaced]
  | function =>
      obtain ⟨_, name, _, ps, _, result, body, ⟨⟩⟩ := value
      simp [build, unplace, unplaceAll, Unplaced.node, Unplaced.function, Unplaced.params_eq,
        listItems_unplace, annotated_unplace, Token.unplaced]
  | param =>
      obtain ⟨name, type, init, ⟨⟩⟩ := value
      simp [build, unplace, unplaceAll, Unplaced.node, Unplaced.param, annotated_unplace,
        defaulted_unplace, Token.unplaced]
  | typeRef => rcases value with _ | _ | q | ⟨⟨⟩⟩ <;> rfl
  | expr =>
      obtain ⟨target, assignment, ⟨⟩⟩ := value
      cases assignment <;> rfl
  | conditional =>
      obtain ⟨test, choice, ⟨⟩⟩ := value
      cases choice <;> rfl
  | binary =>
      obtain ⟨head, tail, ⟨⟩⟩ := value
      simp [build, unplace, unplaceAll, Unplaced.node, Unplaced.binary, Unplaced.opTerms_eq]
  | unary =>
      obtain ⟨ops, operand, ⟨⟩⟩ := value
      simp [build, unplace, unplaceAll, Unplaced.node, Unplaced.unary, Token.unplaced]
  | postfixExpr =>
      obtain ⟨inner, suffixes, update, ⟨⟩⟩ := value
      cases update <;>
        simp [build, unplace, unplaceAll, Unplaced.node, Unplaced.postfixExpr,
          Unplaced.suffixParts_eq, Token.unplaced]
  | primary =>
      rcases value with t | t | t | t | t | t | e | e | e | e | t | ⟨_, e, _, ⟨⟩⟩ | ⟨⟨⟩⟩ <;> rfl
  | newExpr =>
      obtain ⟨_, type, args, ⟨⟩⟩ := value
      rcases args with _ | ⟨_, args, _, ⟨⟩⟩ <;>
        simp [build, unplace, unplaceAll, Unplaced.node, Unplaced.primary, Unplaced.exprs_eq,
          listItems_unplace]
  | functionExpr =>
      obtain ⟨_, _, ps, _, result, body, ⟨⟩⟩ := value
      simp [build, unplace, unplaceAll, Unplaced.node, Unplaced.primary, Unplaced.params_eq,
        listItems_unplace, annotated_unplace]
  | block =>
      obtain ⟨_, ss, _, ⟨⟩⟩ := value
      simp [build, unplace, unplaceAll, Unplaced.node, Unplaced.block, Unplaced.stmts_eq]
  | stmt =>
      rcases value with b | ⟨v, _, ⟨⟩⟩ | s | s | s | s | s | s | ⟨_, _, ⟨⟩⟩ | ⟨_, _, ⟨⟩⟩ | t |
        ⟨e, _, ⟨⟩⟩ | ⟨⟨⟩⟩ <;> rfl
  | varDecl =>
      obtain ⟨keyword, name, type, init, ⟨⟩⟩ := value
      cases type <;> cases init <;> rfl
  | returnStmt =>
      obtain ⟨_, result, _, ⟨⟩⟩ := value
      cases result <;> rfl
  | ifStmt =>
      obtain ⟨_, _, cond, _, yes, no, ⟨⟩⟩ := value
      cases no <;> rfl
  | whileStmt => rfl
  | forStmt =>
      obtain ⟨_, _, init, _, cond, _, post, _, body, ⟨⟩⟩ := value
      cases init <;> cases cond <;> cases post <;> rfl
  | forInit => rcases value with v | e | ⟨⟨⟩⟩ <;> rfl
  | throwStmt => rfl
  | tryStmt =>
      obtain ⟨_, body, handler, final, ⟨⟩⟩ := value
      cases handler <;> cases final <;> rfl
  | catchClause =>
      obtain ⟨_, _, name, type, _, body, ⟨⟩⟩ := value
      simp [build, unplace, unplaceAll, Unplaced.node, Unplaced.catchClause, annotated_unplace,
        Token.unplaced]
  | arrayLiteral =>
      obtain ⟨_, elements, _, ⟨⟩⟩ := value
      simp [build, unplace, unplaceAll, Unplaced.node, Unplaced.primary, Unplaced.exprs_eq,
        listItems_unplace]
  | objectLiteral =>
      obtain ⟨_, ps, _, ⟨⟩⟩ := value
      simp [build, unplace, unplaceAll, Unplaced.node, Unplaced.primary, Unplaced.properties_eq,
        listItems_unplace]
  | property => rfl
  | suffixPart =>
      rcases value with ⟨_, t, ⟨⟩⟩ | ⟨_, e, _, ⟨⟩⟩ | ⟨_, args, _, ⟨⟩⟩ | ⟨⟨⟩⟩
      · rfl
      · rfl
      · simp [build, unplace, unplaceAll, unplaceAny, Unplaced.node, Unplaced.suffixPart,
          Unplaced.exprs_eq, listItems_unplace]
  | opTerm => rfl

theorem placeOf_unplaced (input : List Token) :
    placeOf .start (input.map Token.unplaced) = .start := by
  cases input <;> rfl

theorem read_unplaced (stop : Position) (fuel : Nat) (p : Production) (input : List Token) :
    read .start fuel p (input.map Token.unplaced) =
      (read stop fuel p input).unplaced (Unplaced.node p) := by
  induction fuel generalizing p input with
  | zero => rfl
  | succ fuel ih =>
      rw [read, read, Gram.read_unplaced ih, placeOf_unplaced]
      exact Reading.map_unplaced (build_unplace p _) _

/-- Tokens that have lost their places are read as before, and so has the node. -/
theorem reads_unplaced (stop : Position) (p : Production) (input : List Token) :
    reads .start p (input.map Token.unplaced) =
      (reads stop p input).unplaced (Unplaced.node p) := by
  have hfuel : fuelFor (input.map Token.unplaced) = fuelFor input := by
    rw [fuelFor, fuelFor, List.length_map]
  rw [reads, reads, hfuel, read_unplaced stop]

end Production

/-- The kinds and the spellings of the tokens of a text, if it can be cut into lexemes. -/
def wording (text : String) : Option (List (TokenKind × String)) :=
  (tokens text).toOption.map fun (ts, _) => ts.map fun t => (t.kind, t.text)

/-- A token that stands nowhere. -/
def Token.ofWord (word : TokenKind × String) : Token := ⟨word.1, word.2, .start⟩

namespace Reading

variable {α : Type}

/-- The value of a match that leaves no tokens. -/
def whole? : Reading α → Option α
  | matched value [] => some value
  | _ => none

theorem whole?_eq_some_iff {r : Reading α} {value : α} :
    r.whole? = some value ↔ r = .matched value [] := by
  unfold whole?
  split <;> simp_all

theorem whole?_unplaced (f : α → α) (r : Reading α) : (r.unplaced f).whole? = r.whole?.map f := by
  rcases r with ⟨value, _ | ⟨t, rest⟩⟩ | _ | rest <;> rfl

end Reading

theorem toOption_parse {text : String} {ts : List Token} {stop : Position}
    (h : tokens text = .ok (ts, stop)) :
    (parse text).toOption = (Production.reads stop .file ts).whole? := by
  ext file
  rw [Reading.whole?_eq_some_iff]
  constructor
  · intro hoption
    have hparse : parse text = .ok file := by
      cases hresult : parse text <;> simp_all [Except.toOption]
    obtain ⟨ts', stop', htokens, hreads⟩ := (parse_eq_ok_iff text file).1 hparse
    cases h.symm.trans htokens
    exact hreads
  · intro hreads
    rw [(parse_eq_ok_iff text file).2 ⟨ts, stop, h, hreads⟩]
    rfl

/-- Without its places, the tree of a text is read off the wording. -/
theorem unplaced_parse (text : String) :
    (parse text).toOption.map Unplaced.file =
      (wording text).bind fun words =>
        (Production.reads .start .file (words.map Token.ofWord)).whole? := by
  rw [wording]
  cases htokens : tokens text with
  | error stuck =>
      rw [parse, htokens]
      rfl
  | ok lexed =>
      obtain ⟨ts, stop⟩ := lexed
      have hwords : (ts.map fun t => (t.kind, t.text)).map Token.ofWord =
          ts.map Token.unplaced := by
        rw [List.map_map]
        rfl
      change _ = (Production.reads .start .file (List.map Token.ofWord _)).whole?
      rw [toOption_parse htokens, hwords, Production.reads_unplaced stop, Reading.whole?_unplaced]
      rfl

/-- Texts of one wording are both refused, or both parsed to trees that differ in places alone. -/
theorem parse_wording {text text' : String} (h : wording text = wording text') :
    (parse text).toOption.map Unplaced.file = (parse text').toOption.map Unplaced.file := by
  rw [unplaced_parse, unplaced_parse, h]

/-- The object in the statement is tried as a block first. Here the block breaks off within four
tokens. -/
def plainText : String := "package \x7bfunction f() \x7b\x7ba: 1\x7d;\x7d\x7d"

/-- The same tokens, with more lexemes than that between those that the block reads. -/
def spacedText : String :=
  "package \x7bfunction f() \x7b\x7b /* 1 */ /* 2 */\n a // 3\n /* 4 */ : 1\x7d;\x7d\x7d"

theorem parse_plainText_spacedText :
    wording plainText = wording spacedText ∧ (parse plainText).isOk = true ∧
      (parse plainText).toOption.map Unplaced.file =
        (parse spacedText).toOption.map Unplaced.file := by
  have hwording : wording plainText = wording spacedText := by decide +kernel
  exact ⟨hwording, by decide +kernel, parse_wording hwording⟩

end Script
end ScriptWeave
