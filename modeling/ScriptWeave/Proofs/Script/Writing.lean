import ScriptWeave.Proofs.Script.Derivation

/-!
How a node is written, one level deep: its words and its parts in reading order. What a match of a
production holds is what the node that is built from it is written with, whatever the words and the
parts stand for.
-/

namespace ScriptWeave
namespace Script

namespace Primary

/-- The production that yields a primary of this shape. -/
def production : Primary → Production
  | newBare .. | newCall .. => .newExpr
  | function .. => .functionExpr
  | array .. => .arrayLiteral
  | object .. => .objectLiteral
  | _ => .primary

end Primary

namespace Stmt

/-- The production that yields a statement of this shape. -/
def production : Stmt → Production
  | returns .. => .returnStmt
  | branch .. => .ifStmt
  | whileLoop .. => .whileStmt
  | forLoop .. => .forStmt
  | throws .. => .throwStmt
  | attempt .. => .tryStmt
  | _ => .stmt

end Stmt

namespace Production

/-- A production that shares its type of nodes with another one yields nodes of its own shape. -/
def Yields : (p : Production) → p.Node → Prop
  | p@newExpr, e | p@functionExpr, e | p@arrayLiteral, e | p@objectLiteral, e => e.production = p
  | p@returnStmt, s | p@ifStmt, s | p@whileStmt, s | p@forStmt, s | p@throwStmt, s
  | p@tryStmt, s => s.production = p
  | _, _ => True

theorem yields_build (p : Production) (pos : Position) (value : p.body.Value) :
    p.Yields (p.build pos value) := by
  cases p with
  | newExpr =>
      obtain ⟨_, type, args, ⟨⟩⟩ := value
      cases args <;> rfl
  | functionExpr | arrayLiteral | objectLiteral | returnStmt | ifStmt | whileStmt | forStmt
  | throwStmt | tryStmt => rfl
  | _ => trivial

section

variable {α : Type} (say : String → List α) (part : (p : Production) → p.Node → List α)

/-- A part that may be missing, behind a word of its own. -/
def behind (word : String) (p : Production) : Option p.Node → List α
  | none => []
  | some node => say word ++ part p node

/-- Parts with commas between them. -/
def commas (p : Production) : List p.Node → List α
  | [] => []
  | node :: nodes => part p node ++ nodes.flatMap fun next => say "," ++ part p next

/-- Parts with commas between them, behind a word of their own unless there are none. -/
def commasBehind (word : String) (p : Production) : List p.Node → List α
  | [] => []
  | node :: nodes => say word ++ commas say part p (node :: nodes)

/-- The words and the parts of a node in reading order. -/
def written : (p : Production) → p.Node → List α
  | file, f =>
      say "package" ++ f.package.elim [] (part qualifiedName) ++ say "\x7b"
        ++ f.imports.flatMap (part importDecl) ++ f.decls.flatMap (part decl) ++ say "\x7d"
  | qualifiedName, q => say q.first ++ q.rest.flatMap fun name => say "." ++ say name
  | importDecl, i =>
      say "import" ++ part qualifiedName i.name ++ (if i.wildcard then say "." ++ say "*" else [])
        ++ say ";"
  | decl, d =>
      d.modifiers.flatMap say ++
        match d.body with
        | .type c => part classDecl c
        | .function f => part function f
        | .var v => part varDecl v ++ say ";"
  | classDecl, c =>
      say "class" ++ say c.name ++ behind say part "extends" qualifiedName c.base
        ++ commasBehind say part "implements" qualifiedName c.interfaces
        ++ say "\x7b" ++ c.members.flatMap (part member) ++ say "\x7d"
  | member, m =>
      m.modifiers.flatMap say ++
        match m.body with
        | .method f => part function f
        | .field v => part varDecl v ++ say ";"
  | function, f =>
      say "function" ++ say f.name ++ say "(" ++ commas say part param f.params ++ say ")"
        ++ behind say part ":" typeRef f.result ++ part block f.body
  | param, p =>
      say p.name ++ behind say part ":" typeRef p.type ++ behind say part "=" expr p.default
  | typeRef, t =>
      match t with
      | .any _ => say "*"
      | .void _ => say "void"
      | .named q => part qualifiedName q
  | expr, e =>
      match e with
      | .value target => part conditional target
      | .assign target op value => part conditional target ++ say op ++ part expr value
  | conditional, c =>
      match c with
      | .plain test => part binary test
      | .choice test yes no =>
          part binary test ++ say "?" ++ part expr yes ++ say ":" ++ part expr no
  | binary, b => part unary b.head ++ b.tail.flatMap (part opTerm)
  | unary, u => u.ops.flatMap say ++ part postfixExpr u.operand
  | postfixExpr, p =>
      part primary p.primary ++ p.suffixes.flatMap (part suffixPart) ++ p.update.elim [] say
  | primary, e =>
      match e with
      | .number _ text | .string _ text | .bool _ text | .ident _ text => say text
      | .null _ => say "null"
      | .this _ => say "this"
      | .super _ => say "super"
      | .newBare .. | .newCall .. => part newExpr e
      | .function .. => part functionExpr e
      | .array .. => part arrayLiteral e
      | .object .. => part objectLiteral e
      | .paren _ inner => say "(" ++ part expr inner ++ say ")"
  | newExpr, e =>
      match e with
      | .newBare _ type => say "new" ++ part qualifiedName type
      | .newCall _ type args =>
          say "new" ++ part qualifiedName type ++ say "(" ++ commas say part expr args ++ say ")"
      | _ => []
  | functionExpr, e =>
      match e with
      | .function _ ps result body =>
          say "function" ++ say "(" ++ commas say part param ps ++ say ")"
            ++ behind say part ":" typeRef result ++ part block body
      | _ => []
  | block, b => say "\x7b" ++ b.stmts.flatMap (part stmt) ++ say "\x7d"
  | stmt, s =>
      match s with
      | .block body => part block body
      | .var v => part varDecl v ++ say ";"
      | .returns .. => part returnStmt s
      | .branch .. => part ifStmt s
      | .whileLoop .. => part whileStmt s
      | .forLoop .. => part forStmt s
      | .throws .. => part throwStmt s
      | .attempt .. => part tryStmt s
      | .breaks _ => say "break" ++ say ";"
      | .continues _ => say "continue" ++ say ";"
      | .empty _ => say ";"
      | .expr value => part expr value ++ say ";"
  | varDecl, v =>
      say (if v.isConst then "const" else "var") ++ say v.name ++ behind say part ":" typeRef v.type
        ++ behind say part "=" expr v.value
  | returnStmt, s =>
      match s with
      | .returns _ value => say "return" ++ value.elim [] (part expr) ++ say ";"
      | _ => []
  | ifStmt, s =>
      match s with
      | .branch _ cond yes no =>
          say "if" ++ say "(" ++ part expr cond ++ say ")" ++ part stmt yes
            ++ behind say part "else" stmt no
      | _ => []
  | whileStmt, s =>
      match s with
      | .whileLoop _ cond body =>
          say "while" ++ say "(" ++ part expr cond ++ say ")" ++ part stmt body
      | _ => []
  | forStmt, s =>
      match s with
      | .forLoop _ init cond post body =>
          say "for" ++ say "(" ++ init.elim [] (part forInit) ++ say ";" ++ cond.elim [] (part expr)
            ++ say ";" ++ post.elim [] (part expr) ++ say ")" ++ part stmt body
      | _ => []
  | forInit, i =>
      match i with
      | .var v => part varDecl v
      | .expr value => part expr value
  | throwStmt, s =>
      match s with
      | .throws _ value => say "throw" ++ part expr value ++ say ";"
      | _ => []
  | tryStmt, s =>
      match s with
      | .attempt _ body handler final =>
          say "try" ++ part block body ++ handler.elim [] (part catchClause)
            ++ behind say part "finally" block final
      | _ => []
  | catchClause, c =>
      say "catch" ++ say "(" ++ say c.name ++ behind say part ":" typeRef c.type ++ say ")"
        ++ part block c.body
  | arrayLiteral, e =>
      match e with
      | .array _ elements => say "[" ++ commas say part expr elements ++ say "]"
      | _ => []
  | objectLiteral, e =>
      match e with
      | .object _ ps => say "\x7b" ++ commas say part property ps ++ say "\x7d"
      | _ => []
  | property, p => say p.key ++ say ":" ++ part expr p.value
  | suffixPart, s =>
      match s with
      | .member _ name => say "." ++ say name
      | .index _ key => say "[" ++ part expr key ++ say "]"
      | .call _ args => say "(" ++ commas say part expr args ++ say ")"
  | opTerm, term => say term.op ++ part unary term.operand

end

end Production

namespace Gram

open Production

section

variable {α : Type} {say : String → List α} {part : (p : Production) → p.Node → List α}
  {T : Token → Prop} {Q : (p : Production) → p.Node → Prop}

/-- In a repetition whose parts start with a fixed word, that word is written. -/
theorem collect_preceded {text : String} {g : Gram} {values : List (seq (word text) [g]).Value}
    (h : (many (seq (word text) [g])).Each T Q values) :
    (many (seq (word text) [g])).collect (fun t => say t.text) part values =
      values.flatMap fun v => say text ++ g.collect (fun t => say t.text) part v.2.1 := by
  rw [collect, List.flatMap_def, List.flatMap_def]
  refine congrArg List.flatten (List.map_congr_left fun v hv => ?_)
  have hword := (h v hv).1.text_eq
  simp [collect, collectAll, hword]

theorem collect_commas {p : Production} {value : (commaList p).Value}
    (h : (commaList p).Each T Q value) :
    (commaList p).collect (fun t => say t.text) part value =
      commas say part p (listItems value) := by
  cases value with
  | none => rfl
  | some items =>
      rw [collect, collect, collectAll, collectAll, collect_preceded h.2.1]
      simp [collect, listItems, commas, List.flatMap_map]

theorem collect_typeBehind {value : typeMark.Value} (h : typeMark.Each T Q value) :
    typeMark.collect (fun t => say t.text) part value =
      behind say part ":" typeRef (annotated value) := by
  cases value with
  | none => rfl
  | some mark =>
      have hcolon := h.1.text_eq
      simp [collect, collectAll, annotated, behind, hcolon]

theorem collect_valueBehind {value : defaultValue.Value} (h : defaultValue.Each T Q value) :
    defaultValue.collect (fun t => say t.text) part value =
      behind say part "=" expr (defaulted value) := by
  cases value with
  | none => rfl
  | some init =>
      have hequals := h.1.text_eq
      simp [collect, collectAll, defaulted, behind, hequals]

end

end Gram

namespace Production

open Gram

variable {α : Type} {T : Token → Prop}

section

attribute [local simp] collect collectAll collectAny written build

variable {say : String → List α} {part : (p : Production) → p.Node → List α} {pos : Position}

theorem collect_body_file {value : Production.file.body.Value}
    (h : Production.file.body.Each T Yields value) :
    Production.file.body.collect (fun t => say t.text) part value =
      written say part .file (Production.file.build pos value) := by
  obtain ⟨_, package, _, imports, decls, _, ⟨⟩⟩ := value
  obtain ⟨hpackage, _, hopen, _, _, hclose, _⟩ := h
  replace hpackage := hpackage.text_eq
  replace hopen := hopen.text_eq
  replace hclose := hclose.text_eq
  cases package <;> simp [hpackage, hopen, hclose]

theorem collect_body_qualifiedName {value : Production.qualifiedName.body.Value}
    (h : Production.qualifiedName.body.Each T Yields value) :
    Production.qualifiedName.body.collect (fun t => say t.text) part value =
      written say part .qualifiedName (Production.qualifiedName.build pos value) := by
  obtain ⟨_, hrest, _⟩ := h
  rw [collect, collectAll, collectAll, collect_preceded hrest]
  simp [List.flatMap_map]

theorem collect_body_importDecl {value : Production.importDecl.body.Value}
    (h : Production.importDecl.body.Each T Yields value) :
    Production.importDecl.body.collect (fun t => say t.text) part value =
      written say part .importDecl (Production.importDecl.build pos value) := by
  obtain ⟨_, name, wildcard, _, ⟨⟩⟩ := value
  obtain ⟨himport, _, hwildcard, hend, _⟩ := h
  replace himport := himport.text_eq
  replace hend := hend.text_eq
  cases wildcard with
  | none => simp [himport, hend]
  | some mark =>
      have hdot := hwildcard.1.text_eq
      have hstar := hwildcard.2.1.text_eq
      simp [himport, hend, hdot, hstar]

theorem collect_body_decl {value : Production.decl.body.Value}
    (h : Production.decl.body.Each T Yields value) :
    Production.decl.body.collect (fun t => say t.text) part value =
      written say part .decl (Production.decl.build pos value) := by
  obtain ⟨modifiers, body, ⟨⟩⟩ := value
  rcases body with c | f | ⟨v, _, ⟨⟩⟩ | ⟨⟨⟩⟩
  · simp [List.flatMap_map]
  · simp [List.flatMap_map]
  · have hend := h.2.1.2.1.text_eq
    simp [List.flatMap_map, hend]

theorem collect_body_classDecl {value : Production.classDecl.body.Value}
    (h : Production.classDecl.body.Each T Yields value) :
    Production.classDecl.body.collect (fun t => say t.text) part value =
      written say part .classDecl (Production.classDecl.build pos value) := by
  obtain ⟨_, name, base, interfaces, _, members, _, ⟨⟩⟩ := value
  obtain ⟨hclass, _, hbase, hinterfaces, hopen, _, hclose, _⟩ := h
  replace hclass := hclass.text_eq
  replace hopen := hopen.text_eq
  replace hclose := hclose.text_eq
  have hextending : (opt (seq (word "extends") [call qualifiedName])).collect
      (fun t => say t.text) part base =
        behind say part "extends" qualifiedName (base.map fun mark => mark.2.1) := by
    cases base with
    | none => rfl
    | some mark =>
        have hextends := hbase.1.text_eq
        simp [behind, hextends]
  rw [collect, collectAll, collectAll, hextending, collectAll]
  cases interfaces with
  | none => simp [commasBehind, hclass, hopen, hclose]
  | some list =>
      obtain ⟨himplements, _, hrest, _⟩ := hinterfaces
      replace himplements := himplements.text_eq
      have hlist : (opt (seq (word "implements")
          [call qualifiedName, many (seq (word ",") [call qualifiedName])])).collect
            (fun t => say t.text) part (some list) =
          say "implements" ++ (part qualifiedName list.2.1 ++
            list.2.2.1.flatMap fun v => say "," ++ part qualifiedName v.2.1) := by
        rw [collect, collect, collectAll, collectAll, collect_preceded hrest]
        simp [himplements]
      rw [hlist]
      simp [commasBehind, commas, List.flatMap_map, hclass, hopen, hclose]

theorem collect_body_member {value : Production.member.body.Value}
    (h : Production.member.body.Each T Yields value) :
    Production.member.body.collect (fun t => say t.text) part value =
      written say part .member (Production.member.build pos value) := by
  obtain ⟨modifiers, body, ⟨⟩⟩ := value
  rcases body with f | ⟨v, _, ⟨⟩⟩ | ⟨⟨⟩⟩
  · simp [List.flatMap_map]
  · have hend := h.2.1.2.1.text_eq
    simp [List.flatMap_map, hend]

theorem collect_body_function {value : Production.function.body.Value}
    (h : Production.function.body.Each T Yields value) :
    Production.function.body.collect (fun t => say t.text) part value =
      written say part .function (Production.function.build pos value) := by
  obtain ⟨hfunction, _, hopen, hparams, hclose, hresult, _, _⟩ := h
  replace hfunction := hfunction.text_eq
  replace hopen := hopen.text_eq
  replace hclose := hclose.text_eq
  simp only [collect, collectAll, collect_commas hparams, collect_typeBehind hresult]
  simp [hfunction, hopen, hclose]

theorem collect_body_param {value : Production.param.body.Value}
    (h : Production.param.body.Each T Yields value) :
    Production.param.body.collect (fun t => say t.text) part value =
      written say part .param (Production.param.build pos value) := by
  obtain ⟨_, htype, hvalue, _⟩ := h
  simp only [collect, collectAll, collect_typeBehind htype, collect_valueBehind hvalue]
  simp

theorem collect_body_typeRef {value : Production.typeRef.body.Value}
    (h : Production.typeRef.body.Each T Yields value) :
    Production.typeRef.body.collect (fun t => say t.text) part value =
      written say part .typeRef (Production.typeRef.build pos value) := by
  rcases value with t | t | q | ⟨⟨⟩⟩
  · have hstar := Each.text_eq (Q := Yields) h
    simp [hstar]
  · have hvoid := Each.text_eq (Q := Yields) h
    simp [hvoid]
  · rfl

theorem collect_body_conditional {value : Production.conditional.body.Value}
    (h : Production.conditional.body.Each T Yields value) :
    Production.conditional.body.collect (fun t => say t.text) part value =
      written say part .conditional (Production.conditional.build pos value) := by
  obtain ⟨test, choice, ⟨⟩⟩ := value
  cases choice with
  | none => simp
  | some parts =>
      obtain ⟨hquestion, _, hcolon, _⟩ := h.2.1
      replace hquestion := hquestion.text_eq
      replace hcolon := hcolon.text_eq
      simp [hquestion, hcolon]

theorem collect_body_primary {value : Production.primary.body.Value}
    (h : Production.primary.body.Each T Yields value) :
    Production.primary.body.collect (fun t => say t.text) part value =
      written say part .primary (Production.primary.build pos value) := by
  rcases value with t | t | t | t | t | t | e | e | e | e | t | ⟨_, e, _, ⟨⟩⟩ | ⟨⟨⟩⟩
  case inr.inr.inr.inl =>
    have hnull := Each.text_eq (Q := Yields) h
    simp [hnull]
  case inr.inr.inr.inr.inl =>
    have hthis := Each.text_eq (Q := Yields) h
    simp [hthis]
  case inr.inr.inr.inr.inr.inl =>
    have hsuper := Each.text_eq (Q := Yields) h
    simp [hsuper]
  case inr.inr.inr.inr.inr.inr.inr.inr.inr.inr.inr.inl =>
    have hopen := h.1.text_eq
    have hclose := h.2.2.1.text_eq
    simp [hopen, hclose]
  case inr.inr.inr.inr.inr.inr.inl | inr.inr.inr.inr.inr.inr.inr.inl |
      inr.inr.inr.inr.inr.inr.inr.inr.inl | inr.inr.inr.inr.inr.inr.inr.inr.inr.inl =>
    change e.production = _ at h
    cases e <;> cases h <;> rfl
  all_goals rfl

theorem collect_body_newExpr {value : Production.newExpr.body.Value}
    (h : Production.newExpr.body.Each T Yields value) :
    Production.newExpr.body.collect (fun t => say t.text) part value =
      written say part .newExpr (Production.newExpr.build pos value) := by
  obtain ⟨_, type, args, ⟨⟩⟩ := value
  obtain ⟨hnew, _, hargs, _⟩ := h
  replace hnew := hnew.text_eq
  cases args with
  | none => simp [hnew]
  | some args =>
      obtain ⟨hopen, hlist, hclose, _⟩ := hargs
      replace hopen := hopen.text_eq
      replace hclose := hclose.text_eq
      simp only [collect, collectAll, collect_commas hlist]
      simp [hnew, hopen, hclose]

theorem collect_body_functionExpr {value : Production.functionExpr.body.Value}
    (h : Production.functionExpr.body.Each T Yields value) :
    Production.functionExpr.body.collect (fun t => say t.text) part value =
      written say part .functionExpr (Production.functionExpr.build pos value) := by
  obtain ⟨hfunction, hopen, hparams, hclose, hresult, _, _⟩ := h
  replace hfunction := hfunction.text_eq
  replace hopen := hopen.text_eq
  replace hclose := hclose.text_eq
  simp only [collect, collectAll, collect_commas hparams, collect_typeBehind hresult]
  simp [hfunction, hopen, hclose]

theorem collect_body_block {value : Production.block.body.Value}
    (h : Production.block.body.Each T Yields value) :
    Production.block.body.collect (fun t => say t.text) part value =
      written say part .block (Production.block.build pos value) := by
  obtain ⟨hopen, _, hclose, _⟩ := h
  replace hopen := hopen.text_eq
  replace hclose := hclose.text_eq
  simp [hopen, hclose]

theorem collect_body_stmt {value : Production.stmt.body.Value}
    (h : Production.stmt.body.Each T Yields value) :
    Production.stmt.body.collect (fun t => say t.text) part value =
      written say part .stmt (Production.stmt.build pos value) := by
  rcases value with b | ⟨v, _, ⟨⟩⟩ | s | s | s | s | s | s | ⟨_, _, ⟨⟩⟩ | ⟨_, _, ⟨⟩⟩ | t |
    ⟨e, _, ⟨⟩⟩ | ⟨⟨⟩⟩
  case inl => rfl
  case inr.inl =>
    have hend := h.2.1.text_eq
    simp [hend]
  case inr.inr.inr.inr.inr.inr.inr.inr.inl | inr.inr.inr.inr.inr.inr.inr.inr.inr.inl =>
    have hword := h.1.text_eq
    have hend := h.2.1.text_eq
    simp [hword, hend]
  case inr.inr.inr.inr.inr.inr.inr.inr.inr.inr.inl =>
    have hend := Each.text_eq (Q := Yields) h
    simp [hend]
  case inr.inr.inr.inr.inr.inr.inr.inr.inr.inr.inr.inl =>
    have hend := h.2.1.text_eq
    simp [hend]
  all_goals
    change s.production = _ at h
    cases s <;> cases h
    rfl

theorem collect_body_varDecl {value : Production.varDecl.body.Value}
    (h : Production.varDecl.body.Each T Yields value) :
    Production.varDecl.body.collect (fun t => say t.text) part value =
      written say part .varDecl (Production.varDecl.build pos value) := by
  obtain ⟨hkeyword, _, htype, hvalue, _⟩ := h
  simp only [collect, collectAll, collect_typeBehind htype, collect_valueBehind hvalue]
  have : value.1.text = "var" ∨ value.1.text = "const" := by
    simpa [Each, Terminal.accepts] using hkeyword.1
  obtain hvar | hconst := this
  · simp [hvar]
  · simp [hconst]

theorem collect_body_returnStmt {value : Production.returnStmt.body.Value}
    (h : Production.returnStmt.body.Each T Yields value) :
    Production.returnStmt.body.collect (fun t => say t.text) part value =
      written say part .returnStmt (Production.returnStmt.build pos value) := by
  obtain ⟨_, result, _, ⟨⟩⟩ := value
  obtain ⟨hreturn, _, hend, _⟩ := h
  replace hreturn := hreturn.text_eq
  replace hend := hend.text_eq
  cases result <;> simp [hreturn, hend]

theorem collect_body_ifStmt {value : Production.ifStmt.body.Value}
    (h : Production.ifStmt.body.Each T Yields value) :
    Production.ifStmt.body.collect (fun t => say t.text) part value =
      written say part .ifStmt (Production.ifStmt.build pos value) := by
  obtain ⟨_, _, cond, _, yes, no, ⟨⟩⟩ := value
  obtain ⟨hif, hopen, _, hclose, _, hno, _⟩ := h
  replace hif := hif.text_eq
  replace hopen := hopen.text_eq
  replace hclose := hclose.text_eq
  cases no with
  | none => simp [behind, hif, hopen, hclose]
  | some other =>
      have helse := hno.1.text_eq
      simp [behind, hif, hopen, hclose, helse]

theorem collect_body_whileStmt {value : Production.whileStmt.body.Value}
    (h : Production.whileStmt.body.Each T Yields value) :
    Production.whileStmt.body.collect (fun t => say t.text) part value =
      written say part .whileStmt (Production.whileStmt.build pos value) := by
  obtain ⟨hwhile, hopen, _, hclose, _⟩ := h
  replace hwhile := hwhile.text_eq
  replace hopen := hopen.text_eq
  replace hclose := hclose.text_eq
  simp [hwhile, hopen, hclose]

theorem collect_body_forStmt {value : Production.forStmt.body.Value}
    (h : Production.forStmt.body.Each T Yields value) :
    Production.forStmt.body.collect (fun t => say t.text) part value =
      written say part .forStmt (Production.forStmt.build pos value) := by
  obtain ⟨_, _, init, _, cond, _, post, _, body, ⟨⟩⟩ := value
  obtain ⟨hfor, hopen, _, hfirst, _, hsecond, _, hclose, _⟩ := h
  replace hfor := hfor.text_eq
  replace hopen := hopen.text_eq
  replace hfirst := hfirst.text_eq
  replace hsecond := hsecond.text_eq
  replace hclose := hclose.text_eq
  cases init <;> cases cond <;> cases post <;> simp [hfor, hopen, hfirst, hsecond, hclose]

theorem collect_body_throwStmt {value : Production.throwStmt.body.Value}
    (h : Production.throwStmt.body.Each T Yields value) :
    Production.throwStmt.body.collect (fun t => say t.text) part value =
      written say part .throwStmt (Production.throwStmt.build pos value) := by
  obtain ⟨hthrow, _, hend, _⟩ := h
  replace hthrow := hthrow.text_eq
  replace hend := hend.text_eq
  simp [hthrow, hend]

theorem collect_body_tryStmt {value : Production.tryStmt.body.Value}
    (h : Production.tryStmt.body.Each T Yields value) :
    Production.tryStmt.body.collect (fun t => say t.text) part value =
      written say part .tryStmt (Production.tryStmt.build pos value) := by
  obtain ⟨_, body, handler, final, ⟨⟩⟩ := value
  obtain ⟨htry, _, _, hfinal, _⟩ := h
  replace htry := htry.text_eq
  cases final with
  | none => cases handler <;> simp [behind, htry]
  | some last =>
      have hfinally := hfinal.1.text_eq
      cases handler <;> simp [behind, htry, hfinally]

theorem collect_body_catchClause {value : Production.catchClause.body.Value}
    (h : Production.catchClause.body.Each T Yields value) :
    Production.catchClause.body.collect (fun t => say t.text) part value =
      written say part .catchClause (Production.catchClause.build pos value) := by
  obtain ⟨hcatch, hopen, _, htype, hclose, _⟩ := h
  replace hcatch := hcatch.text_eq
  replace hopen := hopen.text_eq
  replace hclose := hclose.text_eq
  simp only [collect, collectAll, collect_typeBehind htype]
  simp [hcatch, hopen, hclose]

theorem collect_body_arrayLiteral {value : Production.arrayLiteral.body.Value}
    (h : Production.arrayLiteral.body.Each T Yields value) :
    Production.arrayLiteral.body.collect (fun t => say t.text) part value =
      written say part .arrayLiteral (Production.arrayLiteral.build pos value) := by
  obtain ⟨hopen, hlist, hclose, _⟩ := h
  replace hopen := hopen.text_eq
  replace hclose := hclose.text_eq
  simp only [collect, collectAll, collect_commas hlist]
  simp [hopen, hclose]

theorem collect_body_objectLiteral {value : Production.objectLiteral.body.Value}
    (h : Production.objectLiteral.body.Each T Yields value) :
    Production.objectLiteral.body.collect (fun t => say t.text) part value =
      written say part .objectLiteral (Production.objectLiteral.build pos value) := by
  obtain ⟨hopen, hlist, hclose, _⟩ := h
  replace hopen := hopen.text_eq
  replace hclose := hclose.text_eq
  simp only [collect, collectAll, collect_commas hlist]
  simp [hopen, hclose]

theorem collect_body_property {value : Production.property.body.Value}
    (h : Production.property.body.Each T Yields value) :
    Production.property.body.collect (fun t => say t.text) part value =
      written say part .property (Production.property.build pos value) := by
  obtain ⟨_, hcolon, _⟩ := h
  replace hcolon := hcolon.text_eq
  simp [hcolon]

theorem collect_body_suffixPart {value : Production.suffixPart.body.Value}
    (h : Production.suffixPart.body.Each T Yields value) :
    Production.suffixPart.body.collect (fun t => say t.text) part value =
      written say part .suffixPart (Production.suffixPart.build pos value) := by
  rcases value with ⟨_, t, ⟨⟩⟩ | ⟨_, e, _, ⟨⟩⟩ | ⟨_, args, _, ⟨⟩⟩ | ⟨⟨⟩⟩
  · have hdot := h.1.text_eq
    simp [hdot]
  · have hopen := h.1.text_eq
    have hclose := h.2.2.1.text_eq
    simp [hopen, hclose]
  · have hopen := h.1.text_eq
    have hclose := h.2.2.1.text_eq
    simp only [collect, collectAll, collectAny, collect_commas h.2.1]
    simp [hopen, hclose]

/-- What a match of a production holds is what the node is written with that is built from it. -/
theorem collect_body (say : String → List α) (part : (p : Production) → p.Node → List α)
    (p : Production) (pos : Position) {value : p.body.Value} (h : p.body.Each T Yields value) :
    p.body.collect (fun t => say t.text) part value = written say part p (p.build pos value) := by
  cases p with
  | file => exact collect_body_file h
  | qualifiedName => exact collect_body_qualifiedName h
  | importDecl => exact collect_body_importDecl h
  | decl => exact collect_body_decl h
  | classDecl => exact collect_body_classDecl h
  | member => exact collect_body_member h
  | function => exact collect_body_function h
  | param => exact collect_body_param h
  | typeRef => exact collect_body_typeRef h
  | expr =>
      obtain ⟨target, assignment, ⟨⟩⟩ := value
      cases assignment <;> simp
  | conditional => exact collect_body_conditional h
  | binary => simp
  | unary => simp [List.flatMap_map]
  | postfixExpr =>
      obtain ⟨inner, suffixes, update, ⟨⟩⟩ := value
      cases update <;> simp
  | primary => exact collect_body_primary h
  | newExpr => exact collect_body_newExpr h
  | functionExpr => exact collect_body_functionExpr h
  | block => exact collect_body_block h
  | stmt => exact collect_body_stmt h
  | varDecl => exact collect_body_varDecl h
  | returnStmt => exact collect_body_returnStmt h
  | ifStmt => exact collect_body_ifStmt h
  | whileStmt => exact collect_body_whileStmt h
  | forStmt => exact collect_body_forStmt h
  | forInit => rcases value with v | e | ⟨⟨⟩⟩ <;> rfl
  | throwStmt => exact collect_body_throwStmt h
  | tryStmt => exact collect_body_tryStmt h
  | catchClause => exact collect_body_catchClause h
  | arrayLiteral => exact collect_body_arrayLiteral h
  | objectLiteral => exact collect_body_objectLiteral h
  | property => exact collect_body_property h
  | suffixPart => exact collect_body_suffixPart h
  | opTerm => simp

end

end Production

end Script
end ScriptWeave
