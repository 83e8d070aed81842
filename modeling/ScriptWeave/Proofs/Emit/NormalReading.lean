import ScriptWeave.Proofs.Emit.NormalForm
import ScriptWeave.Proofs.Script.ExactStatements

/-!
The normal form of what has been read is read back. Two facts about the text that a tree comes from
are needed besides its lexemes: a conditional expression is never the target of an assignment, which
its last part would have taken, and no statement is an expression that begins with an empty object
literal, which a block would have taken.
-/

namespace ScriptWeave

namespace Script

open Gram Lexeme

section

variable {stop : Position} {input rest : List Token}

/-- What follows an expression is not an assignment to it. -/
theorem not_matches_assignment {e : Expr} (h : Matches stop (call .expr) e input rest)
    (value : (seq (words assignOps) [call .expr]).Value) (left : List Token) :
    ¬Matches stop (seq (words assignOps) [call .expr]) value rest left := by
  induction hlen : input.length using Nat.strongRecOn generalizing input e with
  | ind k ih =>
      subst hlen
      obtain ⟨⟨target, assignment, ⟨⟩⟩, hbody, rfl⟩ := matches_call_iff.1 h
      obtain ⟨mid, htarget, hmid⟩ := hbody.of_seq
      obtain ⟨mid', hassignment, hnil⟩ := hmid.of_cons
      cases hnil.of_nil
      cases assignment with
      | none =>
          obtain ⟨rfl, hno⟩ := hassignment.of_none
          exact hno value left
      | some parts =>
          obtain ⟨op, e', ⟨⟩⟩ := parts
          obtain ⟨after, hop, hafter⟩ := hassignment.of_some.of_seq
          obtain ⟨mid'', he', hnil⟩ := hafter.of_cons
          cases hnil.of_nil
          have htargetLt := htarget.lt_length rfl
          have hopLt := hop.lt_length rfl
          exact ih _ (by omega) he' rfl

/-- The target of an assignment is not a choice. -/
theorem plain_of_assigned {target : Conditional} {op : Token} {e : Expr}
    (h : Matches stop Production.expr.body (target, some (op, e, ()), ()) input rest) :
    ∃ test, target = .plain test := by
  obtain ⟨mid, htarget, hmid⟩ := h.of_seq
  obtain ⟨mid', hassignment, _⟩ := hmid.of_cons
  obtain ⟨⟨test, choice, ⟨⟩⟩, hbody, rfl⟩ := matches_call_iff.1 htarget
  cases choice with
  | none => exact ⟨test, rfl⟩
  | some parts =>
      obtain ⟨question, yes, colon, no, ⟨⟩⟩ := parts
      obtain ⟨_, _, h1⟩ := hbody.of_seq
      obtain ⟨_, h2, hnil⟩ := h1.of_cons
      cases hnil.of_nil
      obtain ⟨_, _, h3⟩ := h2.of_some.of_seq
      obtain ⟨_, _, h4⟩ := h3.of_cons
      obtain ⟨_, _, h5⟩ := h4.of_cons
      obtain ⟨_, hno, hnil⟩ := h5.of_cons
      cases hnil.of_nil
      exact absurd hassignment.of_some (not_matches_assignment hno _ _)

end

def Primary.isEmptyObject : Primary → Bool
  | .object _ [] => true
  | _ => false

def Unary.opensEmpty (u : Unary) : Bool := u.ops.isEmpty && u.operand.primary.isEmptyObject

def Binary.opensEmpty (b : Binary) : Bool := b.head.opensEmpty

def Conditional.opensEmpty : Conditional → Bool
  | .plain test | .choice test _ _ => test.opensEmpty

def Expr.opensEmpty : Expr → Bool
  | .value cond | .assign cond _ _ => cond.opensEmpty

theorem spelling_of_isEmptyObject {p : Primary} (h : p.isEmptyObject = true) :
    Spelling.primary p = ["\x7b", "\x7d"] := by
  cases p with
  | object pos ps =>
      cases ps with
      | nil => rfl
      | cons p ps => cases h
  | _ => cases h

theorem spelling_of_opensEmpty {e : Expr} (h : e.opensEmpty = true) :
    ∃ more, Spelling.expr e = "\x7b" :: "\x7d" :: more := by
  have hunary : ∀ u : Unary, u.opensEmpty = true →
      ∃ more, Spelling.unary u = "\x7b" :: "\x7d" :: more := by
    rintro ⟨pos, ops, ⟨inner, suffixes, update⟩⟩ h
    simp only [Unary.opensEmpty, Bool.and_eq_true, List.isEmpty_iff] at h
    obtain ⟨rfl, hinner⟩ := h
    simp [Spelling.unary, Spelling.postfixExpr, spelling_of_isEmptyObject hinner]
  have hconditional : ∀ c : Conditional, c.opensEmpty = true →
      ∃ more, Spelling.conditional c = "\x7b" :: "\x7d" :: more := by
    intro c hc
    cases c with
    | plain test =>
        obtain ⟨head, tail⟩ := test
        obtain ⟨more, hmore⟩ := hunary head hc
        simp [Spelling.conditional, Spelling.binary, hmore]
    | choice test yes no =>
        obtain ⟨head, tail⟩ := test
        obtain ⟨more, hmore⟩ := hunary head hc
        simp [Spelling.conditional, Spelling.binary, hmore]
  cases e with
  | value cond => exact hconditional cond h
  | assign cond op value =>
      obtain ⟨more, hmore⟩ := hconditional cond h
      simp [Spelling.expr, hmore]

/-- A lexeme with the kind that its text has. -/
def Token.Genuine (t : Token) : Prop := kind? t.text = some t.kind

theorem matches_empty_block (stop : Position) {opening closing : Token} (more : List Token)
    (hopening : opening.text = "\x7b") (hclosing : closing.text = "\x7d")
    (hgenuine : closing.Genuine) :
    ∃ b, Matches stop (call .block) b (opening :: closing :: more) more := by
  have hdrops : Drops stop (call .stmt) (closing :: more) := by
    refine drops_of_not_begins rfl ?_
    obtain ⟨kind, text, pos⟩ := closing
    cases hclosing
    have hpunctuation : kind? "\x7d" = some .punctuation := by decide
    cases Option.some.inj (hpunctuation.symm.trans hgenuine)
    rfl
  exact ⟨_, .call (.seq (.token (by simp [Terminal.accepts, hopening]))
    (.cons (.finish hdrops) (.cons (.token (by simp [Terminal.accepts, hclosing])) .nil)))⟩

/-- An expression that is read as a statement does not begin with an empty object literal. -/
theorem not_opensEmpty {stop : Position} {e : Expr} {value : Production.stmt.body.Value}
    {used rest : List Token} (h : Matches stop Production.stmt.body value (used ++ rest) rest)
    (hvalue : ∀ b, value ≠ .inl b) (hspelled : used.map (·.text) = Spelling.expr e ++ [";"])
    (hgenuine : ∀ t ∈ used, t.Genuine) : e.opensEmpty = false := by
  rw [← Bool.not_eq_true]
  intro hopens
  obtain ⟨more, hmore⟩ := spelling_of_opensEmpty hopens
  rw [hmore] at hspelled
  match used with
  | [] => simp at hspelled
  | [t] => simp at hspelled
  | opening :: closing :: used =>
      simp only [List.map_cons, List.cons_append, List.cons.injEq] at hspelled
      obtain ⟨b, hb⟩ := matches_empty_block stop (used ++ rest) hspelled.1 hspelled.2.1
        (hgenuine closing (by simp))
      exact hvalue b (hb.eq_inl_of_alt h)

end Script

namespace Emit
namespace Normal

open Script Gram Lexeme

theorem exprs_eq (es : List Expr) : exprs es = es.map expr := by
  induction es with
  | nil => rfl
  | cons e es ih => rw [exprs, ih, List.map_cons]

theorem properties_eq (ps : List Property) : properties ps = ps.map property := by
  induction ps with
  | nil => rfl
  | cons p ps ih => rw [properties, ih, List.map_cons]

theorem opTerms_eq (terms : List OpTerm) : opTerms terms = terms.map opTerm := by
  induction terms with
  | nil => rfl
  | cons term rest ih => rw [opTerms, ih, List.map_cons]

theorem suffixParts_eq (parts : List Suffix) : suffixParts parts = parts.map suffixPart := by
  induction parts with
  | nil => rfl
  | cons part rest ih => rw [suffixParts, ih, List.map_cons]

theorem stmts_eq (ss : List Stmt) : stmts ss = ss.map stmt := by
  induction ss with
  | nil => rfl
  | cons s ss ih => rw [stmts, ih, List.map_cons]

/-- The first value of a variable. -/
def initial : VarDecl → Option Expr
  | ⟨_, _, _, none, none⟩ => none
  | ⟨_, _, _, some type, none⟩ => some (startValue type)
  | ⟨_, _, _, _, some value⟩ => some (expr value)

theorem varDecl_eq (v : VarDecl) : varDecl v = ⟨.start, false, v.name, none, initial v⟩ := by
  obtain ⟨_, _, name, type, value⟩ := v
  cases type <;> cases value <;> rfl

/-- The stops of a conditional expression: the last part of a choice is an expression. -/
def conditionalStops : Conditional → List String
  | .plain _ => choiceStops
  | .choice _ _ _ => exprStops

/-- The normal form of a node is read back. -/
def Good : (p : Production) → p.Node → Prop
  | .file, _ | .importDecl, _ | .decl, _ | .classDecl, _ | .member, _ | .typeRef, _ => True
  | .qualifiedName, q => ReadsBack .qualifiedName ["."] q.unplaced
  | .function, f => ReadsBack .function [] (function f)
  | .param, p => kind? p.name = some .ident ∧
      ∀ e ∈ p.default, ReadsBack .expr exprStops (expr e)
  | .expr, e => ReadsBack .expr exprStops (expr e) ∧
      (e.opensEmpty = false → Opening (Spelling.expr (expr e)))
  | .conditional, c => ReadsBack .conditional (conditionalStops c) (conditional c) ∧
      (c.opensEmpty = false → Opening (Spelling.conditional (conditional c)))
  | .binary, b => ReadsBack .binary binaryStops (binary b) ∧
      (b.opensEmpty = false → Opening (Spelling.binary (binary b)))
  | .unary, u => ReadsBack .unary operandStops (unary u) ∧
      (u.opensEmpty = false → Opening (Spelling.unary (unary u)))
  | .opTerm, term => ReadsBack .opTerm operandStops (opTerm term)
  | .postfixExpr, e => ReadsBack .postfixExpr operandStops (postfixExpr e) ∧
      (e.primary.isEmptyObject = false → Opening (Spelling.postfixExpr (postfixExpr e)))
  | .suffixPart, part => ReadsBack .suffixPart [] (suffixPart part)
  | .primary, e => ReadsBack .primary [] (primary e) ∧
      (e.isEmptyObject = false → Opening (Spelling.primary (primary e)))
  | .newExpr, e => ReadsBack .newExpr [] (primary e)
  | .functionExpr, e => ReadsBack .functionExpr [] (primary e)
  | .arrayLiteral, e => ReadsBack .arrayLiteral [] (primary e)
  | .objectLiteral, e => ReadsBack .objectLiteral [] (primary e) ∧
      (e.isEmptyObject = false → Opening (Spelling.primary (primary e)))
  | .property, p => ReadsBack .property exprStops (property p) ∧ IsKey p.key
  | .block, b => ∀ s ∈ block b, ReadsBack .stmt stmtStops s
  | .stmt, s => ReadsBack .stmt stmtStops (stmt s) ∧ ReadsBack .stmt [] (wrapped (stmt s))
  | .varDecl, v => ReadsBack .varDecl (":" :: exprStops) (varDecl v)
  | .returnStmt, s => ReadsBack .returnStmt [] (stmt s)
  | .ifStmt, s => ReadsBack .ifStmt stmtStops (stmt s) ∧ ∀ b, stmt s ≠ .block b
  | .whileStmt, s => ReadsBack .whileStmt [] (stmt s)
  | .forStmt, s => ReadsBack .forStmt [] (stmt s)
  | .forInit, i => ReadsBack .forInit (":" :: exprStops) (forInit i)
  | .throwStmt, s => ReadsBack .throwStmt [] (stmt s)
  | .tryStmt, s => ReadsBack .tryStmt stmtStops (stmt s) ∧ ∀ b, stmt s ≠ .block b
  | .catchClause, c => ReadsBack .catchClause [] (catchClause c)

/-- A lexeme that is not `super`. -/
def Clean (t : Token) : Prop := t.Genuine ∧ t.text ≠ "super"

section

variable {Q : (p : Production) → p.Node → Prop}

theorem each_kind {kind : TokenKind} {t : Token}
    (h : [Terminal.kind kind].any (·.accepts t) = true ∧ Clean t) : kind? t.text = some kind := by
  obtain ⟨haccepts, hgenuine, _⟩ := h
  simp only [List.any_cons, List.any_nil, Bool.or_false, Terminal.accepts, decide_eq_true_eq]
    at haccepts
  exact haccepts ▸ hgenuine

theorem each_words {texts : List String} {t : Token}
    (h : (texts.map Terminal.word).any (·.accepts t) = true ∧ Clean t) : t.text ∈ texts :=
  begins_words texts h.1

theorem each_key {t : Token}
    (h : [Terminal.kind .ident, .kind .string, .kind .number].any (·.accepts t) = true ∧ Clean t) :
    IsKey t.text := by
  obtain ⟨haccepts, hgenuine, _⟩ := h
  simp only [List.any_cons, List.any_nil, Bool.or_false, Terminal.accepts, decide_eq_true_eq,
    Bool.or_eq_true] at haccepts
  obtain hkind | hkind | hkind := haccepts
  · exact Or.inl (hkind ▸ hgenuine)
  · exact Or.inr (Or.inl (hkind ▸ hgenuine))
  · exact Or.inr (Or.inr (hkind ▸ hgenuine))

theorem each_listItems {p : Production} {value : (commaList p).Value}
    (h : (commaList p).Each Clean Q value) : ∀ node ∈ listItems value, Q p node := by
  cases value with
  | none => simp [listItems]
  | some items =>
      obtain ⟨hfirst, hrest, _⟩ := h
      refine List.forall_mem_cons.2 ⟨hfirst, ?_⟩
      intro node hnode
      obtain ⟨item, hitem, rfl⟩ := List.mem_map.1 hnode
      exact (hrest item hitem).2.1

theorem each_option {p : Production} {value : (opt (call p)).Value}
    (h : (opt (call p)).Each Clean Q value) : ∀ node ∈ value, Q p node := by
  cases value with
  | none => simp
  | some node =>
      rintro _ ⟨⟩
      exact h

theorem each_defaulted {value : defaultValue.Value} (h : defaultValue.Each Clean Q value) :
    ∀ e ∈ defaulted value, Q .expr e := by
  cases value with
  | none => simp [defaulted]
  | some init =>
      rintro e ⟨⟩
      exact h.2.1

end

theorem readsBack_startValue (type : TypeRef) :
    ReadsBack .expr exprStops (startValue type) := by
  cases type with
  | any pos => exact .atom (.ident (by decide))
  | void pos => exact .atom (.ident (by decide))
  | named name =>
      rw [startValue]
      split
      · exact .atom (.number (by decide))
      · exact .atom (.number (by decide))
      · exact .atom (.ident (by decide))
      · exact .atom (.bool (by decide))
      · exact .atom .null

theorem readsBack_assignDefault {name : String} {value : Expr} (hname : kind? name = some .ident)
    (hvalue : ReadsBack .expr exprStops value) :
    ReadsBack .stmt stmtStops (assignDefault name value) := by
  have hundefined : kind? "undefined" = some .ident := by decide
  have hterm := ReadsBack.opTerm (by decide : "===" ∈ binaryOps) (.operand (.ident hundefined))
  have htest := ReadsBack.value (.plain (.binary (.operand (.ident hname))
    (List.forall_mem_singleton.2 hterm))) (by decide)
  have htarget : ReadsBack .conditional choiceStops
      (.plain ⟨⟨.start, [], ⟨.ident .start name, [], none⟩⟩, []⟩) :=
    .plain (.binary (.operand (.ident hname)) (by simp))
  have hassign := ReadsBack.exprStmt (.assign htarget (by decide : "=" ∈ assignOps) hvalue)
    (opening_of_kind hname (by decide) _)
  have hblock := ReadsBack.block (List.forall_mem_singleton.2 (hassign.mono (by simp)))
  exact .ofIf (.branchStmt htest (.ofBlock hblock) (by simp))

theorem readsBack_defaults {ps : List Param} (h : ∀ p ∈ ps, Good .param p) :
    ∀ s ∈ defaults ps, ReadsBack .stmt stmtStops s := by
  induction ps with
  | nil => simp [defaults]
  | cons p ps ih =>
      obtain ⟨pos, name, type, value⟩ := p
      rw [List.forall_mem_cons] at h
      cases value with
      | none => exact ih h.2
      | some e =>
          exact List.forall_mem_cons.2
            ⟨readsBack_assignDefault h.1.1 (h.1.2 e rfl), ih h.2⟩

theorem readsBack_wrapped {s : Stmt} (h : ReadsBack .stmt stmtStops s)
    (hblock : ∀ b, s = .block b → ReadsBack .stmt [] s) : ReadsBack .stmt [] (wrapped s) := by
  have hother : ReadsBack .stmt [] (.block ⟨.start, [s]⟩) :=
    .ofBlock (.block (List.forall_mem_singleton.2 h))
  cases s with
  | block b => exact hblock b rfl
  | _ => exact hother

theorem readsBack_chained {s : Stmt} (h : ReadsBack .stmt stmtStops s)
    (hwrapped : ReadsBack .stmt [] (wrapped s)) : ReadsBack .stmt stmtStops (chained s) := by
  have hmono : ReadsBack .stmt stmtStops (wrapped s) := hwrapped.mono (by simp)
  cases s with
  | branch pos cond yes no => exact h
  | _ => exact hmono

theorem readsBack_initial {v : VarDecl}
    (h : ∀ e ∈ v.value, ReadsBack .expr exprStops (expr e)) :
    ∀ e ∈ initial v, ReadsBack .expr exprStops e := by
  obtain ⟨_, _, _, type, value⟩ := v
  intro e he
  cases value with
  | none =>
      cases type with
      | none => cases he
      | some type =>
          cases he
          exact readsBack_startValue type
  | some value =>
      cases type <;> cases he <;> exact h value rfl

theorem readsBack_exprOption {value : Option Expr} (h : ∀ e ∈ value, Good .expr e) :
    ∀ e ∈ exprOption value, ReadsBack .expr exprStops e := by
  intro e he
  cases value with
  | none => cases he
  | some value =>
      cases he
      exact (h value rfl).1

section

variable {pos : Position}

theorem good_build_qualifiedName {value : Production.qualifiedName.body.Value}
    (h : Production.qualifiedName.body.Each Clean Good value) :
    Good .qualifiedName (Production.qualifiedName.build pos value) := by
  obtain ⟨hfirst, hrest, _⟩ := h
  refine ReadsBack.qualifiedName (each_kind hfirst) ?_
  intro part hpart
  obtain ⟨item, hitem, rfl⟩ := List.mem_map.1 hpart
  exact each_kind (hrest item hitem).2.1

theorem good_build_function {value : Production.function.body.Value}
    (h : Production.function.body.Each Clean Good value) :
    Good .function (Production.function.build pos value) := by
  obtain ⟨_, hname, _, hparams, _, _, hbody, _⟩ := h
  have hps := each_listItems hparams
  refine ReadsBack.function (each_kind hname) ?_ (.block ?_)
  · rw [List.forall_mem_map]
    exact fun p hp => .param (hps p hp).1
  · exact List.forall_mem_append.2 ⟨readsBack_defaults hps, hbody⟩

theorem good_build_expr {stop : Position} {used rest : List Token}
    {value : Production.expr.body.Value}
    (hmatch : Matches stop Production.expr.body value (used ++ rest) rest)
    (h : Production.expr.body.Each Clean Good value) :
    Good .expr (Production.expr.build pos value) := by
  obtain ⟨target, assignment, ⟨⟩⟩ := value
  obtain ⟨htarget, hassignment, _⟩ := h
  cases assignment with
  | none =>
      refine ⟨.value htarget.1 ?_, htarget.2⟩
      cases target
      · exact (by decide : ∀ w ∈ choiceStops, w ∈ exprStops)
      · exact fun _ h => h
  | some parts =>
      obtain ⟨op, e, ⟨⟩⟩ := parts
      obtain ⟨test, rfl⟩ := plain_of_assigned hmatch
      exact ⟨.assign htarget.1 (each_words hassignment.1) hassignment.2.1.1,
        fun hopens => (htarget.2 hopens).append _⟩

theorem good_build_conditional {value : Production.conditional.body.Value}
    (h : Production.conditional.body.Each Clean Good value) :
    Good .conditional (Production.conditional.build pos value) := by
  obtain ⟨test, choice, ⟨⟩⟩ := value
  obtain ⟨htest, hchoice, _⟩ := h
  cases choice with
  | none => exact ⟨.plain htest.1, htest.2⟩
  | some parts =>
      obtain ⟨_, hyes, _, hno, _⟩ := hchoice
      exact ⟨.choice htest.1 hyes.1 hno.1, fun hopens => ((htest.2 hopens).append _).append _⟩

theorem good_build_binary {value : Production.binary.body.Value}
    (h : Production.binary.body.Each Clean Good value) :
    Good .binary (Production.binary.build pos value) := by
  obtain ⟨head, tail, ⟨⟩⟩ := value
  obtain ⟨hhead, htail, _⟩ := h
  refine ⟨.binary hhead.1 ?_, fun hopens => (hhead.2 hopens).append _⟩
  rw [opTerms_eq, List.forall_mem_map]
  exact htail

theorem good_build_unary {value : Production.unary.body.Value}
    (h : Production.unary.body.Each Clean Good value) :
    Good .unary (Production.unary.build pos value) := by
  obtain ⟨ops, operand, ⟨⟩⟩ := value
  obtain ⟨hops, hoperand, _⟩ := h
  refine ⟨.unary ?_ hoperand.1, fun hopens => ?_⟩
  · rw [List.forall_mem_map]
    exact fun op hop => each_words (hops op hop)
  · cases ops with
    | nil => exact hoperand.2 hopens
    | cons op ops =>
        have hall : ∀ w ∈ Script.unaryOps, w ≠ "\x7b" := by decide
        exact opening_cons (hall _ (each_words (hops op List.mem_cons_self))) _

theorem good_build_postfixExpr {value : Production.postfixExpr.body.Value}
    (h : Production.postfixExpr.body.Each Clean Good value) :
    Good .postfixExpr (Production.postfixExpr.build pos value) := by
  obtain ⟨inner, suffixes, update, ⟨⟩⟩ := value
  obtain ⟨hinner, hsuffixes, hupdate, _⟩ := h
  refine ⟨.postfixExpr hinner.1 ?_ ?_, fun hopens => ?_⟩
  · rw [suffixParts_eq, List.forall_mem_map]
    exact hsuffixes
  · intro op hop
    obtain ⟨t, rfl, rfl⟩ := Option.map_eq_some_iff.1 hop
    exact each_words hupdate
  · exact ((hinner.2 hopens).append _).append _

theorem good_build_suffixPart {value : Production.suffixPart.body.Value}
    (h : Production.suffixPart.body.Each Clean Good value) :
    Good .suffixPart (Production.suffixPart.build pos value) := by
  rcases value with ⟨_, t, ⟨⟩⟩ | ⟨_, e, _, ⟨⟩⟩ | ⟨_, args, _, ⟨⟩⟩ | ⟨⟨⟩⟩
  · exact ReadsBack.member (each_kind h.2.1)
  · exact ReadsBack.index h.2.1.1
  · refine ReadsBack.call ?_
    rw [exprs_eq, List.forall_mem_map]
    exact fun e he => (each_listItems h.2.1 e he).1

theorem good_build_primary {value : Production.primary.body.Value}
    (h : Production.primary.body.Each Clean Good value) :
    Good .primary (Production.primary.build pos value) := by
  rcases value with t | t | t | t | t | t | e | e | e | e | t | ⟨_, e, _, ⟨⟩⟩ | ⟨⟨⟩⟩
  · exact ⟨.number (each_kind h), fun _ => opening_of_kind (each_kind h) (by decide) []⟩
  · exact ⟨.string (each_kind h), fun _ => opening_of_kind (each_kind h) (by decide) []⟩
  · have hall : ∀ w ∈ ["true", "false"], w ≠ "\x7b" := by decide
    exact ⟨.bool (each_words h), fun _ => opening_cons (hall _ (each_words h)) []⟩
  · exact ⟨.null, fun _ => opening_cons (by decide) []⟩
  · exact ⟨.this, fun _ => opening_cons (by decide) []⟩
  · exact absurd (List.mem_singleton.1 (each_words h)) h.2.2
  · exact ⟨.ofNewExpr h, fun _ => h.opening (by decide)⟩
  · exact ⟨.ofFunctionExpr h, fun _ => h.opening (by decide)⟩
  · exact ⟨.ofArrayLiteral h, fun _ => h.opening (by decide)⟩
  · exact ⟨.ofObjectLiteral h.1, h.2⟩
  · exact ⟨.ident (each_kind h), fun _ => opening_of_kind (each_kind h) (by decide) []⟩
  · exact ⟨.paren h.2.1.1, fun _ => opening_cons (by decide) _⟩

theorem good_build_newExpr {value : Production.newExpr.body.Value}
    (h : Production.newExpr.body.Each Clean Good value) :
    Good .newExpr (Production.newExpr.build pos value) := by
  obtain ⟨_, type, args, ⟨⟩⟩ := value
  obtain ⟨_, htype, hargs, _⟩ := h
  cases args with
  | none => exact ReadsBack.newCall htype (by simp)
  | some args =>
      refine ReadsBack.newCall htype ?_
      rw [exprs_eq, List.forall_mem_map]
      exact fun e he => (each_listItems hargs.2.1 e he).1

theorem good_build_functionExpr {value : Production.functionExpr.body.Value}
    (h : Production.functionExpr.body.Each Clean Good value) :
    Good .functionExpr (Production.functionExpr.build pos value) := by
  obtain ⟨_, _, hparams, _, _, hbody, _⟩ := h
  have hps := each_listItems hparams
  refine ReadsBack.functionExpr ?_ (.block ?_)
  · rw [List.forall_mem_map]
    exact fun p hp => .param (hps p hp).1
  · exact List.forall_mem_append.2 ⟨readsBack_defaults hps, hbody⟩

theorem good_build_arrayLiteral {value : Production.arrayLiteral.body.Value}
    (h : Production.arrayLiteral.body.Each Clean Good value) :
    Good .arrayLiteral (Production.arrayLiteral.build pos value) := by
  refine ReadsBack.array ?_
  rw [exprs_eq, List.forall_mem_map]
  exact fun e he => (each_listItems h.2.1 e he).1

theorem good_build_objectLiteral {value : Production.objectLiteral.body.Value}
    (h : Production.objectLiteral.body.Each Clean Good value) :
    Good .objectLiteral (Production.objectLiteral.build pos value) := by
  obtain ⟨_, ps, _, ⟨⟩⟩ := value
  have hps := each_listItems h.2.1
  refine ⟨.object ?_, fun hopens => ?_⟩
  · rw [properties_eq, List.forall_mem_map]
    exact fun p hp => (hps p hp).1
  · cases ps with
    | none => cases hopens
    | some items =>
        obtain ⟨⟨pos, key, e⟩, items, ⟨⟩⟩ := items
        exact ⟨_, _, rfl, fun _ => ⟨key, _, rfl, (hps _ List.mem_cons_self).2⟩⟩

theorem good_build_block {value : Production.block.body.Value}
    (h : Production.block.body.Each Clean Good value) :
    Good .block (Production.block.build pos value) := by
  obtain ⟨_, ss, _, ⟨⟩⟩ := value
  change ∀ s ∈ stmts ss, ReadsBack .stmt stmtStops s
  rw [stmts_eq, List.forall_mem_map]
  exact fun s hs => (h.2.1 s hs).1

theorem good_build_varDecl {value : Production.varDecl.body.Value}
    (h : Production.varDecl.body.Each Clean Good value) :
    Good .varDecl (Production.varDecl.build pos value) := by
  obtain ⟨keyword, name, type, init, ⟨⟩⟩ := value
  obtain ⟨_, hname, _, hvalue, _⟩ := h
  have hinit := each_defaulted hvalue
  change ReadsBack .varDecl _ (varDecl _)
  rw [varDecl_eq]
  exact .varDecl (each_kind hname) (readsBack_initial fun e he => (hinit e he).1)

theorem good_build_forInit {value : Production.forInit.body.Value}
    (h : Production.forInit.body.Each Clean Good value) :
    Good .forInit (Production.forInit.build pos value) := by
  rcases value with v | e | ⟨⟨⟩⟩
  · have hvar : ReadsBack .varDecl (":" :: exprStops) (varDecl v) := h
    change ReadsBack .forInit _ (.var (varDecl v))
    rw [varDecl_eq] at hvar ⊢
    exact .forVar hvar
  · exact ReadsBack.forExpr h.1

theorem good_build_ifStmt {value : Production.ifStmt.body.Value}
    (h : Production.ifStmt.body.Each Clean Good value) :
    Good .ifStmt (Production.ifStmt.build pos value) := by
  obtain ⟨_, _, cond, _, yes, no, ⟨⟩⟩ := value
  obtain ⟨_, _, hcond, _, hyes, hno, _⟩ := h
  refine ⟨.branchStmt hcond.1 hyes.2 ?_, fun b hb => by cases hb⟩
  intro s hs
  cases no with
  | none => cases hs
  | some other =>
      cases hs
      exact readsBack_chained hno.2.1.1 hno.2.1.2

theorem good_build_forStmt {value : Production.forStmt.body.Value}
    (h : Production.forStmt.body.Each Clean Good value) :
    Good .forStmt (Production.forStmt.build pos value) := by
  obtain ⟨_, _, init, _, cond, _, post, _, body, ⟨⟩⟩ := value
  obtain ⟨_, _, hinit, _, hcond, _, hpost, _, hbody, _⟩ := h
  refine ReadsBack.forLoop ?_ (readsBack_exprOption (each_option hcond))
    (readsBack_exprOption (each_option hpost)) hbody.2
  intro i hi
  cases init with
  | none => cases hi
  | some init =>
      cases hi
      exact hinit

theorem good_build_tryStmt {value : Production.tryStmt.body.Value}
    (h : Production.tryStmt.body.Each Clean Good value) :
    Good .tryStmt (Production.tryStmt.build pos value) := by
  obtain ⟨_, body, handler, final, ⟨⟩⟩ := value
  obtain ⟨_, hbody, hhandler, hfinal, _⟩ := h
  refine ⟨.attempt (.block hbody) ?_ ?_, fun b hb => by cases hb⟩
  · intro c hc
    cases handler with
    | none => cases hc
    | some handler =>
        cases hc
        exact hhandler
  · intro b hb
    cases final with
    | none => cases hb
    | some last =>
        cases hb
        exact .block hfinal.2.1

theorem good_build_stmt {stop : Position} {used rest : List Token}
    {value : Production.stmt.body.Value}
    (hmatch : Matches stop Production.stmt.body value (used ++ rest) rest)
    (hclean : ∀ t ∈ used, Clean t) (h : Production.stmt.body.Each Clean Good value) :
    Good .stmt (Production.stmt.build pos value) := by
  have hgood : ∀ {s : Stmt}, ReadsBack .stmt [] (stmt s) → Good .stmt s := fun h =>
    ⟨h.mono (by simp), readsBack_wrapped (h.mono (by simp)) fun _ _ => h⟩
  have hother : ∀ {s : Stmt}, ReadsBack .stmt stmtStops (stmt s) → (∀ b, stmt s ≠ .block b) →
      Good .stmt s := fun h hs => ⟨h, readsBack_wrapped h fun b hb => absurd hb (hs b)⟩
  rcases value with b | ⟨v, _, ⟨⟩⟩ | s | s | s | s | s | s | ⟨_, _, ⟨⟩⟩ | ⟨_, _, ⟨⟩⟩ | t |
    ⟨e, _, ⟨⟩⟩ | ⟨⟨⟩⟩
  · exact hgood (.ofBlock (.block h))
  · have hvar : ReadsBack .varDecl (":" :: exprStops) (varDecl v) := h.1
    refine hgood ?_
    change ReadsBack .stmt [] (.var (varDecl v))
    rw [varDecl_eq] at hvar ⊢
    exact .var hvar
  · exact hgood (.ofReturn h)
  · exact hother (.ofIf h.1) h.2
  · exact hgood (.ofWhile h)
  · exact hgood (.ofFor h)
  · exact hgood (.ofThrow h)
  · exact hother (.ofTry h.1) h.2
  · exact hgood .breaks
  · exact hgood .continues
  · exact hgood .empty
  · obtain ⟨used', heq, hspelled, _⟩ := Production.spelled_of_reads stop .stmt hmatch.call
    cases List.append_cancel_right heq
    have hopens : e.opensEmpty = false :=
      not_opensEmpty hmatch (fun b hb => by cases hb) hspelled fun t ht => (hclean t ht).1
    exact hgood (.exprStmt h.1.1 (h.1.2 hopens))

end

/-- Every production: when the normal forms of the parts are read back, so is that of the whole. -/
theorem good_build {stop : Position} {used rest : List Token} (p : Production) (pos : Position)
    {value : p.body.Value} (hmatch : Matches stop p.body value (used ++ rest) rest)
    (hclean : ∀ t ∈ used, Clean t) (h : p.body.Each Clean Good value) :
    Good p (p.build pos value) := by
  cases p with
  | file | importDecl | decl | classDecl | member | typeRef => trivial
  | qualifiedName => exact good_build_qualifiedName h
  | function => exact good_build_function h
  | param =>
      obtain ⟨hname, _, hvalue, _⟩ := h
      exact ⟨each_kind hname, fun e he => (each_defaulted hvalue e he).1⟩
  | expr => exact good_build_expr hmatch h
  | conditional => exact good_build_conditional h
  | binary => exact good_build_binary h
  | unary => exact good_build_unary h
  | postfixExpr => exact good_build_postfixExpr h
  | opTerm =>
      obtain ⟨hop, hoperand, _⟩ := h
      exact ReadsBack.opTerm (each_words hop) hoperand.1
  | suffixPart => exact good_build_suffixPart h
  | primary => exact good_build_primary h
  | newExpr => exact good_build_newExpr h
  | functionExpr => exact good_build_functionExpr h
  | arrayLiteral => exact good_build_arrayLiteral h
  | objectLiteral => exact good_build_objectLiteral h
  | property =>
      obtain ⟨hkey, _, hvalue, _⟩ := h
      exact ⟨.property (each_key hkey) hvalue.1, each_key hkey⟩
  | block => exact good_build_block h
  | varDecl => exact good_build_varDecl h
  | forInit => exact good_build_forInit h
  | returnStmt =>
      obtain ⟨_, hresult, _, _⟩ := h
      exact ReadsBack.returns (readsBack_exprOption (each_option hresult))
  | ifStmt => exact good_build_ifStmt h
  | whileStmt =>
      obtain ⟨_, _, hcond, _, hbody, _⟩ := h
      exact ReadsBack.whileLoop hcond.1 hbody.2
  | forStmt => exact good_build_forStmt h
  | throwStmt =>
      obtain ⟨_, hvalue, _, _⟩ := h
      exact ReadsBack.throws hvalue.1
  | catchClause =>
      obtain ⟨_, _, hname, _, _, hbody, _⟩ := h
      exact ReadsBack.catchClause (each_kind hname) (.block hbody)
  | tryStmt => exact good_build_tryStmt h
  | stmt => exact good_build_stmt hmatch hclean h

/-- The normal form of a function that has been read is read back. -/
theorem readsBack_function {stop : Position} {input rest : List Token} {f : Function}
    (h : Production.reads stop .function input = .matched f rest) :
    ∃ used, input = used ++ rest ∧
      ((∀ t ∈ used, Clean t) → ReadsBack .function [] (function f)) := by
  let R : Judgement := fun p node used => (∀ t ∈ used, Clean t) → Good p node
  refine Production.reads_induction stop (R := R) ?_ .function h
  intro p input value rest used hread hused hfits hclean
  subst hused
  exact good_build p _ hread hclean (Fits.each (fun _ _ _ h => h) p.body hfits hclean)

end Normal
end Emit
end ScriptWeave
