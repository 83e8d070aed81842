import Mathlib.Data.List.Basic
import ScriptWeave.Emit.Printer

/-!
What printing asks of a meaning. The text of a file depends on the meaning of its references alone,
and on which receivers are handed to nested functions: two meanings that spell all references of a
file alike print it alike. The statements follow the printer from expressions up to whole files.
-/

namespace ScriptWeave
namespace Emit

open Script
open Piece (line)

/-- How a meaning spells the name of a reference, and how many of its parts that takes up. A name
without meaning stands for itself. -/
def Meaning.spelling (m : Meaning) (r : Reference) : List Piece × Nat :=
  match m.binding? r.key with
  | none => ([.word r.first], if r.key.kind = .ident then 0 else 1)
  | some b => (target b.target, b.consume)

/-- Meanings that agree on a reference spell it alike. -/
theorem Meaning.spelling_congr {m m' : Meaning} {r : Reference}
    (h : m.binding? r.key = m'.binding? r.key) : m.spelling r = m'.spelling r := by
  rw [spelling, spelling, h]

/-- The references are spelled alike. -/
def Meaning.Alike (m m' : Meaning) (references : List Reference) : Prop :=
  ∀ r ∈ references, m.spelling r = m'.spelling r

theorem Meaning.alike_cons {m m' : Meaning} {r : Reference} {references : List Reference} :
    m.Alike m' (r :: references) ↔ m.spelling r = m'.spelling r ∧ m.Alike m' references :=
  List.forall_mem_cons

theorem Meaning.alike_append {m m' : Meaning} {before after : List Reference} :
    m.Alike m' (before ++ after) ↔ m.Alike m' before ∧ m.Alike m' after :=
  List.forall_mem_append

theorem typeName_eq (m : Meaning) {kind : ReferenceKind} (hkind : kind ≠ .ident) (pos : Position)
    (q : QualifiedName) (ctx : Context) :
    typeName m ⟨kind, pos⟩ q =
      match q.parts.drop (m.spelling (.ofType kind pos q ctx)).2 with
      | [] => (m.spelling (.ofType kind pos q ctx)).1
      | rest => (m.spelling (.ofType kind pos q ctx)).1 ++ .word "." :: dotted rest := by
  rw [typeName, Meaning.spelling, Reference.ofType]
  cases m.binding? ⟨kind, pos⟩ with
  | some b => rfl
  | none =>
      obtain ⟨_, first, rest⟩ := q
      cases rest with
      | nil => simp [hkind, QualifiedName.parts, dotted]
      | cons next rest => simp [hkind, QualifiedName.parts, dotted]

theorem postfixExpr_ident (m : Meaning) (d : Nat) (pos : Position) (name : String)
    (suffixes : List Suffix) (update : Option String) (members : List String) (ctx : Context) :
    postfixExpr m d ⟨.ident pos name, suffixes, update⟩ =
      (m.spelling ⟨⟨.ident, pos⟩, pos, name, members, ctx⟩).1 ++
        suffixParts m d (m.spelling ⟨⟨.ident, pos⟩, pos, name, members, ctx⟩).2 suffixes ++
        update.toList.map .word := by
  rw [postfixExpr, Meaning.spelling]
  cases m.binding? ⟨.ident, pos⟩ with
  | none => rfl
  | some b => rfl

variable {m m' : Meaning}

theorem typeName_congr {kind : ReferenceKind} (hkind : kind ≠ .ident) {q : QualifiedName}
    {pos : Position} {ctx : Context}
    (h : m.spelling (.ofType kind pos q ctx) = m'.spelling (.ofType kind pos q ctx)) :
    typeName m ⟨kind, pos⟩ q = typeName m' ⟨kind, pos⟩ q := by
  rw [typeName_eq m hkind pos q ctx, typeName_eq m' hkind pos q ctx, h]

mutual

theorem expr_congr (ctx : Context) (d : Nat) (e : Expr)
    (h : m.Alike m' (References.expr ctx e)) : expr m d e = expr m' d e := by
  cases e with
  | value cond =>
      rw [expr, expr, conditional_congr ctx d cond h]
  | assign lhs op value =>
      rw [References.expr, Meaning.alike_append] at h
      rw [expr, expr, conditional_congr ctx d lhs h.1, expr_congr ctx d value h.2]

theorem exprTail_congr (ctx : Context) (d : Nat) (es : List Expr)
    (h : m.Alike m' (References.exprs ctx es)) : exprTail m d es = exprTail m' d es := by
  cases es with
  | nil => rw [exprTail, exprTail]
  | cons e es =>
      rw [References.exprs, Meaning.alike_append] at h
      rw [exprTail, exprTail, expr_congr ctx d e h.1, exprTail_congr ctx d es h.2]

theorem exprs_congr (ctx : Context) (d : Nat) (es : List Expr)
    (h : m.Alike m' (References.exprs ctx es)) : exprs m d es = exprs m' d es := by
  cases es with
  | nil => rw [exprs, exprs]
  | cons e es =>
      rw [References.exprs, Meaning.alike_append] at h
      rw [exprs, exprs, expr_congr ctx d e h.1, exprTail_congr ctx d es h.2]

theorem exprOption_congr (ctx : Context) (d : Nat) (e : Option Expr)
    (h : m.Alike m' (References.exprOption ctx e)) :
    exprOption m d e = exprOption m' d e := by
  cases e with
  | none => rw [exprOption, exprOption]
  | some e => rw [exprOption, exprOption, expr_congr ctx d e h]

theorem conditional_congr (ctx : Context) (d : Nat) (c : Conditional)
    (h : m.Alike m' (References.conditional ctx c)) :
    conditional m d c = conditional m' d c := by
  cases c with
  | plain test => rw [conditional, conditional, binary_congr ctx d test h]
  | choice test yes no =>
      rw [References.conditional, Meaning.alike_append, Meaning.alike_append] at h
      obtain ⟨⟨htest, hyes⟩, hno⟩ := h
      rw [conditional, conditional, binary_congr ctx d test htest, expr_congr ctx d yes hyes,
        expr_congr ctx d no hno]

theorem binary_congr (ctx : Context) (d : Nat) (b : Binary)
    (h : m.Alike m' (References.binary ctx b)) : binary m d b = binary m' d b := by
  cases b with
  | mk head tail =>
      rw [References.binary, Meaning.alike_append] at h
      rw [binary, binary, unary_congr ctx d head h.1, opTerms_congr ctx d tail h.2]

theorem opTerms_congr (ctx : Context) (d : Nat) (terms : List OpTerm)
    (h : m.Alike m' (References.opTerms ctx terms)) :
    opTerms m d terms = opTerms m' d terms := by
  cases terms with
  | nil => rw [opTerms, opTerms]
  | cons term rest =>
      cases term with
      | mk pos op operand =>
          rw [References.opTerms, Meaning.alike_append] at h
          rw [opTerms, opTerms, unary_congr ctx d operand h.1, opTerms_congr ctx d rest h.2]

theorem unary_congr (ctx : Context) (d : Nat) (u : Unary)
    (h : m.Alike m' (References.unary ctx u)) : unary m d u = unary m' d u := by
  cases u with
  | mk pos ops operand => rw [unary, unary, postfixExpr_congr ctx d operand h]

theorem postfixExpr_congr (ctx : Context) (d : Nat) (p : Postfix)
    (h : m.Alike m' (References.postfixExpr ctx p)) :
    postfixExpr m d p = postfixExpr m' d p := by
  cases p with
  | mk primary suffixes update =>
      rw [References.postfixExpr, Meaning.alike_append] at h
      obtain ⟨hprimary, hparts⟩ := h
      have hsuffixes := fun n => suffixParts_congr ctx d n suffixes hparts
      have hinner := primaryExpr_congr ctx d _ primary hprimary
      cases primary with
      | super pos => rw [postfixExpr, postfixExpr, superExpr_congr ctx d suffixes hparts]
      | ident pos name =>
          have hname := hprimary _ (List.mem_singleton_self _)
          rw [postfixExpr_ident, postfixExpr_ident, hname, hsuffixes]
      | _ => simp only [postfixExpr, hinner, hsuffixes]

theorem superExpr_congr (ctx : Context) (d : Nat) (suffixes : List Suffix)
    (h : m.Alike m' (References.suffixParts ctx suffixes)) :
    superExpr m d suffixes = superExpr m' d suffixes := by
  cases suffixes with
  | nil => rw [superExpr, superExpr]
  | cons suffix rest =>
      cases suffix with
      | call pos args =>
          rw [References.suffixParts, Meaning.alike_append] at h
          rw [superExpr, superExpr, exprTail_congr ctx d args h.1,
            suffixParts_congr ctx d 0 rest h.2]
      | index pos key =>
          rw [References.suffixParts, Meaning.alike_append] at h
          rw [superExpr, superExpr, expr_congr ctx d key h.1, suffixParts_congr ctx d 0 rest h.2]
      | member pos name =>
          have hrest := suffixParts_congr ctx d 0 rest h
          cases rest with
          | nil => simp only [superExpr, hrest]
          | cons next rest =>
              cases next with
              | call pos args =>
                  rw [References.suffixParts, References.suffixParts, Meaning.alike_append] at h
                  rw [superExpr, superExpr, exprTail_congr ctx d args h.1,
                    suffixParts_congr ctx d 0 rest h.2]
              | index | member => simp only [superExpr, hrest]

theorem suffixParts_congr (ctx : Context) (d n : Nat) (suffixes : List Suffix)
    (h : m.Alike m' (References.suffixParts ctx suffixes)) :
    suffixParts m d n suffixes = suffixParts m' d n suffixes := by
  cases suffixes with
  | nil => rw [suffixParts, suffixParts]
  | cons suffix rest =>
      cases suffix with
      | member pos name =>
          cases n with
          | zero => rw [suffixParts, suffixParts, suffixParts_congr ctx d 0 rest h]
          | succ n => rw [suffixParts, suffixParts, suffixParts_congr ctx d n rest h]
      | index pos key =>
          rw [References.suffixParts, Meaning.alike_append] at h
          cases n with
          | zero =>
              rw [suffixParts, suffixParts, expr_congr ctx d key h.1,
                suffixParts_congr ctx d 0 rest h.2]
          | succ n => rw [suffixParts, suffixParts, suffixParts_congr ctx d n rest h.2]
      | call pos args =>
          rw [References.suffixParts, Meaning.alike_append] at h
          cases n with
          | zero =>
              rw [suffixParts, suffixParts, exprs_congr ctx d args h.1,
                suffixParts_congr ctx d 0 rest h.2]
          | succ n => rw [suffixParts, suffixParts, suffixParts_congr ctx d n rest h.2]

theorem primaryExpr_congr (ctx : Context) (d : Nat) (chain : List String) (p : Primary)
    (h : m.Alike m' (References.primaryExpr ctx chain p)) :
    primaryExpr m d p = primaryExpr m' d p := by
  cases p with
  | number | string | bool | null | this | super | ident => rw [primaryExpr, primaryExpr]
  | newBare pos type =>
      rw [primaryExpr, primaryExpr, typeName_congr (by decide) (h _ (List.mem_singleton_self _))]
  | newCall pos type args =>
      rw [References.primaryExpr, Meaning.alike_cons] at h
      rw [primaryExpr, primaryExpr, typeName_congr (by decide) h.1, exprs_congr ctx d args h.2]
  | function pos params result body =>
      rw [References.primaryExpr, Meaning.alike_append] at h
      rw [primaryExpr, primaryExpr, defaults_congr _ (d + 1) params h.1, block_congr _ d body h.2]
  | array pos elements => rw [primaryExpr, primaryExpr, exprs_congr ctx d elements h]
  | object pos properties =>
      cases properties with
      | nil => rw [primaryExpr, primaryExpr]
      | cons p ps =>
          cases p with
          | mk pos key value =>
              rw [References.primaryExpr, References.properties, Meaning.alike_append] at h
              rw [primaryExpr, primaryExpr, property, property, expr_congr ctx d value h.1,
                propertyTail_congr ctx d ps h.2]
  | paren pos inner => rw [primaryExpr, primaryExpr, expr_congr ctx d inner h]

theorem propertyTail_congr (ctx : Context) (d : Nat) (ps : List Property)
    (h : m.Alike m' (References.properties ctx ps)) :
    propertyTail m d ps = propertyTail m' d ps := by
  cases ps with
  | nil => rw [propertyTail, propertyTail]
  | cons p ps =>
      cases p with
      | mk pos key value =>
          rw [References.properties, Meaning.alike_append] at h
          rw [propertyTail, propertyTail, property, property, expr_congr ctx d value h.1,
            propertyTail_congr ctx d ps h.2]

theorem defaults_congr (ctx : Context) (d : Nat) (params : List Param)
    (h : m.Alike m' (References.params ctx params)) :
    defaults m d params = defaults m' d params := by
  cases params with
  | nil => rw [defaults, defaults]
  | cons param rest =>
      cases param with
      | mk pos name type default =>
          rw [References.params, Meaning.alike_append] at h
          cases default with
          | none => rw [defaults, defaults, defaults_congr ctx d rest h.2]
          | some value =>
              rw [defaults, defaults, expr_congr ctx (d + 1) value h.1,
                defaults_congr ctx d rest h.2]

theorem block_congr (ctx : Context) (d : Nat) (b : Block)
    (h : m.Alike m' (References.block ctx b)) : block m d b = block m' d b := by
  cases b with
  | mk pos body => rw [block, block, stmts_congr ctx (d + 1) body h]

theorem stmts_congr (ctx : Context) (d : Nat) (ss : List Stmt)
    (h : m.Alike m' (References.stmts ctx ss)) : stmts m d ss = stmts m' d ss := by
  cases ss with
  | nil => rw [stmts, stmts]
  | cons s ss =>
      rw [References.stmts, Meaning.alike_append] at h
      rw [stmts, stmts, stmt_congr ctx false d s h.1, stmts_congr ctx d ss h.2]

theorem stmt_congr (ctx : Context) (braced : Bool) (d : Nat) (s : Stmt)
    (h : m.Alike m' (References.stmt ctx s)) : stmt m braced d s = stmt m' braced d s := by
  cases s with
  | block body => rw [stmt, stmt, block_congr ctx d body h]
  | var decl => rw [stmt, stmt, varDecl_congr ctx _ decl h]
  | returns pos value =>
      cases value with
      | none => rw [stmt, stmt]
      | some e => rw [stmt, stmt, expr_congr ctx _ e h]
  | branch pos cond yes no =>
      rw [References.stmt, Meaning.alike_append, Meaning.alike_append] at h
      obtain ⟨⟨hcond, hyes⟩, hno⟩ := h
      rw [stmt, stmt, expr_congr ctx _ cond hcond, stmt_congr ctx true _ yes hyes,
        otherwise_congr ctx _ no hno]
  | whileLoop pos cond body =>
      rw [References.stmt, Meaning.alike_append] at h
      rw [stmt, stmt, expr_congr ctx _ cond h.1, stmt_congr ctx true _ body h.2]
  | forLoop pos init cond post body =>
      rw [References.stmt, Meaning.alike_append, Meaning.alike_append, Meaning.alike_append]
        at h
      obtain ⟨⟨⟨hinit, hcond⟩, hpost⟩, hbody⟩ := h
      rw [stmt, stmt, forInit_congr ctx _ init hinit, exprOption_congr ctx _ cond hcond,
        exprOption_congr ctx _ post hpost, stmt_congr ctx true _ body hbody]
  | throws pos value => rw [stmt, stmt, expr_congr ctx _ value h]
  | attempt pos body handler final =>
      rw [References.stmt, Meaning.alike_append, Meaning.alike_append] at h
      obtain ⟨⟨hbody, hhandler⟩, hfinal⟩ := h
      rw [stmt, stmt, block_congr ctx _ body hbody, catchOption_congr ctx _ handler hhandler,
        finallyOption_congr ctx _ final hfinal]
  | breaks | continues | empty => rw [stmt, stmt]
  | expr value => rw [stmt, stmt, expr_congr ctx _ value h]

theorem otherwise_congr (ctx : Context) (d : Nat) (s : Option Stmt)
    (h : m.Alike m' (References.stmtOption ctx s)) :
    otherwise m d s = otherwise m' d s := by
  cases s with
  | none => rw [otherwise, otherwise]
  | some s =>
      have hs := stmt_congr ctx true d s h
      cases s with
      | branch pos cond yes no =>
          rw [References.stmtOption, References.stmt, Meaning.alike_append,
            Meaning.alike_append] at h
          obtain ⟨⟨hcond, hyes⟩, hno⟩ := h
          rw [otherwise, otherwise, expr_congr ctx d cond hcond, stmt_congr ctx true d yes hyes,
            otherwise_congr ctx d no hno]
      | _ => simp only [otherwise, hs]

theorem forInit_congr (ctx : Context) (d : Nat) (init : Option ForInit)
    (h : m.Alike m' (References.forInit ctx init)) : forInit m d init = forInit m' d init := by
  cases init with
  | none => rw [forInit, forInit]
  | some init =>
      cases init with
      | var decl => rw [forInit, forInit, varDecl_congr ctx d decl h]
      | expr value => rw [forInit, forInit, expr_congr ctx d value h]

theorem catchOption_congr (ctx : Context) (d : Nat) (handler : Option Catch)
    (h : m.Alike m' (References.catchOption ctx handler)) :
    catchOption m d handler = catchOption m' d handler := by
  cases handler with
  | none => rw [catchOption, catchOption]
  | some handler =>
      cases handler with
      | mk pos name type body => rw [catchOption, catchOption, block_congr ctx d body h]

theorem finallyOption_congr (ctx : Context) (d : Nat) (final : Option Block)
    (h : m.Alike m' (References.blockOption ctx final)) :
    finallyOption m d final = finallyOption m' d final := by
  cases final with
  | none => rw [finallyOption, finallyOption]
  | some body => rw [finallyOption, finallyOption, block_congr ctx d body h]

theorem varDecl_congr (ctx : Context) (d : Nat) (v : VarDecl)
    (h : m.Alike m' (References.varDecl ctx v)) : varDecl m d v = varDecl m' d v := by
  cases v with
  | mk pos isConst name type value =>
      cases value with
      | some value => rw [varDecl, varDecl, expr_congr ctx d value h]
      | none => cases type <;> rw [varDecl, varDecl]

end

theorem function_congr {ctx : Context} {f : Function}
    (h : m.Alike m' (References.function ctx f)) (d : Nat)
    (header ending prologue : List Piece) :
    function m d header f.params f.body ending prologue =
      function m' d header f.params f.body ending prologue := by
  rw [References.function, Meaning.alike_append] at h
  rw [function, function, defaults_congr _ (d + 1) f.params h.1, block_congr _ d f.body h.2]

theorem mem_of_constructor? {c : Script.Class} {ctor : Function} (h : c.constructor? = some ctor) :
    ∃ member ∈ c.members, member.body = .method ctor := by
  obtain ⟨member, hmember, hctor⟩ := List.exists_of_findSome?_eq_some h
  refine ⟨member, hmember, ?_⟩
  split at hctor
  · next f hbody =>
      split at hctor
      · rw [hbody, Option.some.inj hctor]
      · cases hctor
  · cases hctor

theorem initialiser_congr {ctx : Context} {v : VarDecl}
    (h : m.Alike m' (References.varDecl ctx v)) (d : Nat) :
    initialiser m d v = initialiser m' d v := by
  cases v with
  | mk pos isConst name type value =>
      cases value with
      | none => rw [initialiser, initialiser]
      | some value =>
          rw [initialiser, initialiser]
          exact expr_congr ctx d value h

section

variable {c : Script.Class} (h : ∀ member ∈ c.members, m.Alike m' (References.member c member))
include h

theorem field_congr {member : Member} (hmember : member ∈ c.members) {v : VarDecl}
    (hv : member.body = .field v) (d : Nat) : initialiser m d v = initialiser m' d v := by
  have hreferences := h member hmember
  rw [References.member, hv] at hreferences
  exact initialiser_congr hreferences d

theorem method_congr {member : Member} (hmember : member ∈ c.members) {f : Function}
    (hf : member.body = .method f) (d : Nat) (header ending prologue : List Piece) :
    function m d header f.params f.body ending prologue =
      function m' d header f.params f.body ending prologue := by
  have hreferences := h member hmember
  rw [References.member, hf] at hreferences
  exact function_congr hreferences d header ending prologue

theorem instanceFields_congr (d : Nat) : instanceFields m d c = instanceFields m' d c := by
  rw [instanceFields, instanceFields]
  apply List.flatMap_congr
  intro member hmember
  cases hbody : member.body with
  | method f => rfl
  | field v => simp only [field_congr h hmember hbody]

theorem staticFields_congr (d : Nat) : staticFields m d c = staticFields m' d c := by
  rw [staticFields, staticFields]
  apply List.flatMap_congr
  intro member hmember
  cases hbody : member.body with
  | method f => rfl
  | field v => simp only [field_congr h hmember hbody]

variable (hcaptures : m.captures = m'.captures)
include hcaptures

theorem methods_congr (d : Nat) : methods m d c = methods m' d c := by
  rw [methods, methods]
  apply List.flatMap_congr
  intro member hmember
  cases hbody : member.body with
  | field v => rfl
  | method f => simp only [method_congr h hmember hbody, hcaptures]

theorem constructor_congr (d : Nat) : constructor m d c = constructor m' d c := by
  rw [constructor, constructor, instanceFields_congr h, hcaptures]
  cases hctor : c.constructor? with
  | none => rfl
  | some ctor =>
      obtain ⟨member, hmember, hbody⟩ := mem_of_constructor? hctor
      exact method_congr h hmember hbody d _ _ _

end

variable (hcaptures : m.captures = m'.captures)
include hcaptures

theorem type_congr {c : Script.Class} (h : m.Alike m' (References.type c)) (d : Nat) :
    type m d c = type m' d c := by
  rw [References.type, Meaning.alike_append] at h
  have hmembers : ∀ member ∈ c.members, m.Alike m' (References.member c member) := by
    intro member hmember r hr
    exact h.2 r (List.mem_flatMap.2 ⟨member, hmember, hr⟩)
  rw [type, type, constructor_congr hmembers hcaptures, methods_congr hmembers hcaptures,
    staticFields_congr hmembers]
  cases hbase : c.base with
  | none => rfl
  | some q =>
      rw [hbase] at h
      simp only [typeName_congr (by decide) (h.1 _ (List.mem_singleton_self _))]

theorem decl_congr {x : Decl} (h : m.Alike m' (References.decl x)) (d : Nat) :
    decl m d x = decl m' d x := by
  rw [References.decl] at h
  rw [decl, decl]
  cases hbody : x.body with
  | type c =>
      rw [hbody] at h
      exact type_congr hcaptures h d
  | function f =>
      rw [hbody] at h
      exact function_congr h d _ _ _
  | var v =>
      rw [hbody] at h
      exact congrArg (fun pieces => line d (pieces ++ [Piece.word ";"])) (varDecl_congr _ d v h)

/-- Meanings that spell all references of a file alike print the file alike. -/
theorem file_congr {f : File} (h : m.Alike m' f.references) (d : Nat) :
    file m d f = file m' d f := by
  rw [file, file]
  apply List.flatMap_congr
  intro x hx
  apply decl_congr hcaptures
  intro r hr
  exact h r (List.mem_flatMap.2 ⟨x, hx, hr⟩)

end Emit
end ScriptWeave
