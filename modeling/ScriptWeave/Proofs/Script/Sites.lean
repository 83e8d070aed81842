import Mathlib.Data.List.Basic
import ScriptWeave.Proofs.Script.Occurrence

/-!
The sites of references. Every piece of code is listed with all that it directly holds, function
literals included, and so on down to the leaves; the sites of a file are the operands among these
whose primary is an identifier or a `new` expression, and the names after `extends`. The references
of a file stand at its sites, one at each, in the same order.
-/

namespace ScriptWeave
namespace Script

namespace Fragment

/-- The code of a function. -/
def ofFunction (params : List Param) (body : Block) : List Fragment :=
  params.flatMap (·.default.toList.map expr) ++ [block body]

/-- What a primary expression directly holds. -/
def ofPrimary : Primary → List Fragment
  | .newCall _ _ args => args.map expr
  | .function _ params _ body => ofFunction params body
  | .array _ elements => elements.map expr
  | .object _ properties => properties.map (expr ·.value)
  | .paren _ inner => [expr inner]
  | .number _ _ | .string _ _ | .bool _ _ | .null _ | .this _ | .super _ | .newBare _ _
  | .ident _ _ => []

/-- What a suffix directly holds. -/
def ofSuffix : Suffix → List Fragment
  | .member _ _ => []
  | .index _ key => [expr key]
  | .call _ args => args.map expr

def ofForInit : ForInit → Fragment
  | .var d => varDecl d
  | .expr e => expr e

/-- What a statement directly holds. -/
def ofStmt : Stmt → List Fragment
  | .block body => [block body]
  | .var d => [varDecl d]
  | .returns _ value => value.toList.map expr
  | .branch _ cond yes no => [expr cond] ++ [stmt yes] ++ no.toList.map stmt
  | .whileLoop _ cond body => [expr cond] ++ [stmt body]
  | .forLoop _ init cond post body =>
      init.toList.map ofForInit ++ cond.toList.map expr ++ post.toList.map expr ++ [stmt body]
  | .throws _ value => [expr value]
  | .attempt _ body clause final =>
      [block body] ++ clause.toList.map handler ++ final.toList.map block
  | .expr value => [expr value]
  | .breaks _ | .continues _ | .empty _ => []

/-- What a fragment directly holds, in reading order. -/
def parts : Fragment → List Fragment
  | expr (.value c) => [conditional c]
  | expr (.assign c _ e) => [conditional c] ++ [expr e]
  | conditional (.plain b) => [binary b]
  | conditional (.choice b yes no) => [binary b] ++ [expr yes] ++ [expr no]
  | binary b => [operand b.head.operand] ++ b.tail.map (operand ·.operand.operand)
  | operand p => ofPrimary p.primary ++ p.suffixes.flatMap ofSuffix
  | block b => b.stmts.map stmt
  | stmt s => ofStmt s
  | varDecl d => d.value.toList.map expr
  | handler clause => [block clause.body]

theorem sizeOf_of_mem_exprs {es : List Expr} {part : Fragment} (h : part ∈ es.map expr) :
    sizeOf part ≤ sizeOf es := by
  obtain ⟨e, he, rfl⟩ := List.mem_map.1 h
  have hlt := List.sizeOf_lt_of_mem he
  simp only [expr.sizeOf_spec]
  omega

theorem sizeOf_of_mem_option {e : Option Expr} {part : Fragment} (h : part ∈ e.toList.map expr) :
    sizeOf part ≤ sizeOf e := by
  cases e with
  | none => cases h
  | some e =>
      cases List.mem_singleton.1 h
      simp

theorem sizeOf_of_mem_forInit {init : Option ForInit} {part : Fragment}
    (h : part ∈ init.toList.map ofForInit) : sizeOf part ≤ sizeOf init := by
  cases init with
  | none => cases h
  | some init =>
      cases List.mem_singleton.1 h
      cases init with
      | var d => simp [ofForInit]
      | expr e => simp [ofForInit]

theorem sizeOf_of_mem_ofPrimary {primary : Primary} {part : Fragment}
    (h : part ∈ ofPrimary primary) : sizeOf part < 1 + sizeOf primary := by
  cases primary with
  | newCall pos type args =>
      have hle := sizeOf_of_mem_exprs h
      simp only [Primary.newCall.sizeOf_spec]
      omega
  | array pos elements =>
      have hle := sizeOf_of_mem_exprs h
      simp only [Primary.array.sizeOf_spec]
      omega
  | object pos properties =>
      obtain ⟨property, hmem, rfl⟩ := List.mem_map.1 h
      have hlt := List.sizeOf_lt_of_mem hmem
      cases property with
      | mk pos key value =>
          simp only [Property.mk.sizeOf_spec] at hlt
          simp only [Primary.object.sizeOf_spec, expr.sizeOf_spec]
          omega
  | paren pos inner =>
      cases List.mem_singleton.1 h
      simp only [Primary.paren.sizeOf_spec, expr.sizeOf_spec]
      omega
  | function pos params result body =>
      cases List.mem_append.1 h with
      | inl hdefault =>
          obtain ⟨param, hparam, hvalue⟩ := List.mem_flatMap.1 hdefault
          have hlt := List.sizeOf_lt_of_mem hparam
          cases param with
          | mk pos name type default =>
              have hle : sizeOf part ≤ sizeOf default := sizeOf_of_mem_option hvalue
              simp only [Param.mk.sizeOf_spec] at hlt
              simp only [Primary.function.sizeOf_spec]
              omega
      | inr hbody =>
          cases List.mem_singleton.1 hbody
          simp only [Primary.function.sizeOf_spec, block.sizeOf_spec]
          omega
  | number | string | bool | null | this | super | newBare | ident => cases h

theorem sizeOf_of_mem_ofSuffix {suffix : Suffix} {part : Fragment} (h : part ∈ ofSuffix suffix) :
    sizeOf part ≤ sizeOf suffix := by
  cases suffix with
  | member pos name => cases h
  | index pos key =>
      cases List.mem_singleton.1 h
      simp only [Suffix.index.sizeOf_spec, expr.sizeOf_spec]
      omega
  | call pos args =>
      have hle := sizeOf_of_mem_exprs h
      simp only [Suffix.call.sizeOf_spec]
      omega

theorem sizeOf_of_mem_ofStmt {s : Stmt} {part : Fragment} (h : part ∈ ofStmt s) :
    sizeOf part < 1 + sizeOf s := by
  cases s with
  | block body =>
      cases List.mem_singleton.1 h
      simp
  | var d =>
      cases List.mem_singleton.1 h
      simp
  | returns pos value =>
      have hle := sizeOf_of_mem_option h
      simp only [Stmt.returns.sizeOf_spec]
      omega
  | branch pos cond yes no =>
      simp only [Stmt.branch.sizeOf_spec]
      simp only [ofStmt, List.mem_append, List.mem_singleton] at h
      obtain (rfl | rfl) | hno := h
      · simp only [expr.sizeOf_spec]
        omega
      · simp only [stmt.sizeOf_spec]
        omega
      · cases no with
        | none => cases hno
        | some no =>
            cases List.mem_singleton.1 hno
            simp only [stmt.sizeOf_spec, Option.some.sizeOf_spec]
            omega
  | whileLoop pos cond body =>
      simp only [Stmt.whileLoop.sizeOf_spec]
      simp only [ofStmt, List.mem_append, List.mem_singleton] at h
      obtain rfl | rfl := h
      · simp only [expr.sizeOf_spec]
        omega
      · simp only [stmt.sizeOf_spec]
        omega
  | forLoop pos init cond post body =>
      simp only [Stmt.forLoop.sizeOf_spec]
      simp only [ofStmt, List.mem_append, List.mem_singleton] at h
      obtain ((hinit | hcond) | hpost) | rfl := h
      · have hle := sizeOf_of_mem_forInit hinit
        omega
      · have hle := sizeOf_of_mem_option hcond
        omega
      · have hle := sizeOf_of_mem_option hpost
        omega
      · simp only [stmt.sizeOf_spec]
        omega
  | throws pos value =>
      cases List.mem_singleton.1 h
      simp only [Stmt.throws.sizeOf_spec, expr.sizeOf_spec]
      omega
  | attempt pos body clause final =>
      simp only [Stmt.attempt.sizeOf_spec]
      simp only [ofStmt, List.mem_append, List.mem_singleton] at h
      obtain (rfl | hclause) | hfinal := h
      · simp only [block.sizeOf_spec]
        omega
      · cases clause with
        | none => cases hclause
        | some clause =>
            cases List.mem_singleton.1 hclause
            simp only [handler.sizeOf_spec, Option.some.sizeOf_spec]
            omega
      · cases final with
        | none => cases hfinal
        | some last =>
            cases List.mem_singleton.1 hfinal
            simp only [block.sizeOf_spec, Option.some.sizeOf_spec]
            omega
  | expr value =>
      cases List.mem_singleton.1 h
      simp
  | breaks | continues | empty => cases h

theorem sizeOf_lt_of_mem_parts {n part : Fragment} (h : part ∈ n.parts) :
    sizeOf part < sizeOf n := by
  cases n with
  | expr e =>
      cases e with
      | value c =>
          cases List.mem_singleton.1 h
          simp
      | assign c op e =>
          simp only [parts, List.mem_append, List.mem_singleton] at h
          obtain rfl | rfl := h
          · simp only [expr.sizeOf_spec, conditional.sizeOf_spec, Expr.assign.sizeOf_spec]
            omega
          · simp only [expr.sizeOf_spec, Expr.assign.sizeOf_spec]
            omega
  | conditional c =>
      cases c with
      | plain b =>
          cases List.mem_singleton.1 h
          simp
      | choice b yes no =>
          simp only [parts, List.mem_append, List.mem_singleton] at h
          simp only [conditional.sizeOf_spec, Conditional.choice.sizeOf_spec]
          obtain (rfl | rfl) | rfl := h
          · simp only [binary.sizeOf_spec]
            omega
          · simp only [expr.sizeOf_spec]
            omega
          · simp only [expr.sizeOf_spec]
            omega
  | binary b =>
      obtain ⟨⟨pos, ops, first⟩, tail⟩ := b
      simp only [binary.sizeOf_spec, Binary.mk.sizeOf_spec, Unary.mk.sizeOf_spec]
      cases List.mem_append.1 h with
      | inl hhead =>
          cases List.mem_singleton.1 hhead
          simp only [operand.sizeOf_spec]
          omega
      | inr htail =>
          obtain ⟨⟨pos', op, ⟨pos'', ops', next⟩⟩, hterm, rfl⟩ := List.mem_map.1 htail
          have hlt := List.sizeOf_lt_of_mem hterm
          simp only [OpTerm.mk.sizeOf_spec, Unary.mk.sizeOf_spec] at hlt
          simp only [operand.sizeOf_spec]
          omega
  | operand p =>
      obtain ⟨primary, suffixes, update⟩ := p
      simp only [operand.sizeOf_spec, Postfix.mk.sizeOf_spec]
      cases List.mem_append.1 h with
      | inl hprimary =>
          have hlt : sizeOf part < 1 + sizeOf primary := sizeOf_of_mem_ofPrimary hprimary
          omega
      | inr hsuffix =>
          obtain ⟨suffix, hmem, hpart⟩ := List.mem_flatMap.1 hsuffix
          have hlt : sizeOf suffix < sizeOf suffixes := List.sizeOf_lt_of_mem hmem
          have hle := sizeOf_of_mem_ofSuffix hpart
          omega
  | block b =>
      obtain ⟨pos, stmts⟩ := b
      obtain ⟨s, hs, rfl⟩ := List.mem_map.1 h
      have hlt : sizeOf s < sizeOf stmts := List.sizeOf_lt_of_mem hs
      simp only [block.sizeOf_spec, Block.mk.sizeOf_spec, stmt.sizeOf_spec]
      omega
  | stmt s =>
      rw [stmt.sizeOf_spec]
      exact sizeOf_of_mem_ofStmt h
  | varDecl d =>
      obtain ⟨pos, isConst, name, type, value⟩ := d
      have hle : sizeOf part ≤ sizeOf value := sizeOf_of_mem_option h
      simp only [varDecl.sizeOf_spec, VarDecl.mk.sizeOf_spec]
      omega
  | handler clause =>
      obtain ⟨pos, name, type, body⟩ := clause
      cases List.mem_singleton.1 h
      simp only [handler.sizeOf_spec, Catch.mk.sizeOf_spec, block.sizeOf_spec]
      omega

/-- The fragment and everything inside of it, in reading order. -/
def nodes (n : Fragment) : List Fragment :=
  n :: n.parts.attach.flatMap fun part => nodes part.1
termination_by sizeOf n
decreasing_by exact sizeOf_lt_of_mem_parts part.2

theorem nodes_eq (n : Fragment) : n.nodes = n :: n.parts.flatMap nodes := by
  rw [nodes, List.flatMap_subtype fun _ _ => rfl, List.unattach_attach]

/-- The reference that an operand with an identifier or a `new` expression makes. -/
def site? : Fragment → Option ReferenceKey
  | operand ⟨.ident pos _, _, _⟩ => some ⟨.ident, pos⟩
  | operand ⟨.newBare pos _, _, _⟩ | operand ⟨.newCall pos _ _, _, _⟩ => some ⟨.create, pos⟩
  | _ => none

/-- The sites of references inside of a fragment, in reading order. -/
def sites (n : Fragment) : List ReferenceKey := n.nodes.filterMap site?

theorem sites_eq (n : Fragment) : n.sites = n.site?.toList ++ n.parts.flatMap sites := by
  rw [sites, nodes_eq, List.filterMap_cons, List.filterMap_flatMap]
  cases n.site? with
  | none => rfl
  | some key => rfl

end Fragment

section

open Fragment

/-- The references of a fragment stand at its sites, whatever is around it. -/
def Fragment.Sited (n : Fragment) : Prop :=
  ∀ ctx, (n.references ctx).map (·.key) = n.sites

variable {ctx : Context}

theorem keys_single {n : Fragment} (h : ∀ part ∈ [n], part.Sited) :
    (n.references ctx).map (·.key) = [n].flatMap sites := by
  rw [List.flatMap_singleton]
  exact h n (List.mem_singleton_self n) ctx

theorem keys_exprs {es : List Expr} (h : ∀ part ∈ es.map expr, part.Sited) :
    (References.exprs ctx es).map (·.key) = (es.map expr).flatMap sites := by
  rw [References.exprs_eq, List.map_flatMap, List.flatMap_map]
  apply List.flatMap_congr
  intro e he
  exact h _ (List.mem_map.2 ⟨e, he, rfl⟩) ctx

theorem keys_exprOption {e : Option Expr} (h : ∀ part ∈ e.toList.map expr, part.Sited) :
    (References.exprOption ctx e).map (·.key) = (e.toList.map expr).flatMap sites := by
  cases e with
  | none => rfl
  | some e => exact keys_single h

theorem keys_function {params : List Param} {body : Block}
    (h : ∀ part ∈ ofFunction params body, part.Sited) :
    (References.params ctx params ++ References.block ctx body).map (·.key) =
      (ofFunction params body).flatMap sites := by
  rw [ofFunction, List.forall_mem_append] at h
  rw [ofFunction, List.map_append, List.flatMap_append, References.params_eq, List.map_flatMap,
    List.flatMap_assoc]
  congr 1
  · apply List.flatMap_congr
    intro param hparam
    apply keys_exprOption
    intro part hpart
    exact h.1 part (List.mem_flatMap.2 ⟨param, hparam, hpart⟩)
  · exact keys_single h.2

theorem keys_suffixParts {suffixes : List Suffix}
    (h : ∀ part ∈ suffixes.flatMap ofSuffix, part.Sited) :
    (References.suffixParts ctx suffixes).map (·.key) =
      (suffixes.flatMap ofSuffix).flatMap sites := by
  induction suffixes with
  | nil => rfl
  | cons suffix suffixes ih =>
      rw [List.flatMap_cons, List.forall_mem_append] at h
      rw [List.flatMap_cons, List.flatMap_append, ← ih h.2]
      cases suffix with
      | member pos name => rfl
      | index pos key =>
          rw [References.suffixParts, List.map_append]
          exact congrArg (· ++ _) (keys_single h.1)
      | call pos args =>
          rw [References.suffixParts, List.map_append]
          exact congrArg (· ++ _) (keys_exprs h.1)

theorem keys_primary {chain : List String} {p : Postfix}
    (h : ∀ part ∈ ofPrimary p.primary, part.Sited) :
    (References.primaryExpr ctx chain p.primary).map (·.key) =
      (operand p).site?.toList ++ (ofPrimary p.primary).flatMap sites := by
  obtain ⟨primary, suffixes, update⟩ := p
  cases primary with
  | newCall pos type args =>
      rw [References.primaryExpr, List.map_cons, keys_exprs h]
      rfl
  | function pos params result body => exact keys_function h
  | array pos elements => exact keys_exprs h
  | object pos properties =>
      rw [References.primaryExpr, References.properties_eq, List.map_flatMap]
      refine Eq.trans ?_ (List.flatMap_map _ _ _).symm
      apply List.flatMap_congr
      intro property hproperty
      exact h _ (List.mem_map.2 ⟨property, hproperty, rfl⟩) ctx
  | paren pos inner => exact keys_single h
  | number | string | bool | null | this | super | newBare | ident => rfl

theorem keys_stmtOption {s : Option Stmt} (h : ∀ part ∈ s.toList.map stmt, part.Sited) :
    (References.stmtOption ctx s).map (·.key) = (s.toList.map stmt).flatMap sites := by
  cases s with
  | none => rfl
  | some s => exact keys_single h

theorem keys_blockOption {b : Option Block} (h : ∀ part ∈ b.toList.map block, part.Sited) :
    (References.blockOption ctx b).map (·.key) = (b.toList.map block).flatMap sites := by
  cases b with
  | none => rfl
  | some b => exact keys_single h

theorem keys_catchOption {clause : Option Catch}
    (h : ∀ part ∈ clause.toList.map handler, part.Sited) :
    (References.catchOption ctx clause).map (·.key) =
      (clause.toList.map handler).flatMap sites := by
  cases clause with
  | none => rfl
  | some clause =>
      cases clause with
      | mk pos name type body => exact keys_single h

theorem keys_forInit {init : Option ForInit}
    (h : ∀ part ∈ init.toList.map ofForInit, part.Sited) :
    (References.forInit ctx init).map (·.key) = (init.toList.map ofForInit).flatMap sites := by
  cases init with
  | none => rfl
  | some init =>
      cases init with
      | var d => exact keys_single h
      | expr e => exact keys_single h

theorem keys_stmt {s : Stmt} (h : ∀ part ∈ ofStmt s, part.Sited) :
    (References.stmt ctx s).map (·.key) = (ofStmt s).flatMap sites := by
  cases s with
  | block body => exact keys_single h
  | var d => exact keys_single h
  | returns pos value => exact keys_exprOption h
  | branch pos cond yes no =>
      rw [ofStmt, List.forall_mem_append, List.forall_mem_append] at h
      obtain ⟨⟨hcond, hyes⟩, hno⟩ := h
      rw [References.stmt, List.map_append, List.map_append, ofStmt, List.flatMap_append,
        List.flatMap_append, keys_stmtOption hno, ← keys_single hcond, ← keys_single hyes]
      rfl
  | whileLoop pos cond body =>
      rw [ofStmt, List.forall_mem_append] at h
      rw [References.stmt, List.map_append, ofStmt, List.flatMap_append, ← keys_single h.1,
        ← keys_single h.2]
      rfl
  | forLoop pos init cond post body =>
      rw [ofStmt, List.forall_mem_append, List.forall_mem_append, List.forall_mem_append] at h
      obtain ⟨⟨⟨hinit, hcond⟩, hpost⟩, hbody⟩ := h
      rw [References.stmt, List.map_append, List.map_append, List.map_append, ofStmt,
        List.flatMap_append, List.flatMap_append, List.flatMap_append, keys_forInit hinit,
        keys_exprOption hcond, keys_exprOption hpost, ← keys_single hbody]
      rfl
  | throws pos value => exact keys_single h
  | attempt pos body clause final =>
      rw [ofStmt, List.forall_mem_append, List.forall_mem_append] at h
      obtain ⟨⟨hbody, hclause⟩, hfinal⟩ := h
      rw [References.stmt, List.map_append, List.map_append, ofStmt, List.flatMap_append,
        List.flatMap_append, keys_catchOption hclause, keys_blockOption hfinal,
        ← keys_single hbody]
      rfl
  | expr value => exact keys_single h
  | breaks | continues | empty => rfl

/-- A fragment all of whose parts have their references at their sites has them there too. -/
theorem sited_of_parts {n : Fragment} (h : ∀ part ∈ n.parts, part.Sited) : n.Sited := by
  intro ctx
  rw [sites_eq]
  cases n with
  | expr e =>
      cases e with
      | value c => exact keys_single h
      | assign c op e =>
          rw [parts, List.forall_mem_append] at h
          rw [references, References.expr, List.map_append, parts, List.flatMap_append,
            ← keys_single h.1, ← keys_single h.2]
          rfl
  | conditional c =>
      cases c with
      | plain b => exact keys_single h
      | choice b yes no =>
          rw [parts, List.forall_mem_append, List.forall_mem_append] at h
          obtain ⟨⟨htest, hyes⟩, hno⟩ := h
          rw [references, References.conditional, List.map_append, List.map_append, parts,
            List.flatMap_append, List.flatMap_append, ← keys_single htest, ← keys_single hyes,
            ← keys_single hno]
          rfl
  | binary b =>
      rw [parts, List.forall_mem_append] at h
      rw [references, References.binary_eq, References.opTerms_eq, List.map_append,
        List.map_flatMap, parts, List.flatMap_append, ← keys_single h.1, List.flatMap_map]
      refine congrArg (_ ++ ·) ?_
      apply List.flatMap_congr
      intro term hterm
      exact h.2 _ (List.mem_map.2 ⟨term, hterm, rfl⟩) ctx
  | operand p =>
      rw [parts, List.forall_mem_append] at h
      rw [references, References.postfixExpr_eq, List.map_append, keys_primary h.1,
        keys_suffixParts h.2, parts, List.flatMap_append, List.append_assoc]
  | block b =>
      rw [references, References.block_eq, List.map_flatMap, parts, List.flatMap_map]
      apply List.flatMap_congr
      intro s hs
      exact h _ (List.mem_map.2 ⟨s, hs, rfl⟩) ctx
  | stmt s => exact keys_stmt h
  | varDecl d =>
      rw [references, References.varDecl_eq]
      exact keys_exprOption h
  | handler clause => exact keys_single h

theorem sited (n : Fragment) : n.Sited :=
  sited_of_parts fun part _ => sited part
termination_by sizeOf n
decreasing_by exact sizeOf_lt_of_mem_parts ‹_›

end

/-- The code of a member. -/
def Member.code (m : Member) : List Fragment :=
  match m.body with
  | .method f => Fragment.ofFunction f.params f.body
  | .field v => [.varDecl v]

/-- The sites of references in a class: the name of its superclass, and those of its members. -/
def Class.sites (c : Class) : List ReferenceKey :=
  c.base.toList.map (⟨.base, ·.pos⟩) ++ c.members.flatMap (·.code.flatMap Fragment.sites)

def Decl.sites (d : Decl) : List ReferenceKey :=
  match d.body with
  | .type c => c.sites
  | .function f => (Fragment.ofFunction f.params f.body).flatMap Fragment.sites
  | .var v => (Fragment.varDecl v).sites

/-- The sites of references in a file, in reading order. -/
def File.sites (f : File) : List ReferenceKey := f.decls.flatMap Decl.sites

theorem Class.keys_references (c : Class) :
    (References.type c).map (·.key) = c.sites := by
  rw [References.type, sites, List.map_append, List.map_flatMap]
  congr 1
  · cases c.base with
    | none => rfl
    | some q => rfl
  · apply List.flatMap_congr
    intro m _
    rw [References.member, Member.code]
    cases m.body with
    | method f => exact keys_function fun part _ => sited part
    | field v => exact keys_single (n := .varDecl v) fun part _ => sited part

theorem Decl.keys_references (d : Decl) : (References.decl d).map (·.key) = d.sites := by
  rw [References.decl, sites]
  cases d.body with
  | type c => exact c.keys_references
  | function f => exact keys_function fun part _ => sited part
  | var v => exact sited (.varDecl v) .outer

/-- The references of a file stand at its sites, one at each. -/
theorem File.keys_references (f : File) : f.references.map (·.key) = f.sites := by
  rw [references, sites, List.map_flatMap]
  apply List.flatMap_congr
  intro d _
  exact d.keys_references

end Script
end ScriptWeave
