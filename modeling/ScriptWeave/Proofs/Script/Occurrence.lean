import Mathlib.Logic.Relation
import ScriptWeave.Script.Reference

/-!
Where names stand. The parts of function bodies and initialisers form a relation that says for every
form of statement and expression what it directly holds; a function literal is left by it, and
entered by a step of its own that adds the literal to the functions around. Declarations and
identifiers are found by following these steps, and the scopes and the references of a file hold
exactly the names that are found so.
-/

namespace ScriptWeave
namespace Script

/-- A piece of a function body or of an initialiser. -/
inductive Fragment where
  | expr (e : Expr)
  | conditional (c : Conditional)
  | binary (b : Binary)
  | operand (p : Postfix)
  | block (b : Block)
  | stmt (s : Stmt)
  | varDecl (d : VarDecl)
  | handler (c : Catch)

namespace Fragment

/-- What a fragment directly holds, inside of the same function. -/
inductive Part : Fragment → Fragment → Prop where
  | value {c : Conditional} : Part (expr (.value c)) (conditional c)
  | target {c : Conditional} {op : String} {e : Expr} : Part (expr (.assign c op e)) (conditional c)
  | assigned {c : Conditional} {op : String} {e : Expr} : Part (expr (.assign c op e)) (expr e)
  | plain {b : Binary} : Part (conditional (.plain b)) (binary b)
  | test {b : Binary} {yes no : Expr} : Part (conditional (.choice b yes no)) (binary b)
  | yes {b : Binary} {yes no : Expr} : Part (conditional (.choice b yes no)) (expr yes)
  | no {b : Binary} {yes no : Expr} : Part (conditional (.choice b yes no)) (expr no)
  | head {b : Binary} : Part (binary b) (operand b.head.operand)
  | tail {b : Binary} {term : OpTerm} (h : term ∈ b.tail) :
      Part (binary b) (operand term.operand.operand)
  | key {p : Postfix} {pos : Position} {e : Expr} (h : .index pos e ∈ p.suffixes) :
      Part (operand p) (expr e)
  | argument {p : Postfix} {pos : Position} {args : List Expr} {e : Expr}
      (h : .call pos args ∈ p.suffixes) (he : e ∈ args) : Part (operand p) (expr e)
  | created {p : Postfix} {pos : Position} {type : QualifiedName} {args : List Expr} {e : Expr}
      (h : p.primary = .newCall pos type args) (he : e ∈ args) : Part (operand p) (expr e)
  | element {p : Postfix} {pos : Position} {es : List Expr} {e : Expr}
      (h : p.primary = .array pos es) (he : e ∈ es) : Part (operand p) (expr e)
  | property {p : Postfix} {pos : Position} {ps : List Property} {q : Property}
      (h : p.primary = .object pos ps) (hq : q ∈ ps) : Part (operand p) (expr q.value)
  | inner {p : Postfix} {pos : Position} {e : Expr} (h : p.primary = .paren pos e) :
      Part (operand p) (expr e)
  | item {body : Block} {s : Stmt} (h : s ∈ body.stmts) : Part (block body) (stmt s)
  | nested {body : Block} : Part (stmt (.block body)) (block body)
  | declared {d : VarDecl} : Part (stmt (.var d)) (varDecl d)
  | result {pos : Position} {e : Expr} : Part (stmt (.returns pos (some e))) (expr e)
  | branchTest {pos : Position} {e : Expr} {yes : Stmt} {no : Option Stmt} :
      Part (stmt (.branch pos e yes no)) (expr e)
  | branchThen {pos : Position} {e : Expr} {yes : Stmt} {no : Option Stmt} :
      Part (stmt (.branch pos e yes no)) (stmt yes)
  | branchElse {pos : Position} {e : Expr} {yes no : Stmt} :
      Part (stmt (.branch pos e yes (some no))) (stmt no)
  | whileTest {pos : Position} {e : Expr} {s : Stmt} : Part (stmt (.whileLoop pos e s)) (expr e)
  | whileBody {pos : Position} {e : Expr} {s : Stmt} : Part (stmt (.whileLoop pos e s)) (stmt s)
  | forVar {pos : Position} {d : VarDecl} {cond post : Option Expr} {s : Stmt} :
      Part (stmt (.forLoop pos (some (.var d)) cond post s)) (varDecl d)
  | forStart {pos : Position} {e : Expr} {cond post : Option Expr} {s : Stmt} :
      Part (stmt (.forLoop pos (some (.expr e)) cond post s)) (expr e)
  | forTest {pos : Position} {init : Option ForInit} {e : Expr} {post : Option Expr} {s : Stmt} :
      Part (stmt (.forLoop pos init (some e) post s)) (expr e)
  | forStep {pos : Position} {init : Option ForInit} {cond : Option Expr} {e : Expr} {s : Stmt} :
      Part (stmt (.forLoop pos init cond (some e) s)) (expr e)
  | forBody {pos : Position} {init : Option ForInit} {cond post : Option Expr} {s : Stmt} :
      Part (stmt (.forLoop pos init cond post s)) (stmt s)
  | thrown {pos : Position} {e : Expr} : Part (stmt (.throws pos e)) (expr e)
  | attempted {pos : Position} {body : Block} {clause : Option Catch} {final : Option Block} :
      Part (stmt (.attempt pos body clause final)) (block body)
  | caught {pos : Position} {body : Block} {clause : Catch} {final : Option Block} :
      Part (stmt (.attempt pos body (some clause) final)) (handler clause)
  | finished {pos : Position} {body : Block} {clause : Option Catch} {last : Block} :
      Part (stmt (.attempt pos body clause (some last))) (block last)
  | evaluated {e : Expr} : Part (stmt (.expr e)) (expr e)
  | initial {d : VarDecl} {e : Expr} (h : d.value = some e) : Part (varDecl d) (expr e)
  | handled {clause : Catch} : Part (handler clause) (block clause.body)

/-- A fragment lies inside of another one, in the same function. -/
abbrev Within : Fragment → Fragment → Prop := Relation.ReflTransGen Part

/-- The name that a variable or a catch clause declares. -/
inductive Names : Fragment → String → Prop where
  | declared {d : VarDecl} : Names (varDecl d) d.name
  | caught {clause : Catch} : Names (handler clause) clause.name

/-- The names that a fragment declares in the function around it. -/
def declaredNames : Fragment → List String
  | expr _ | conditional _ | binary _ | operand _ => []
  | block body => Stmt.Block.declared body
  | stmt s => s.declared
  | varDecl d => [d.name]
  | handler clause => Stmt.Catch.declaredOption (some clause)

theorem declared_of_mem {stmts : List Stmt} {s : Stmt} (h : s ∈ stmts) {x : String}
    (hx : x ∈ s.declared) :
    x ∈ Stmt.declaredAll stmts := by
  induction stmts with
  | nil => cases h
  | cons first rest ih =>
      rw [Stmt.declaredAll, List.mem_append]
      cases List.mem_cons.1 h with
      | inl heq => exact Or.inl (heq ▸ hx)
      | inr hrest => exact Or.inr (ih hrest)

theorem Part.declaredNames_subset {n n' : Fragment} (h : Part n n') {x : String}
    (hx : x ∈ n'.declaredNames) : x ∈ n.declaredNames := by
  cases h <;> try exact absurd hx List.not_mem_nil
  case item body s hs =>
    rcases body
    exact declared_of_mem hs hx
  case handled clause =>
    rcases clause
    exact List.mem_cons_of_mem _ hx
  all_goals
    simp only [declaredNames, Stmt.declared, Stmt.declaredOption, Stmt.Block.declaredOption,
      List.mem_append] at hx ⊢
    simp only [hx, true_or, or_true]

/-- The declaration of a name inside of a fragment. -/
def Declares (n : Fragment) (x : String) : Prop := ∃ n', Within n n' ∧ Names n' x

theorem Part.declares {n n' : Fragment} (h : Part n n') {x : String} (hx : n'.Declares x) :
    n.Declares x := by
  obtain ⟨n'', hwithin, hnames⟩ := hx
  exact ⟨n'', .head h hwithin, hnames⟩

theorem Names.declares {n : Fragment} {x : String} (h : Names n x) : n.Declares x :=
  ⟨n, .refl, h⟩

mutual

theorem declares_of_stmt (s : Stmt) {x : String} (hx : x ∈ s.declared) : (stmt s).Declares x := by
  cases s with
  | block body => exact Part.nested.declares (declares_of_block body hx)
  | var d =>
      cases List.mem_singleton.1 hx
      exact Part.declared.declares Names.declared.declares
  | branch pos cond yes no =>
      cases List.mem_append.1 hx with
      | inl hyes => exact Part.branchThen.declares (declares_of_stmt yes hyes)
      | inr hno =>
          cases no with
          | none => cases hno
          | some no => exact Part.branchElse.declares (declares_of_stmt no hno)
  | whileLoop pos cond body => exact Part.whileBody.declares (declares_of_stmt body hx)
  | forLoop pos init cond post body =>
      cases List.mem_append.1 hx with
      | inr hbody => exact Part.forBody.declares (declares_of_stmt body hbody)
      | inl hinit =>
          match init with
          | none | some (.expr _) => cases hinit
          | some (.var d) =>
              cases List.mem_singleton.1 hinit
              exact Part.forVar.declares Names.declared.declares
  | attempt pos body clause final =>
      rw [Stmt.declared, List.mem_append, List.mem_append] at hx
      obtain (hbody | hclause) | hfinal := hx
      · exact Part.attempted.declares (declares_of_block body hbody)
      · cases clause with
        | none => cases hclause
        | some clause =>
            obtain ⟨_, _, _, body'⟩ := clause
            refine Part.caught.declares ?_
            cases List.mem_cons.1 hclause with
            | inl hname => exact hname ▸ Names.caught.declares
            | inr hbody => exact Part.handled.declares (declares_of_block body' hbody)
      · cases final with
        | none => cases hfinal
        | some last => exact Part.finished.declares (declares_of_block last hfinal)
  | returns _ _ | throws _ _ | breaks _ | continues _ | empty _ | expr _ => cases hx

theorem declares_of_block (body : Block) {x : String} (hx : x ∈ Stmt.Block.declared body) :
    (block body).Declares x := by
  obtain ⟨pos, stmts⟩ := body
  obtain ⟨s, hs, hdeclares⟩ := declares_of_stmts stmts hx
  exact (Part.item hs).declares hdeclares

theorem declares_of_stmts (stmts : List Stmt) {x : String} (hx : x ∈ Stmt.declaredAll stmts) :
    ∃ s ∈ stmts, (stmt s).Declares x := by
  cases stmts with
  | nil => cases hx
  | cons s rest =>
      cases List.mem_append.1 hx with
      | inl hs => exact ⟨s, List.mem_cons_self, declares_of_stmt s hs⟩
      | inr hrest =>
          obtain ⟨s', hs', hdeclares⟩ := declares_of_stmts rest hrest
          exact ⟨s', List.mem_cons_of_mem _ hs', hdeclares⟩

end

/-- The names of a body are those of the declarations inside of it. -/
theorem mem_declared_iff (body : Block) (x : String) :
    x ∈ Stmt.Block.declared body ↔ (block body).Declares x := by
  refine ⟨declares_of_block body, ?_⟩
  rintro ⟨n, hwithin, hnames⟩
  have hn : x ∈ n.declaredNames := by
    cases hnames with
    | declared => exact List.mem_singleton_self _
    | @caught clause =>
        rcases clause
        exact List.mem_cons_self
  refine Relation.ReflTransGen.head_induction_on (motive := fun m _ => x ∈ m.declaredNames)
    hwithin hn ?_
  intro m m' hpart _ hm'
  exact hpart.declaredNames_subset hm'

/-- The references of a fragment. -/
def references (ctx : Context) : Fragment → List Reference
  | expr e => References.expr ctx e
  | conditional c => References.conditional ctx c
  | binary b => References.binary ctx b
  | operand p => References.postfixExpr ctx p
  | block body => References.block ctx body
  | stmt s => References.stmt ctx s
  | varDecl d => References.varDecl ctx d
  | handler clause => References.block ctx clause.body

end Fragment

namespace References

variable {ctx : Context}

theorem exprs_eq (es : List Expr) : exprs ctx es = es.flatMap (expr ctx) := by
  induction es with
  | nil => rfl
  | cons e es ih => rw [exprs, ih, List.flatMap_cons]

theorem opTerms_eq (terms : List OpTerm) :
    opTerms ctx terms = terms.flatMap fun term => postfixExpr ctx term.operand.operand := by
  induction terms with
  | nil => rfl
  | cons term terms ih =>
      obtain ⟨_, _, _, _, operand⟩ := term
      rw [opTerms, ih, unary, List.flatMap_cons]

theorem suffixParts_eq (parts : List Suffix) :
    suffixParts ctx parts = parts.flatMap fun
      | .member _ _ => []
      | .index _ key => expr ctx key
      | .call _ args => exprs ctx args := by
  induction parts with
  | nil => rfl
  | cons part parts ih => cases part <;> simp [suffixParts, ih]

theorem properties_eq (ps : List Property) :
    properties ctx ps = ps.flatMap fun p => expr ctx p.value := by
  induction ps with
  | nil => rfl
  | cons p ps ih =>
      obtain ⟨_, _, value⟩ := p
      rw [properties, ih, List.flatMap_cons]

theorem params_eq (ps : List Param) :
    params ctx ps = ps.flatMap fun p => exprOption ctx p.default := by
  induction ps with
  | nil => rfl
  | cons p ps ih =>
      obtain ⟨_, _, _, value⟩ := p
      rw [params, ih, List.flatMap_cons]

theorem stmts_eq (ss : List Stmt) : stmts ctx ss = ss.flatMap (stmt ctx) := by
  induction ss with
  | nil => rfl
  | cons s ss ih => rw [stmts, ih, List.flatMap_cons]

theorem forInit_none : forInit ctx none = [] := rfl

theorem catchOption_none : catchOption ctx none = [] := rfl

theorem unary_eq (u : Unary) : unary ctx u = postfixExpr ctx u.operand := by
  obtain ⟨_, _, operand⟩ := u
  rw [unary]

theorem binary_eq (b : Binary) :
    binary ctx b = postfixExpr ctx b.head.operand ++ opTerms ctx b.tail := by
  obtain ⟨⟨_, _, operand⟩, tail⟩ := b
  rw [binary, unary]

theorem postfixExpr_eq (p : Postfix) :
    postfixExpr ctx p = primaryExpr ctx p.memberChain p.primary ++ suffixParts ctx p.suffixes := by
  obtain ⟨primary, suffixes, update⟩ := p
  rw [postfixExpr, Postfix.memberChain]

theorem block_eq (b : Block) : block ctx b = b.stmts.flatMap (stmt ctx) := by
  obtain ⟨_, stmts⟩ := b
  rw [block, stmts_eq]

theorem varDecl_eq (d : VarDecl) : varDecl ctx d = exprOption ctx d.value := by
  obtain ⟨_, _, _, _, value⟩ := d
  rw [varDecl]

end References

open Fragment

variable {ctx : Context}

theorem Fragment.Part.references_subset {n n' : Fragment} (h : Part n n') {r : Reference}
    (hr : r ∈ n'.references ctx) : r ∈ n.references ctx := by
  cases h <;> simp only [references] at hr ⊢
  case head => exact References.binary_eq _ ▸ List.mem_append_left _ hr
  case tail term hterm =>
    rw [References.binary_eq, References.opTerms_eq]
    exact List.mem_append_right _ (List.mem_flatMap.2 ⟨term, hterm, hr⟩)
  case key hkey =>
    rw [References.postfixExpr_eq, References.suffixParts_eq]
    exact List.mem_append_right _ (List.mem_flatMap.2 ⟨_, hkey, hr⟩)
  case argument e hcall he =>
    rw [References.postfixExpr_eq, References.suffixParts_eq]
    refine List.mem_append_right _ (List.mem_flatMap.2 ⟨_, hcall, ?_⟩)
    simp only [References.exprs_eq]
    exact List.mem_flatMap.2 ⟨e, he, hr⟩
  case created e hnew he =>
    rw [References.postfixExpr_eq, hnew, References.primaryExpr, References.exprs_eq]
    exact List.mem_append_left _ (List.mem_cons_of_mem _ (List.mem_flatMap.2 ⟨e, he, hr⟩))
  case element e harray he =>
    rw [References.postfixExpr_eq, harray, References.primaryExpr, References.exprs_eq]
    exact List.mem_append_left _ (List.mem_flatMap.2 ⟨e, he, hr⟩)
  case property q hobject hq =>
    rw [References.postfixExpr_eq, hobject, References.primaryExpr, References.properties_eq]
    exact List.mem_append_left _ (List.mem_flatMap.2 ⟨q, hq, hr⟩)
  case inner hparen =>
    rw [References.postfixExpr_eq, hparen, References.primaryExpr]
    exact List.mem_append_left _ hr
  case item s hs => exact References.block_eq _ ▸ List.mem_flatMap.2 ⟨s, hs, hr⟩
  case initial hvalue =>
    rw [References.varDecl_eq, hvalue]
    exact hr
  case handled => exact hr
  case caught clause _ =>
    rcases clause
    simp only [References.stmt, References.catchOption, List.mem_append, hr, true_or, or_true]
  all_goals
    simp only [References.expr, References.conditional, References.stmt, References.exprOption,
      References.stmtOption, References.blockOption, References.forInit, List.mem_append, hr,
      true_or, or_true]

/-- A function around a piece of code. -/
structure Enclosing where
  params : List Param
  body : Block
  /-- Whether the function is a literal. -/
  literal : Bool

namespace Enclosing

def ofFunction (f : Function) : Enclosing := ⟨f.params, f.body, false⟩

/-- The code of a function: default values and the body. -/
inductive Part (f : Enclosing) : Fragment → Prop where
  | default {p : Param} {e : Expr} (hp : p ∈ f.params) (he : p.default = some e) : Part f (expr e)
  | body : Part f (block f.body)

/-- A function declares its parameters and the variables and caught names of its body. -/
def Declares (f : Enclosing) (x : String) : Prop :=
  (∃ p ∈ f.params, p.name = x) ∨ (block f.body).Declares x

def frame (f : Enclosing) : Frame := .ofFunction f.params f.body f.literal

theorem mem_frame_names (f : Enclosing) (x : String) : x ∈ f.frame.names ↔ f.Declares x := by
  rw [frame, Frame.ofFunction, List.mem_append, List.mem_map, mem_declared_iff]
  rfl

variable {fs : List Enclosing} {around : Option ClassContext}

theorem declares_context {x : String} :
    (⟨fs.map frame, around⟩ : Context).declares x = true ↔ ∃ f ∈ fs, f.Declares x := by
  simp only [Context.declares, List.any_map, List.any_eq_true, Function.comp,
    List.contains_iff_mem, mem_frame_names]

theorem insideClosure_context :
    (⟨fs.map frame, around⟩ : Context).insideClosure = true ↔ ∃ f ∈ fs, f.literal = true := by
  simp only [Context.insideClosure, List.any_map, List.any_eq_true, Function.comp]
  rfl

end Enclosing

/-- Code inside of a fragment, with the functions around the two. -/
inductive Reaches : List Enclosing → Fragment → List Enclosing → Fragment → Prop where
  | here {fs : List Enclosing} {n : Fragment} : Reaches fs n fs n
  | part {fs gs : List Enclosing} {n n' m : Fragment} (h : Part n n') (hm : Reaches fs n' gs m) :
      Reaches fs n gs m
  | literal {fs gs : List Enclosing} {p : Postfix} {pos : Position} {params : List Param}
      {result : Option TypeRef} {body : Block} {n m : Fragment}
      (hp : p.primary = .function pos params result body)
      (hn : Enclosing.Part ⟨params, body, true⟩ n)
      (hm : Reaches (⟨params, body, true⟩ :: fs) n gs m) :
      Reaches fs (operand p) gs m

/-- The code of a file, with the class and the function around it. -/
inductive File.Code (file : File) : Option Class → List Enclosing → Fragment → Prop where
  | global {d : Decl} {v : VarDecl} (hd : d ∈ file.decls) (hv : d.body = .var v) :
      Code file none [] (varDecl v)
  | function {d : Decl} {f : Function} {n : Fragment} (hd : d ∈ file.decls)
      (hf : d.body = .function f) (hn : (Enclosing.ofFunction f).Part n) :
      Code file none [.ofFunction f] n
  | field {d : Decl} {c : Class} {m : Member} {v : VarDecl} (hd : d ∈ file.decls)
      (hc : d.body = .type c) (hm : m ∈ c.members) (hv : m.body = .field v) :
      Code file (some c) [] (varDecl v)
  | method {d : Decl} {c : Class} {m : Member} {f : Function} {n : Fragment} (hd : d ∈ file.decls)
      (hc : d.body = .type c) (hm : m ∈ c.members) (hf : m.body = .method f)
      (hn : (Enclosing.ofFunction f).Part n) : Code file (some c) [.ofFunction f] n

/-- An identifier of an expression where it stands. -/
structure Occurrence where
  name : String
  pos : Position
  /-- The members that directly follow. -/
  members : List String
  /-- The functions around the identifier, the innermost first. -/
  functions : List Enclosing
  /-- The class around the identifier. -/
  type : Option Class

/-- The file has the identifier. -/
def File.Mentions (file : File) (o : Occurrence) : Prop :=
  ∃ fs n p, file.Code o.type fs n ∧ Reaches fs n o.functions (operand p) ∧
    p.primary = .ident o.pos o.name ∧ p.memberChain = o.members

theorem Enclosing.Part.references_subset {f : Enclosing} {n : Fragment} (h : f.Part n)
    {r : Reference} (hr : r ∈ n.references ctx) :
    r ∈ References.params ctx f.params ++ References.block ctx f.body := by
  cases h with
  | default hp he =>
      rw [References.params_eq]
      refine List.mem_append_left _ (List.mem_flatMap.2 ⟨_, hp, ?_⟩)
      rw [he]
      exact hr
  | body => exact List.mem_append_right _ hr

theorem Reaches.references_subset {around : Option ClassContext} {fs gs : List Enclosing}
    {n m : Fragment} (h : Reaches fs n gs m) {r : Reference}
    (hr : r ∈ m.references ⟨gs.map Enclosing.frame, around⟩) :
    r ∈ n.references ⟨fs.map Enclosing.frame, around⟩ := by
  induction h with
  | here => exact hr
  | part h _ ih => exact h.references_subset (ih hr)
  | literal hp hn _ ih =>
      rw [references, References.postfixExpr_eq, hp, References.primaryExpr]
      exact List.mem_append_left _ (hn.references_subset (ih hr))

/-- The class around a piece of code, as a context has it. -/
def Class.Around (type : Option Class) (around : Option ClassContext) : Prop :=
  ∃ owner, around = type.map fun c => ⟨c.name, c.memberNames, c.base.isSome, owner⟩

/-- Where the code of a file stands. -/
inductive Home where
  | global (v : VarDecl)
  | function (f : Function)
  | method (c : Class) (f : Function)
  | field (c : Class) (isStatic : Bool) (v : VarDecl)

namespace Home

/-- The class around the home. -/
def type? : Home → Option Class
  | global _ | function _ => none
  | method c _ | field c _ _ => some c

/-- The class as the context of the references at the home has it. -/
def around : Home → Option ClassContext
  | global _ | function _ => none
  | method c f => (c.context (.method f.pos)).around
  | field c _ _ => (c.context (.fields c.pos)).around

/-- The function that the home is. -/
def functions : Home → List Enclosing
  | function f | method _ f => [.ofFunction f]
  | global _ | field _ _ _ => []

/-- The code at the home. -/
def Code : Home → Fragment → Prop
  | function f, n | method _ f, n => (Enclosing.ofFunction f).Part n
  | global v, n | field _ _ v, n => n = varDecl v

theorem around_type? (h : Home) : Class.Around h.type? h.around := by
  cases h with
  | global v => exact ⟨.fields v.pos, rfl⟩
  | function f => exact ⟨.fields f.pos, rfl⟩
  | method c f => exact ⟨.method f.pos, rfl⟩
  | field c isStatic v => exact ⟨.fields c.pos, rfl⟩

end Home

/-- The homes of a file. -/
inductive File.Has (file : File) : Home → Prop where
  | global {d : Decl} {v : VarDecl} (hd : d ∈ file.decls) (hv : d.body = .var v) :
      Has file (.global v)
  | function {d : Decl} {f : Function} (hd : d ∈ file.decls) (hf : d.body = .function f) :
      Has file (.function f)
  | method {d : Decl} {c : Class} {m : Member} {f : Function} (hd : d ∈ file.decls)
      (hc : d.body = .type c) (hm : m ∈ c.members) (hf : m.body = .method f) :
      Has file (.method c f)
  | field {d : Decl} {c : Class} {m : Member} {isStatic : Bool} {v : VarDecl} (hd : d ∈ file.decls)
      (hc : d.body = .type c) (hm : m ∈ c.members) (hstatic : m.isStatic = isStatic)
      (hv : m.body = .field v) : Has file (.field c isStatic v)

theorem File.Has.references_subset {file : File} {home : Home} (h : file.Has home) {n : Fragment}
    (hn : home.Code n) {r : Reference}
    (hr : r ∈ n.references ⟨home.functions.map Enclosing.frame, home.around⟩) :
    r ∈ file.references := by
  have hdecl {d : Decl} (hd : d ∈ file.decls) (hr : r ∈ References.decl d) : r ∈ file.references :=
    List.mem_flatMap.2 ⟨d, hd, hr⟩
  have hmember {d : Decl} {c : Class} {m : Member} (hd : d ∈ file.decls) (hc : d.body = .type c)
      (hm : m ∈ c.members) (hr : r ∈ References.member c m) : r ∈ file.references := by
    refine hdecl hd ?_
    rw [References.decl, hc]
    exact List.mem_append_right _ (List.mem_flatMap.2 ⟨m, hm, hr⟩)
  cases h with
  | global hd hv =>
      cases hn
      refine hdecl hd ?_
      rw [References.decl, hv]
      exact hr
  | function hd hf =>
      refine hdecl hd ?_
      rw [References.decl, hf]
      exact Enclosing.Part.references_subset hn hr
  | method hd hc hm hf =>
      refine hmember hd hc hm ?_
      rw [References.member, hf]
      exact Enclosing.Part.references_subset hn hr
  | field hd hc hm _ hv =>
      cases hn
      refine hmember hd hc hm ?_
      rw [References.member, hv]
      exact hr

theorem File.Code.exists_home {file : File} {type : Option Class} {fs : List Enclosing}
    {n : Fragment} (h : file.Code type fs n) :
    ∃ home, file.Has home ∧ home.Code n ∧ home.functions = fs ∧ home.type? = type := by
  cases h with
  | global hd hv => exact ⟨_, .global hd hv, rfl, rfl, rfl⟩
  | function hd hf hn => exact ⟨_, .function hd hf, hn, rfl, rfl⟩
  | field hd hc hm hv => exact ⟨_, .field hd hc hm rfl hv, rfl, rfl, rfl⟩
  | method hd hc hm hf hn => exact ⟨_, .method hd hc hm hf, hn, rfl, rfl⟩

/-- The references of a piece of code are references of the file, in a context that has the class
around. -/
theorem File.Code.references_subset {file : File} {type : Option Class} {fs : List Enclosing}
    {n : Fragment} (h : file.Code type fs n) : ∃ around, Class.Around type around ∧
      ∀ r ∈ n.references ⟨fs.map Enclosing.frame, around⟩, r ∈ file.references := by
  obtain ⟨home, hhome, hn, rfl, rfl⟩ := h.exists_home
  exact ⟨home.around, home.around_type?, fun r hr => hhome.references_subset hn hr⟩

/-- The reference of an identifier, in its context. -/
theorem File.Mentions.reference {file : File} {o : Occurrence} (h : file.Mentions o) :
    ∃ around : Option ClassContext, Class.Around o.type around ∧
      (⟨⟨.ident, o.pos⟩, o.pos, o.name, o.members, ⟨o.functions.map Enclosing.frame, around⟩⟩ :
        Reference) ∈ file.references := by
  obtain ⟨fs, n, p, hcode, hreaches, hident, hmembers⟩ := h
  obtain ⟨around, haround, hsubset⟩ := hcode.references_subset
  refine ⟨around, haround, hsubset _ (hreaches.references_subset ?_)⟩
  rw [Fragment.references, References.postfixExpr_eq, hident, hmembers, References.primaryExpr]
  exact List.mem_cons_self

end Script
end ScriptWeave
