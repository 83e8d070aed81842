import Mathlib.Data.List.Basic
import Mathlib.Data.List.Nodup
import ScriptWeave.Proofs.Script.Fuel
import ScriptWeave.Proofs.Script.Lexing
import ScriptWeave.Proofs.Script.Occurrence

/-!
The places of references and of methods. The references of a node that is read stand at tokens of
the node, in reading order and no two at one token, so in a parsed file a reference is known by its
place; and so is a method of a class.
-/

namespace ScriptWeave
namespace Script

/-- What the references of a node depend on besides the node itself. -/
structure Surroundings where
  context : Context
  type : Class
  members : List String

namespace Production

/-- The references of a node. -/
def references (a : Surroundings) : (p : Production) → p.Node → List Reference
  | file, node => node.references
  | qualifiedName, q => [.ofType .base q.pos q .outer]
  | importDecl, _ | typeRef, _ => []
  | decl, d => References.decl d
  | classDecl, c => References.type c
  | member, m => References.member a.type m
  | function, f => References.function a.context f
  | param, p => References.exprOption a.context p.default
  | expr, e => References.expr a.context e
  | conditional, c => References.conditional a.context c
  | binary, b => References.binary a.context b
  | unary, u => References.unary a.context u
  | postfixExpr, p => References.postfixExpr a.context p
  | primary, e | newExpr, e | functionExpr, e | arrayLiteral, e | objectLiteral, e =>
      References.primaryExpr a.context a.members e
  | block, b => References.block a.context b
  | stmt, s | returnStmt, s | ifStmt, s | whileStmt, s | forStmt, s | throwStmt, s | tryStmt, s =>
      References.stmt a.context s
  | varDecl, d => References.varDecl a.context d
  | forInit, i => References.forInit a.context (some i)
  | catchClause, c => References.catchOption a.context (some c)
  | property, p => References.expr a.context p.value
  | suffixPart, part => References.suffixParts a.context [part]
  | opTerm, term => References.unary a.context term.operand

/-- The references of the called nodes of a match that are no bare names of types. -/
def innerReferences (a : Surroundings) : (p : Production) → p.Node → List Reference
  | qualifiedName, _ => []
  | p, node => references a p node

end Production

open Gram Production

theorem flatMap_none {α β : Type} (as : List α) : as.flatMap (fun _ => ([] : List β)) = [] := by
  simp

theorem collect_commaList (part : (p : Production) → p.Node → List Reference) {p : Production}
    (value : (commaList p).Value) :
    (commaList p).collect (fun _ => []) part value = (listItems value).flatMap (part p) := by
  cases value with
  | none => rfl
  | some items => simp [collect, collectAll, listItems, List.flatMap_map]

theorem collect_defaultValue (a : Surroundings) (value : defaultValue.Value) :
    defaultValue.collect (fun _ => []) (innerReferences a) value =
      References.exprOption a.context (defaulted value) := by
  cases value <;> simp [collect, collectAll, defaulted, innerReferences, references,
    References.exprOption]

theorem collect_typeMark (a : Surroundings) (value : typeMark.Value) :
    typeMark.collect (fun _ => []) (innerReferences a) value = [] := by
  cases value <;> simp [collect, collectAll, innerReferences, references]

/-- The references stand at some of the places, in order. -/
def StandAt (rs : List Reference) (places : List Position) : Prop :=
  (rs.map (·.key.pos)).Sublist places

namespace StandAt

theorem empty (places : List Position) : StandAt [] places := List.nil_sublist places

theorem append {rs rs' : List Reference} {places places' : List Position} (h : StandAt rs places)
    (h' : StandAt rs' places') : StandAt (rs ++ rs') (places ++ places') := by
  rw [StandAt, List.map_append]
  exact List.Sublist.append h h'

theorem cons {r : Reference} {rs : List Reference} {places : List Position}
    (h : StandAt rs places) : StandAt (r :: rs) (r.key.pos :: places) :=
  List.Sublist.cons_cons _ h

end StandAt

/-- The references of a node stand at tokens of it. -/
def Placed : Judgement := fun p node used =>
  ∀ a, StandAt (references a p node) (used.flatMap fun t => [t.pos])

theorem Placed.innerReferences {p : Production} {node : p.Node} {used : List Token}
    (h : Placed p node used) (a : Surroundings) :
    StandAt (Production.innerReferences a p node) (used.flatMap fun t => [t.pos]) := by
  cases p with
  | qualifiedName => exact .empty _
  | _ => exact h a

theorem Gram.Fits.placed {g : Gram} {value : g.Value} {used : List Token}
    (h : g.Fits Placed value used) (a : Surroundings) :
    StandAt (g.collect (fun _ => []) (innerReferences a) value) (used.flatMap fun t => [t.pos]) :=
  h.collect (.empty []) .append (fun _ => .empty _) fun _ _ _ hnode => hnode.innerReferences a

theorem Gram.FitsAll.placed {gs : List Gram} {values : ValueAll gs} {used : List Token}
    (h : FitsAll Placed gs values used) (a : Surroundings) :
    StandAt (collectAll (fun _ => []) (innerReferences a) gs values)
      (used.flatMap fun t => [t.pos]) :=
  h.collect (.empty []) .append (fun _ => .empty _) fun _ _ _ hnode => hnode.innerReferences a

theorem innerReferences_param (a : Surroundings) :
    innerReferences a param = fun p => References.exprOption a.context p.default := rfl

theorem innerReferences_expr (a : Surroundings) :
    innerReferences a expr = References.expr a.context := rfl

theorem innerReferences_property (a : Surroundings) :
    innerReferences a property = fun p => References.expr a.context p.value := rfl

section

attribute [local simp] references innerReferences build collect collectAll collectAny

variable {a : Surroundings} {pos : Position} {used : List Token}

theorem placed_build_file {value : Production.file.body.Value}
    (h : Production.file.body.Fits Placed value used) :
    StandAt (references a .file (Production.file.build pos value))
      (used.flatMap fun t => [t.pos]) := by
  have hplaced := h.placed a
  obtain ⟨_, package, _, imports, decls, _, ⟨⟩⟩ := value
  cases package <;> simpa [flatMap_none, File.references] using hplaced

theorem placed_build_decl {value : Production.decl.body.Value}
    (h : Production.decl.body.Fits Placed value used) :
    StandAt (references a .decl (Production.decl.build pos value))
      (used.flatMap fun t => [t.pos]) := by
  have houter := h.placed ⟨.outer, a.type, a.members⟩
  obtain ⟨modifiers, body, ⟨⟩⟩ := value
  rcases body with c | f | ⟨v, _, ⟨⟩⟩ | ⟨⟨⟩⟩ <;> simpa [flatMap_none, References.decl] using houter

theorem placed_build_classDecl {value : Production.classDecl.body.Value}
    (h : Production.classDecl.body.Fits Placed value used) :
    StandAt (references a .classDecl (Production.classDecl.build pos value))
      (used.flatMap fun t => [t.pos]) := by
  let c := build classDecl pos value
  have htypes : StandAt
      (classDecl.body.collect (fun _ => []) (references ⟨a.context, c, a.members⟩) value)
      (used.flatMap fun t => [t.pos]) :=
    h.collect (.empty []) .append (fun _ => .empty _) fun _ _ _ hnode => hnode _
  refine List.Sublist.trans (List.Sublist.map _ ?_) htypes
  obtain ⟨_, name, base, interfaces, _, members, _, ⟨⟩⟩ := value
  cases base <;> simp [References.type, c]

theorem placed_build_member {value : Production.member.body.Value}
    (h : Production.member.body.Fits Placed value used) :
    StandAt (references a .member (Production.member.build pos value))
      (used.flatMap fun t => [t.pos]) := by
  obtain ⟨modifiers, body, ⟨⟩⟩ := value
  rcases body with f | ⟨v, _, ⟨⟩⟩ | ⟨⟨⟩⟩
  · have hmethod := h.placed ⟨a.type.context (.method f.pos), a.type, a.members⟩
    simpa [flatMap_none, References.member] using hmethod
  · have hfield := h.placed ⟨a.type.context (.fields a.type.pos), a.type, a.members⟩
    simpa [flatMap_none, References.member] using hfield

theorem placed_build_function {value : Production.function.body.Value}
    (h : Production.function.body.Fits Placed value used) :
    StandAt (references a .function (Production.function.build pos value))
      (used.flatMap fun t => [t.pos]) := by
  obtain ⟨_, _, _, params, _, result, body, ⟨⟩⟩ := value
  have hinner := h.placed
    ⟨a.context.push (.ofFunction (listItems params) body false), a.type, a.members⟩
  simp only [references, build, References.function, References.params_eq]
  simpa only [collect, collectAll, collect_commaList, collect_typeMark, innerReferences_param,
    innerReferences, references, List.nil_append, List.append_nil] using hinner

theorem placed_build_expr {value : Production.expr.body.Value}
    (h : Production.expr.body.Fits Placed value used) :
    StandAt (references a .expr (Production.expr.build pos value))
      (used.flatMap fun t => [t.pos]) := by
  have hplaced := h.placed a
  obtain ⟨target, assignment, ⟨⟩⟩ := value
  cases assignment <;> simpa [References.expr] using hplaced

theorem placed_build_conditional {value : Production.conditional.body.Value}
    (h : Production.conditional.body.Fits Placed value used) :
    StandAt (references a .conditional (Production.conditional.build pos value))
      (used.flatMap fun t => [t.pos]) := by
  have hplaced := h.placed a
  obtain ⟨test, choice, ⟨⟩⟩ := value
  cases choice <;> simpa [References.conditional] using hplaced

theorem placed_build_postfixExpr {value : Production.postfixExpr.body.Value}
    (h : Production.postfixExpr.body.Fits Placed value used) :
    StandAt (references a .postfixExpr (Production.postfixExpr.build pos value))
      (used.flatMap fun t => [t.pos]) := by
  obtain ⟨inner, suffixes, update, ⟨⟩⟩ := value
  have hchain := h.placed ⟨a.context, a.type, Postfix.memberChain.chain suffixes⟩
  cases update <;> simpa [References.postfixExpr, References.suffixParts_eq] using hchain

theorem placed_build_primary {value : Production.primary.body.Value}
    (h : Production.primary.body.Fits Placed value used)
    (hpos : ∃ t rest, used = t :: rest ∧ t.pos = pos) :
    StandAt (references a .primary (Production.primary.build pos value))
      (used.flatMap fun t => [t.pos]) := by
  have hplaced := h.placed a
  obtain ⟨t, rest, rfl, rfl⟩ := hpos
  rcases value with u | u | u | u | u | u | e | e | e | e | u | ⟨_, e, _, ⟨⟩⟩ | ⟨⟨⟩⟩
  iterate 6 exact .empty _
  iterate 4 simpa using hplaced
  · exact .cons (.empty _)
  · simpa [References.primaryExpr] using hplaced

theorem placed_build_newExpr {value : Production.newExpr.body.Value}
    (h : Production.newExpr.body.Fits Placed value used)
    (hpos : ∃ t rest, used = t :: rest ∧ t.pos = pos) :
    StandAt (references a .newExpr (Production.newExpr.build pos value))
      (used.flatMap fun t => [t.pos]) := by
  obtain ⟨t, type, args, ⟨⟩⟩ := value
  obtain ⟨_, back, rfl, ⟨rfl, _⟩, hback⟩ := h
  obtain ⟨_, _, heq, rfl⟩ := hpos
  cases heq
  have hargs := hback.placed a
  cases args with
  | none => exact .cons (.empty _)
  | some args =>
      have hitems : StandAt (References.exprs a.context (listItems args.2.1))
          (back.flatMap fun t => [t.pos]) := by
        simpa [collect_commaList, innerReferences_expr, References.exprs_eq] using hargs
      exact .cons hitems

theorem placed_build_functionExpr {value : Production.functionExpr.body.Value}
    (h : Production.functionExpr.body.Fits Placed value used) :
    StandAt (references a .functionExpr (Production.functionExpr.build pos value))
      (used.flatMap fun t => [t.pos]) := by
  obtain ⟨_, _, params, _, result, body, ⟨⟩⟩ := value
  have hinner := h.placed
    ⟨a.context.push (.ofFunction (listItems params) body true), a.type, a.members⟩
  simp only [references, build, References.primaryExpr, References.params_eq]
  simpa only [collect, collectAll, collect_commaList, collect_typeMark, innerReferences_param,
    innerReferences, references, List.nil_append, List.append_nil] using hinner

theorem placed_build_stmt {value : Production.stmt.body.Value}
    (h : Production.stmt.body.Fits Placed value used) :
    StandAt (references a .stmt (Production.stmt.build pos value))
      (used.flatMap fun t => [t.pos]) := by
  have hplaced := h.placed a
  rcases value with b | ⟨v, _, ⟨⟩⟩ | s | s | s | s | s | s | ⟨_, _, ⟨⟩⟩ | ⟨_, _, ⟨⟩⟩ | t |
    ⟨e, _, ⟨⟩⟩ | ⟨⟨⟩⟩
  iterate 8
    simpa [References.stmt] using hplaced
  iterate 3 exact .empty _
  · simpa [References.stmt] using hplaced

theorem placed_build_returnStmt {value : Production.returnStmt.body.Value}
    (h : Production.returnStmt.body.Fits Placed value used) :
    StandAt (references a .returnStmt (Production.returnStmt.build pos value))
      (used.flatMap fun t => [t.pos]) := by
  have hplaced := h.placed a
  obtain ⟨_, result, _, ⟨⟩⟩ := value
  cases result with
  | none => exact .empty _
  | some e => simpa [References.stmt, References.exprOption] using hplaced

theorem placed_build_ifStmt {value : Production.ifStmt.body.Value}
    (h : Production.ifStmt.body.Fits Placed value used) :
    StandAt (references a .ifStmt (Production.ifStmt.build pos value))
      (used.flatMap fun t => [t.pos]) := by
  have hplaced := h.placed a
  obtain ⟨_, _, cond, _, yes, no, ⟨⟩⟩ := value
  cases no <;> simpa [References.stmt, References.stmtOption] using hplaced

theorem placed_build_forStmt {value : Production.forStmt.body.Value}
    (h : Production.forStmt.body.Fits Placed value used) :
    StandAt (references a .forStmt (Production.forStmt.build pos value))
      (used.flatMap fun t => [t.pos]) := by
  have hplaced := h.placed a
  obtain ⟨_, _, init, _, cond, _, post, _, body, ⟨⟩⟩ := value
  cases init <;> cases cond <;> cases post <;>
    simpa [References.stmt, References.forInit_none, References.exprOption] using hplaced

theorem placed_build_forInit {value : Production.forInit.body.Value}
    (h : Production.forInit.body.Fits Placed value used) :
    StandAt (references a .forInit (Production.forInit.build pos value))
      (used.flatMap fun t => [t.pos]) := by
  have hplaced := h.placed a
  rcases value with v | e | ⟨⟨⟩⟩ <;> simpa [References.forInit] using hplaced

theorem placed_build_tryStmt {value : Production.tryStmt.body.Value}
    (h : Production.tryStmt.body.Fits Placed value used) :
    StandAt (references a .tryStmt (Production.tryStmt.build pos value))
      (used.flatMap fun t => [t.pos]) := by
  have hplaced := h.placed a
  obtain ⟨_, body, handler, final, ⟨⟩⟩ := value
  cases handler <;> cases final <;>
    simpa [References.stmt, References.catchOption_none, References.blockOption] using hplaced

theorem placed_build_suffixPart {value : Production.suffixPart.body.Value}
    (h : Production.suffixPart.body.Fits Placed value used) :
    StandAt (references a .suffixPart (Production.suffixPart.build pos value))
      (used.flatMap fun t => [t.pos]) := by
  have hplaced := h.placed a
  rcases value with ⟨_, t, ⟨⟩⟩ | ⟨_, e, _, ⟨⟩⟩ | ⟨_, args, _, ⟨⟩⟩ | ⟨⟨⟩⟩
  · exact .empty _
  · simpa [References.suffixParts] using hplaced
  · simpa [collect_commaList, innerReferences_expr, References.suffixParts, References.exprs_eq]
      using hplaced

theorem placed_build (a : Surroundings) (p : Production) (pos : Position) {value : p.body.Value}
    {used : List Token} (h : p.body.Fits Placed value used)
    (hpos : ∃ t rest, used = t :: rest ∧ t.pos = pos) :
    StandAt (references a p (p.build pos value)) (used.flatMap fun t => [t.pos]) := by
  have hplaced := h.placed a
  cases p with
  | file => exact placed_build_file h
  | qualifiedName =>
      obtain ⟨t, rest, rfl, rfl⟩ := hpos
      exact .cons (.empty _)
  | importDecl | typeRef => exact .empty _
  | decl => exact placed_build_decl h
  | classDecl => exact placed_build_classDecl h
  | member => exact placed_build_member h
  | function => exact placed_build_function h
  | param => simpa [collect_defaultValue, collect_typeMark] using hplaced
  | expr => exact placed_build_expr h
  | conditional => exact placed_build_conditional h
  | binary => simpa [References.binary_eq, References.opTerms_eq, References.unary_eq] using hplaced
  | unary => simpa [flatMap_none, References.unary_eq] using hplaced
  | postfixExpr => exact placed_build_postfixExpr h
  | primary => exact placed_build_primary h hpos
  | newExpr => exact placed_build_newExpr h hpos
  | functionExpr => exact placed_build_functionExpr h
  | block => simpa [References.block_eq] using hplaced
  | stmt => exact placed_build_stmt h
  | varDecl => simpa [collect_defaultValue, collect_typeMark, References.varDecl] using hplaced
  | returnStmt => exact placed_build_returnStmt h
  | ifStmt => exact placed_build_ifStmt h
  | whileStmt | throwStmt => simpa [References.stmt] using hplaced
  | forStmt => exact placed_build_forStmt h
  | forInit => exact placed_build_forInit h
  | tryStmt => exact placed_build_tryStmt h
  | catchClause => simpa [collect_typeMark, References.catchOption] using hplaced
  | arrayLiteral =>
      simpa [collect_commaList, innerReferences_expr, References.primaryExpr, References.exprs_eq]
        using hplaced
  | objectLiteral =>
      simpa [collect_commaList, innerReferences_property, References.primaryExpr,
        References.properties_eq] using hplaced
  | property | opTerm => simpa using hplaced
  | suffixPart => exact placed_build_suffixPart h

end

/-- A judgement that building a node keeps holds of whatever is read. Each node is built at the
place of its first token. -/
theorem judged_of_reads {R : Judgement}
    (step : ∀ p pos value used, p.body.Fits R value used →
      (∃ t rest, used = t :: rest ∧ t.pos = pos) → R p (p.build pos value) used)
    (stop : Position) (p : Production) {input rest : List Token} {node : p.Node}
    (h : reads stop p input = .matched node rest) :
    ∃ used, input = used ++ rest ∧ R p node used := by
  refine reads_induction stop ?_ p h
  intro p input value rest used hread hused hfits
  refine step p _ value used hfits ?_
  cases used with
  | cons t used' => exact ⟨t, used', rfl, by rw [hused]; rfl⟩
  | nil =>
      obtain hlt | ⟨_, hskips⟩ := lt_or_eq_of_read (progress_reads stop) p.body hread
      · rw [hused, List.nil_append] at hlt
        exact absurd hlt (Nat.lt_irrefl _)
      · rw [not_skips_body] at hskips
        cases hskips

/-- What is judged of a whole file by its nodes holds for all tokens of the text, which stand at
different places. -/
theorem judged_of_parse {R : Judgement}
    (step : ∀ p pos value used, p.body.Fits R value used →
      (∃ t rest, used = t :: rest ∧ t.pos = pos) → R p (p.build pos value) used)
    {text : String} {file : File} (h : parse text = .ok file) :
    ∃ used, (used.flatMap fun t : Token => [t.pos]).Nodup ∧ R .file file used := by
  obtain ⟨ts, stop, htokens, hreads⟩ := (parse_eq_ok_iff text file).1 h
  obtain ⟨used, hused, hjudged⟩ := judged_of_reads step stop .file hreads
  rw [List.append_nil] at hused
  subst hused
  refine ⟨ts, ?_, hjudged⟩
  rw [← List.map_eq_flatMap]
  exact nodup_places htokens

/-- The references of a parsed file are known by their kinds and places. -/
theorem nodup_keys_of_parse {text : String} {file : File} (h : parse text = .ok file) :
    (file.references.map (·.key)).Nodup := by
  obtain ⟨used, hnodup, hplaced⟩ : ∃ used, (used.flatMap fun t : Token => [t.pos]).Nodup ∧
      Placed .file file used :=
    judged_of_parse (fun p pos _ _ hfits hpos a => placed_build a p pos hfits hpos) h
  have hsublist := hplaced ⟨.outer, ⟨file.pos, "", none, [], []⟩, []⟩
  have hplaces : (file.references.map (·.key.pos)).Nodup := List.Nodup.sublist hsublist hnodup
  rw [List.Nodup, List.pairwise_map] at hplaces ⊢
  exact hplaces.imp fun hne heq => hne (congrArg ReferenceKey.pos heq)

def Member.function? (m : Member) : Option Function :=
  match m.body with
  | .method f => some f
  | .field _ => none

/-- The methods of a class, the constructor among them. -/
def Class.methods (c : Class) : List Function := c.members.filterMap Member.function?

theorem Class.mem_methods {c : Class} {f : Function} :
    f ∈ c.methods ↔ ∃ m ∈ c.members, m.body = .method f := by
  rw [methods, List.mem_filterMap]
  refine exists_congr fun m => and_congr_right fun _ => ?_
  rw [Member.function?]
  cases m.body <;> simp

def Decl.methods (d : Decl) : List Function :=
  match d.body with
  | .type c => c.methods
  | .function _ | .var _ => []

/-- The methods that a node declares. -/
def Production.methods : (p : Production) → p.Node → List Function
  | file, f => f.decls.flatMap Decl.methods
  | decl, d => d.methods
  | classDecl, c => c.methods
  | member, m => m.function?.toList
  | function, f => [f]
  | _, _ => []

/-- The methods of a node stand at tokens of it. -/
def MethodsPlaced : Judgement := fun p node used =>
  ((Production.methods p node).map (·.pos)).Sublist (used.flatMap fun t => [t.pos])

theorem methodsPlaced_build (p : Production) (pos : Position) {value : p.body.Value}
    {used : List Token} (h : p.body.Fits MethodsPlaced value used)
    (hpos : ∃ t rest, used = t :: rest ∧ t.pos = pos) :
    MethodsPlaced p (p.build pos value) used := by
  have hparts : (p.body.collect (fun _ => [])
      (fun q node => (Production.methods q node).map (·.pos)) value).Sublist
      (used.flatMap fun t => [t.pos]) :=
    h.collect (.refl []) .append (fun _ => List.nil_sublist _) fun _ _ _ hnode => hnode
  cases p with
  | file =>
      obtain ⟨_, package, _, imports, decls, _, ⟨⟩⟩ := value
      rw [MethodsPlaced, Production.methods, List.map_flatMap]
      cases package <;>
        simpa [build, collect, collectAll, Production.methods, flatMap_none] using hparts
  | decl =>
      obtain ⟨modifiers, body, ⟨⟩⟩ := value
      rcases body with c | f | ⟨v, _, ⟨⟩⟩ | ⟨⟨⟩⟩
      · simpa [MethodsPlaced, build, collect, collectAll, collectAny, Production.methods,
          flatMap_none, Decl.methods] using hparts
      · exact List.nil_sublist _
      · exact List.nil_sublist _
  | classDecl =>
      obtain ⟨_, name, base, interfaces, _, members, _, ⟨⟩⟩ := value
      have hmethods (ms : List Member) : (ms.filterMap Member.function?).map (·.pos) =
          ms.flatMap fun m => m.function?.toList.map (·.pos) := by
        rw [List.filterMap_eq_flatMap_toList, List.map_flatMap]
      rw [MethodsPlaced, Production.methods, Class.methods, hmethods]
      cases base <;> cases interfaces <;>
        simpa [build, collect, collectAll, Production.methods, flatMap_none] using hparts
  | member =>
      obtain ⟨modifiers, body, ⟨⟩⟩ := value
      rcases body with f | ⟨v, _, ⟨⟩⟩ | ⟨⟨⟩⟩
      · simpa [MethodsPlaced, build, collect, collectAll, collectAny, Production.methods,
          flatMap_none, Member.function?] using hparts
      · exact List.nil_sublist _
  | function =>
      obtain ⟨t, rest, rfl, rfl⟩ := hpos
      exact List.Sublist.cons_cons _ (List.nil_sublist _)
  | _ => exact List.nil_sublist _

/-- The methods of a class in a parsed file are known by their places. -/
theorem Class.method_eq_of_pos_eq {text : String} {file : File} (h : parse text = .ok file)
    {d : Decl} (hd : d ∈ file.decls) {c : Class} (hc : d.body = .type c) {f g : Function}
    (hf : f ∈ c.methods) (hg : g ∈ c.methods) (hpos : f.pos = g.pos) : f = g := by
  obtain ⟨used, hnodup, hplaced⟩ := judged_of_parse (fun p pos _ _ => methodsPlaced_build p pos) h
  have hmethods : c.methods.Sublist (file.decls.flatMap Decl.methods) := by
    have hdecl : d.methods = c.methods := by rw [Decl.methods, hc]
    rw [← hdecl, List.flatMap_def]
    exact List.sublist_flatten_of_mem (List.mem_map.2 ⟨d, hd, rfl⟩)
  have hplaces : (c.methods.map (·.pos)).Nodup :=
    (hplaced.nodup hnodup).sublist (hmethods.map _)
  exact List.inj_on_of_nodup_map hplaces hf hg hpos

end Script
end ScriptWeave
