import ScriptWeave.Proofs.Script.Sites

/-!
Scopes of the target language. Printing keeps the nesting of the source, but there the name of a
catch clause ends with the block of the clause, while variables belong to the whole function around
them. The layers of a place are the functions and the blocks of catch clauses around it; every name
that a file uses stands below such layers.
-/

namespace ScriptWeave
namespace Script

open Fragment

/-- What opens a scope in the target language. -/
inductive Layer where
  | function (f : Enclosing)
  | handler (clause : Catch)

namespace Layer

/-- The names of a scope. A variable belongs to its function wherever it stands in the body. -/
def Binds : Layer → String → Prop
  | function f, x =>
      (∃ p ∈ f.params, p.name = x) ∨ ∃ d, Within (block f.body) (varDecl d) ∧ d.name = x
  | handler clause, x => clause.name = x

def function? : Layer → Option Enclosing
  | function f => some f
  | handler _ => none

end Layer

/-- Code inside of a fragment, with the layers around the two, the innermost first. -/
inductive Descends : List Layer → Fragment → List Layer → Fragment → Prop where
  | here {ls : List Layer} {n : Fragment} : Descends ls n ls n
  | part {ls ks : List Layer} {n n' m : Fragment} (hn : ∀ clause, n ≠ handler clause)
      (h : Part n n') (hm : Descends ls n' ks m) : Descends ls n ks m
  | handled {ls ks : List Layer} {clause : Catch} {m : Fragment}
      (hm : Descends (.handler clause :: ls) (block clause.body) ks m) :
      Descends ls (handler clause) ks m
  | literal {ls ks : List Layer} {p : Postfix} {pos : Position} {params : List Param}
      {result : Option TypeRef} {body : Block} {n m : Fragment}
      (hp : p.primary = .function pos params result body)
      (hn : Enclosing.Part ⟨params, body, true⟩ n)
      (hm : Descends (.function ⟨params, body, true⟩ :: ls) n ks m) : Descends ls (operand p) ks m

theorem Descends.reaches {ls ks : List Layer} {n m : Fragment} (h : Descends ls n ks m) :
    Reaches (ls.filterMap Layer.function?) n (ks.filterMap Layer.function?) m := by
  induction h with
  | here => exact .here
  | part _ hpart _ ih => exact .part hpart ih
  | handled _ ih => exact .part .handled ih
  | literal hp hn _ ih => exact .literal hp hn ih

theorem Descends.trans {ls ks js : List Layer} {n m o : Fragment} (h : Descends ls n ks m)
    (h' : Descends ks m js o) : Descends ls n js o := by
  induction h with
  | here => exact h'
  | part hn hpart _ ih => exact .part hn hpart (ih h')
  | handled _ ih => exact .handled (ih h')
  | literal hp hn _ ih => exact .literal hp hn (ih h')

theorem Enclosing.part_of_mem_ofFunction {f : Enclosing} {n : Fragment}
    (h : n ∈ Fragment.ofFunction f.params f.body) : f.Part n := by
  cases List.mem_append.1 h with
  | inl hdefault =>
      obtain ⟨param, hparam, hvalue⟩ := List.mem_flatMap.1 hdefault
      obtain ⟨e, he, rfl⟩ := List.mem_map.1 hvalue
      exact .default hparam (Option.mem_toList.1 he)
  | inr hbody =>
      cases List.mem_singleton.1 hbody
      exact .body

namespace Fragment

theorem Part.mem_parts {n n' : Fragment} (h : Part n n') : n' ∈ n.parts := by
  cases h with
  | tail hterm => exact List.mem_append_right _ (List.mem_map.2 ⟨_, hterm, rfl⟩)
  | key hkey =>
      exact List.mem_append_right _ (List.mem_flatMap.2 ⟨_, hkey, List.mem_singleton_self _⟩)
  | argument hcall he =>
      exact List.mem_append_right _
        (List.mem_flatMap.2 ⟨_, hcall, List.mem_map.2 ⟨_, he, rfl⟩⟩)
  | created hnew he =>
      rw [parts, hnew]
      exact List.mem_append_left _ (List.mem_map.2 ⟨_, he, rfl⟩)
  | element harray he =>
      rw [parts, harray]
      exact List.mem_append_left _ (List.mem_map.2 ⟨_, he, rfl⟩)
  | property hobject hq =>
      rw [parts, hobject]
      exact List.mem_append_left _ (List.mem_map.2 ⟨_, hq, rfl⟩)
  | inner hparen =>
      rw [parts, hparen]
      exact List.mem_append_left _ (List.mem_singleton_self _)
  | item hs => exact List.mem_map.2 ⟨_, hs, rfl⟩
  | initial hvalue =>
      rw [parts, hvalue]
      exact List.mem_singleton_self _
  | _ => simp [parts, ofStmt, ofForInit]

theorem mem_nodes_of_within {n m : Fragment} (h : Within n m) : m ∈ n.nodes := by
  induction h using Relation.ReflTransGen.head_induction_on with
  | refl =>
      rw [nodes_eq]
      exact List.mem_cons_self
  | head hpart _ ih =>
      rw [nodes_eq]
      exact List.mem_cons_of_mem _ (List.mem_flatMap.2 ⟨_, hpart.mem_parts, ih⟩)

variable {ls : List Layer}

/-- One step down. -/
theorem descends_part {n part : Fragment} (hn : ∀ clause, n ≠ handler clause) (h : Part n part) :
    ∃ ks, Descends ls n ks part :=
  ⟨ls, .part hn h .here⟩

theorem descends_of_mem_ofStmt {s : Stmt} {part : Fragment} (h : part ∈ ofStmt s) :
    ∃ ks, Descends ls (stmt s) ks part := by
  have hstep {part : Fragment} (hpart : Part (stmt s) part) :
      ∃ ks, Descends ls (stmt s) ks part := descends_part (fun _ => Fragment.noConfusion) hpart
  cases s with
  | block body =>
      cases List.mem_singleton.1 h
      exact hstep .nested
  | var d =>
      cases List.mem_singleton.1 h
      exact hstep .declared
  | returns pos value =>
      obtain ⟨e, he, rfl⟩ := List.mem_map.1 h
      cases Option.mem_toList.1 he
      exact hstep .result
  | branch pos cond yes no =>
      simp only [ofStmt, List.mem_append, List.mem_singleton] at h
      obtain (rfl | rfl) | hno := h
      · exact hstep .branchTest
      · exact hstep .branchThen
      · obtain ⟨s, hs, rfl⟩ := List.mem_map.1 hno
        cases Option.mem_toList.1 hs
        exact hstep .branchElse
  | whileLoop pos cond body =>
      simp only [ofStmt, List.mem_append, List.mem_singleton] at h
      obtain rfl | rfl := h
      · exact hstep .whileTest
      · exact hstep .whileBody
  | forLoop pos init cond post body =>
      simp only [ofStmt, List.mem_append, List.mem_singleton] at h
      obtain ((hinit | hcond) | hpost) | rfl := h
      · obtain ⟨init, hsome, rfl⟩ := List.mem_map.1 hinit
        cases Option.mem_toList.1 hsome
        cases init with
        | var d => exact hstep .forVar
        | expr e => exact hstep .forStart
      · obtain ⟨e, he, rfl⟩ := List.mem_map.1 hcond
        cases Option.mem_toList.1 he
        exact hstep .forTest
      · obtain ⟨e, he, rfl⟩ := List.mem_map.1 hpost
        cases Option.mem_toList.1 he
        exact hstep .forStep
      · exact hstep .forBody
  | throws pos value =>
      cases List.mem_singleton.1 h
      exact hstep .thrown
  | attempt pos body clause final =>
      simp only [ofStmt, List.mem_append, List.mem_singleton] at h
      obtain (rfl | hclause) | hfinal := h
      · exact hstep .attempted
      · obtain ⟨clause, hsome, rfl⟩ := List.mem_map.1 hclause
        cases Option.mem_toList.1 hsome
        exact hstep .caught
      · obtain ⟨last, hsome, rfl⟩ := List.mem_map.1 hfinal
        cases Option.mem_toList.1 hsome
        exact hstep .finished
  | expr value =>
      cases List.mem_singleton.1 h
      exact hstep .evaluated
  | breaks | continues | empty => cases h

theorem descends_of_mem_ofPrimary {p : Postfix} {part : Fragment} (h : part ∈ ofPrimary p.primary) :
    ∃ ks, Descends ls (operand p) ks part := by
  have hstep {part : Fragment} (hpart : Part (operand p) part) :
      ∃ ks, Descends ls (operand p) ks part := descends_part (fun _ => Fragment.noConfusion) hpart
  cases hp : p.primary with
  | newCall pos type args =>
      rw [hp] at h
      obtain ⟨e, he, rfl⟩ := List.mem_map.1 h
      exact hstep (.created hp he)
  | array pos elements =>
      rw [hp] at h
      obtain ⟨e, he, rfl⟩ := List.mem_map.1 h
      exact hstep (.element hp he)
  | object pos properties =>
      rw [hp] at h
      obtain ⟨property, hproperty, rfl⟩ := List.mem_map.1 h
      exact hstep (.property hp hproperty)
  | paren pos inner =>
      rw [hp] at h
      cases List.mem_singleton.1 h
      exact hstep (.inner hp)
  | function pos params result body =>
      rw [hp] at h
      have hcode : Enclosing.Part ⟨params, body, true⟩ part :=
        Enclosing.part_of_mem_ofFunction h
      exact ⟨_, .literal hp hcode .here⟩
  | number | string | bool | null | this | super | newBare | ident =>
      rw [hp] at h
      cases h

theorem descends_of_mem_parts {n part : Fragment} (h : part ∈ n.parts) :
    ∃ ks, Descends ls n ks part := by
  cases n with
  | expr e =>
      cases e with
      | value c =>
          cases List.mem_singleton.1 h
          exact descends_part (fun _ => Fragment.noConfusion) .value
      | assign c op e =>
          simp only [parts, List.mem_append, List.mem_singleton] at h
          obtain rfl | rfl := h
          · exact descends_part (fun _ => Fragment.noConfusion) .target
          · exact descends_part (fun _ => Fragment.noConfusion) .assigned
  | conditional c =>
      cases c with
      | plain b =>
          cases List.mem_singleton.1 h
          exact descends_part (fun _ => Fragment.noConfusion) .plain
      | choice b yes no =>
          simp only [parts, List.mem_append, List.mem_singleton] at h
          obtain (rfl | rfl) | rfl := h
          · exact descends_part (fun _ => Fragment.noConfusion) .test
          · exact descends_part (fun _ => Fragment.noConfusion) .yes
          · exact descends_part (fun _ => Fragment.noConfusion) .no
  | binary b =>
      cases List.mem_append.1 h with
      | inl hhead =>
          cases List.mem_singleton.1 hhead
          exact descends_part (fun _ => Fragment.noConfusion) .head
      | inr htail =>
          obtain ⟨term, hterm, rfl⟩ := List.mem_map.1 htail
          exact descends_part (fun _ => Fragment.noConfusion) (.tail hterm)
  | operand p =>
      cases List.mem_append.1 h with
      | inl hprimary => exact descends_of_mem_ofPrimary hprimary
      | inr hsuffix =>
          obtain ⟨suffix, hmem, hpart⟩ := List.mem_flatMap.1 hsuffix
          cases suffix with
          | member pos name => cases hpart
          | index pos key =>
              cases List.mem_singleton.1 hpart
              exact descends_part (fun _ => Fragment.noConfusion) (.key hmem)
          | call pos args =>
              obtain ⟨e, he, rfl⟩ := List.mem_map.1 hpart
              exact descends_part (fun _ => Fragment.noConfusion) (.argument hmem he)
  | block b =>
      obtain ⟨s, hs, rfl⟩ := List.mem_map.1 h
      exact descends_part (fun _ => Fragment.noConfusion) (.item hs)
  | stmt s => exact descends_of_mem_ofStmt h
  | varDecl d =>
      obtain ⟨e, he, rfl⟩ := List.mem_map.1 h
      exact descends_part (fun _ => Fragment.noConfusion) (.initial (Option.mem_toList.1 he))
  | handler clause =>
      cases List.mem_singleton.1 h
      exact ⟨_, .handled .here⟩

/-- Whatever lies inside of a fragment lies there below some layers. -/
theorem descends_of_mem_nodes {n m : Fragment} (h : m ∈ n.nodes) {ls : List Layer} :
    ∃ ks, Descends ls n ks m := by
  rw [nodes_eq] at h
  cases List.mem_cons.1 h with
  | inl hself => exact ⟨ls, hself ▸ .here⟩
  | inr hinside =>
      obtain ⟨part, hpart, hm⟩ := List.mem_flatMap.1 hinside
      obtain ⟨js, hstep⟩ : ∃ js, Descends ls n js part := descends_of_mem_parts hpart
      obtain ⟨ks, hrest⟩ : ∃ ks, Descends js part ks m := descends_of_mem_nodes hm
      exact ⟨ks, hstep.trans hrest⟩
termination_by sizeOf n
decreasing_by exact sizeOf_lt_of_mem_parts hpart

end Fragment

/-- A name where it is used, with the layers around it. -/
structure Use where
  key : ReferenceKey
  name : String
  layers : List Layer

/-- A primary expression refers to a name: an identifier, or the type after `new`. -/
inductive Primary.Refers : Primary → ReferenceKey → String → Prop where
  | ident {pos : Position} {name : String} : Refers (.ident pos name) ⟨.ident, pos⟩ name
  | newBare {pos : Position} {type : QualifiedName} :
      Refers (.newBare pos type) ⟨.create, pos⟩ type.first
  | newCall {pos : Position} {type : QualifiedName} {args : List Expr} :
      Refers (.newCall pos type args) ⟨.create, pos⟩ type.first

/-- The file uses a name below some layers. -/
def File.Uses (file : File) (u : Use) : Prop :=
  ∃ type fs n p, file.Code type fs n ∧ Descends (fs.map .function) n u.layers (operand p) ∧
    p.primary.Refers u.key u.name

namespace Use

/-- The name is in scope in the target language. -/
def InScope (file : File) (u : Use) : Prop :=
  (∃ d ∈ file.decls, d.name = u.name) ∨ ∃ l ∈ u.layers, l.Binds u.name

/-- A function around the use has a catch clause of the name somewhere in its body. -/
def CaughtInFunction (u : Use) : Prop :=
  ∃ f, .function f ∈ u.layers ∧ ∃ clause, Within (block f.body) (handler clause) ∧
    clause.name = u.name

/-- The functions around the use. -/
def functions (u : Use) : List Enclosing := u.layers.filterMap Layer.function?

/-- What a function around the use declares is in scope, or the name of a catch clause. -/
theorem inScope_or_caught_of_functions {file : File} {u : Use} {f : Enclosing}
    (hf : f ∈ u.functions) (hdeclares : f.Declares u.name) :
    u.InScope file ∨ u.CaughtInFunction := by
  obtain ⟨l, hl, hlf⟩ := List.mem_filterMap.1 hf
  cases l with
  | handler clause => cases hlf
  | function g =>
      cases hlf
      cases hdeclares with
      | inl hparam => exact Or.inl (Or.inr ⟨_, hl, Or.inl hparam⟩)
      | inr hbody =>
          obtain ⟨n, hwithin, hnames⟩ := hbody
          generalize hx : u.name = x at hnames
          cases hnames with
          | declared => exact Or.inl (Or.inr ⟨_, hl, Or.inr ⟨_, hwithin, hx.symm⟩⟩)
          | caught => exact Or.inr ⟨f, hl, _, hwithin, hx.symm⟩

end Use

/-- What refers to a name stands for a reference in the functions around it. -/
theorem Descends.exists_reference {fs : List Enclosing} {n : Fragment} {u : Use} {p : Postfix}
    (h : Descends (fs.map .function) n u.layers (operand p))
    (hrefers : p.primary.Refers u.key u.name)
    (around : Option ClassContext) : ∃ r ∈ n.references ⟨fs.map Enclosing.frame, around⟩,
      r.key = u.key ∧ r.first = u.name ∧
        r.context = ⟨u.functions.map Enclosing.frame, around⟩ := by
  have hreaches := h.reaches
  rw [List.filterMap_map, show Layer.function? ∘ Layer.function = some from rfl,
    List.filterMap_some] at hreaches
  have hself : ∃ r ∈ (operand p).references ⟨u.functions.map Enclosing.frame, around⟩,
      r.key = u.key ∧ r.first = u.name ∧
        r.context = ⟨u.functions.map Enclosing.frame, around⟩ := by
    rw [Fragment.references, References.postfixExpr_eq]
    obtain ⟨key, name, layers⟩ := u
    generalize p.primary = primary at hrefers
    cases hrefers with
    | ident | newBare | newCall =>
        exact ⟨_, List.mem_append_left _ List.mem_cons_self, rfl, rfl, rfl⟩
  obtain ⟨r, hr, hfacts⟩ := hself
  exact ⟨r, hreaches.references_subset hr, hfacts⟩

/-- A used name is a reference of the file, in the functions around it. -/
theorem File.Uses.reference {file : File} {u : Use} (h : file.Uses u) : ∃ r ∈ file.references,
    r.key = u.key ∧ r.first = u.name ∧ r.context.frames = u.functions.map Enclosing.frame := by
  obtain ⟨type, fs, n, p, hcode, hdescends, hrefers⟩ := h
  obtain ⟨around, _, hsubset⟩ := hcode.references_subset
  obtain ⟨r, hr, hkey, hfirst, hcontext⟩ := hdescends.exists_reference hrefers around
  exact ⟨r, hsubset r hr, hkey, hfirst, congrArg Context.frames hcontext⟩

theorem Fragment.refers_of_site? {m : Fragment} {key : ReferenceKey} (h : m.site? = some key) :
    ∃ p name, m = operand p ∧ p.primary.Refers key name := by
  unfold site? at h
  split at h
  · cases h
    exact ⟨_, _, rfl, .ident⟩
  · cases h
    exact ⟨_, _, rfl, .newBare⟩
  · cases h
    exact ⟨_, _, rfl, .newCall⟩
  · cases h

theorem File.Code.exists_use {file : File} {type : Option Class} {fs : List Enclosing}
    {n : Fragment} (h : file.Code type fs n) {key : ReferenceKey} (hkey : key ∈ n.sites) :
    ∃ u, file.Uses u ∧ u.key = key := by
  obtain ⟨m, hm, hsite⟩ := List.mem_filterMap.1 hkey
  obtain ⟨p, name, rfl, hrefers⟩ := refers_of_site? hsite
  obtain ⟨ks, hdescends⟩ : ∃ ks, Descends (fs.map .function) n ks (operand p) :=
    descends_of_mem_nodes hm
  exact ⟨⟨key, name, ks⟩, ⟨type, fs, n, p, h, hdescends, hrefers⟩, rfl⟩

/-- Every reference of a file, but for the name of a superclass, is the use of a name. -/
theorem File.exists_use {file : File} {r : Reference} (hr : r ∈ file.references)
    (hkind : r.key.kind ≠ .base) : ∃ u, file.Uses u ∧ u.key = r.key := by
  have hsite : r.key ∈ file.sites := by
    rw [← file.keys_references]
    exact List.mem_map.2 ⟨r, hr, rfl⟩
  obtain ⟨d, hd, hsite⟩ := List.mem_flatMap.1 hsite
  rw [Decl.sites] at hsite
  cases hbody : d.body with
  | var v =>
      rw [hbody] at hsite
      exact (File.Code.global hd hbody).exists_use hsite
  | function f =>
      rw [hbody] at hsite
      obtain ⟨n, hn, hsite⟩ := List.mem_flatMap.1 hsite
      exact (File.Code.function hd hbody (Enclosing.part_of_mem_ofFunction hn)).exists_use hsite
  | type c =>
      rw [hbody] at hsite
      cases List.mem_append.1 hsite with
      | inl hbase =>
          obtain ⟨q, _, hq⟩ := List.mem_map.1 hbase
          exact absurd (hq ▸ rfl) hkind
      | inr hmember =>
          obtain ⟨m, hm, hsite⟩ := List.mem_flatMap.1 hmember
          obtain ⟨n, hn, hsite⟩ := List.mem_flatMap.1 hsite
          rw [Member.code] at hn
          cases hcode : m.body with
          | method f =>
              rw [hcode] at hn
              exact (File.Code.method hd hbody hm hcode
                (Enclosing.part_of_mem_ofFunction hn)).exists_use hsite
          | field v =>
              rw [hcode] at hn
              cases List.mem_singleton.1 hn
              exact (File.Code.field hd hbody hm hcode).exists_use hsite

end Script
end ScriptWeave
