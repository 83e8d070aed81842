import ScriptWeave.Proofs.Script.Layers
import ScriptWeave.Resolve.Export

/-!
Operands at their homes. An operand stands at one home of the file, below the functions and catch
clauses there. Whatever a catch clause around it binds is also a name of a function around it, so
the functions alone decide what the resolver takes for local.
-/

namespace ScriptWeave
namespace Script

open Fragment

namespace Fragment

/-- Expressions and variables, which have no catch clause outside of function literals. -/
def IsValue : Fragment → Prop
  | expr _ | conditional _ | binary _ | operand _ | varDecl _ => True
  | block _ | stmt _ | handler _ => False

theorem Part.isValue {n n' : Fragment} (h : Part n n') (hn : n.IsValue) : n'.IsValue := by
  cases h <;> first | exact trivial | exact hn.elim

/-- The fragment holds no catch clause, or lies in the body of a function among the layers. -/
def Inside (ls : List Layer) (n : Fragment) : Prop :=
  n.IsValue ∨ ∃ f, .function f ∈ ls ∧ Within (block f.body) n

theorem Part.inside {ls : List Layer} {n n' : Fragment} (h : Part n n') (hn : Inside ls n) :
    Inside ls n' := by
  cases hn with
  | inl hvalue => exact Or.inl (h.isValue hvalue)
  | inr hbody =>
      obtain ⟨f, hf, hwithin⟩ := hbody
      exact Or.inr ⟨f, hf, hwithin.tail h⟩

end Fragment

theorem Enclosing.Part.inside {f : Enclosing} {n : Fragment} (h : f.Part n) {ls : List Layer}
    (hf : .function f ∈ ls) : Inside ls n := by
  cases h with
  | default _ _ => exact Or.inl trivial
  | body => exact Or.inr ⟨f, hf, .refl⟩

/-- Every name that a layer binds is declared by one of the functions. -/
def Layer.Declared (ls : List Layer) : Prop :=
  ∀ l ∈ ls, ∀ x, l.Binds x → ∃ f, .function f ∈ ls ∧ f.Declares x

namespace Layer

theorem binds_function {f : Enclosing} {x : String} (h : (function f).Binds x) : f.Declares x := by
  cases h with
  | inl hparam => exact Or.inl hparam
  | inr hvar =>
      obtain ⟨d, hwithin, rfl⟩ := hvar
      exact Or.inr ⟨_, hwithin, .declared⟩

theorem Declared.cons {ls : List Layer} {l : Layer} (hls : Declared ls)
    (hl : ∀ x, l.Binds x → ∃ f, .function f ∈ l :: ls ∧ f.Declares x) : Declared (l :: ls) := by
  intro k hk x hx
  cases List.mem_cons.1 hk with
  | inl heq => exact hl x (heq ▸ hx)
  | inr hmem =>
      obtain ⟨f, hf, hdeclares⟩ := hls k hmem x hx
      exact ⟨f, List.mem_cons_of_mem _ hf, hdeclares⟩

theorem Declared.cons_function {ls : List Layer} (hls : Declared ls) (f : Enclosing) :
    Declared (function f :: ls) :=
  hls.cons fun _ hx => ⟨f, List.mem_cons_self, binds_function hx⟩

end Layer

open Layer (Declared)

theorem Descends.declared {ls ks : List Layer} {n m : Fragment} (h : Descends ls n ks m)
    (hn : Inside ls n) (hls : Declared ls) : Declared ks := by
  induction h with
  | here => exact hls
  | part _ hpart _ ih => exact ih (hpart.inside hn) hls
  | handled _ ih =>
      obtain hvalue | ⟨f, hf, hwithin⟩ := hn
      · exact hvalue.elim
      · refine ih (Or.inr ⟨f, List.mem_cons_of_mem _ hf, hwithin.tail .handled⟩) (hls.cons ?_)
        rintro x rfl
        exact ⟨f, List.mem_cons_of_mem _ hf, Or.inr ⟨_, hwithin, .caught⟩⟩
  | literal _ hcode _ ih => exact ih (hcode.inside List.mem_cons_self) (hls.cons_function _)

namespace Home

/-- The function that the home is, as a layer. -/
def layers (h : Home) : List Layer := h.functions.map .function

theorem declared_layers (h : Home) : Declared h.layers := by
  have hnil : Declared [] := fun l hl => absurd hl List.not_mem_nil
  cases h with
  | global | field => exact hnil
  | function f | method c f => exact hnil.cons_function _

theorem Code.inside {h : Home} {n : Fragment} (hn : h.Code n) : Inside h.layers n := by
  cases h with
  | global | field =>
      cases hn
      exact Or.inl trivial
  | function f | method c f => exact Enclosing.Part.inside hn List.mem_cons_self

end Home

namespace File

variable {file : File} {home : Home}

/-- The operand stands at the home, below some layers. -/
def HasOperand (file : File) (home : Home) (ls : List Layer) (p : Postfix) : Prop :=
  file.Has home ∧ ∃ n, home.Code n ∧ Descends home.layers n ls (operand p)

/-- The file uses a name at the home. -/
def UsesAt (file : File) (home : Home) (u : Use) : Prop :=
  ∃ p, file.HasOperand home u.layers p ∧ p.primary.Refers u.key u.name

/-- What a layer around an operand binds, a function around it declares. -/
theorem HasOperand.declares_of_binds {ls : List Layer} {p : Postfix}
    (h : file.HasOperand home ls p) {l : Layer} (hl : l ∈ ls) {x : String} (hx : l.Binds x) :
    ∃ f ∈ ls.filterMap Layer.function?, f.Declares x := by
  obtain ⟨_, n, hcode, hdescends⟩ := h
  obtain ⟨f, hf, hdeclares⟩ := hdescends.declared hcode.inside home.declared_layers l hl x hx
  exact ⟨f, List.mem_filterMap.2 ⟨_, hf, rfl⟩, hdeclares⟩

theorem Has.name_mem (h : file.Has home) {c : Class} (hc : home.type? = some c) :
    c.name ∈ file.declaredNames := by
  cases h with
  | global | function => cases hc
  | method hd hbody _ _ | field hd hbody _ _ _ =>
      cases hc
      exact List.mem_map.2 ⟨_, hd, by rw [Decl.name, hbody]⟩

theorem UsesAt.has {u : Use} (h : file.UsesAt home u) : file.Has home := by
  obtain ⟨p, ⟨hhome, _⟩, _⟩ := h
  exact hhome

theorem UsesAt.reference {u : Use} (h : file.UsesAt home u) : ∃ r ∈ file.references,
    r.key = u.key ∧ r.first = u.name ∧
      r.context = ⟨u.functions.map Enclosing.frame, home.around⟩ := by
  obtain ⟨p, ⟨hhome, n, hcode, hdescends⟩, hrefers⟩ := h
  obtain ⟨r, hr, hfacts⟩ := hdescends.exists_reference hrefers home.around
  exact ⟨r, hhome.references_subset hcode hr, hfacts⟩

theorem Uses.exists_home {u : Use} (h : file.Uses u) : ∃ home, file.UsesAt home u := by
  obtain ⟨type, fs, n, p, hcode, hdescends, hrefers⟩ := h
  obtain ⟨home, hhome, hn, rfl, _⟩ := hcode.exists_home
  exact ⟨home, p, ⟨hhome, n, hn, hdescends⟩, hrefers⟩

/-- Every reference of a file, but for the name of a superclass, is the use of a name at a home. -/
theorem exists_useAt {r : Reference} (hr : r ∈ file.references) (hkind : r.key.kind ≠ .base) :
    ∃ home u, file.UsesAt home u ∧ u.key = r.key := by
  obtain ⟨u, hu, hkey⟩ := File.exists_use hr hkind
  obtain ⟨home, huse⟩ := hu.exists_home
  exact ⟨home, u, huse, hkey⟩

theorem base_mem_references {d : Decl} (hd : d ∈ file.decls) {c : Class} (hc : d.body = .type c)
    {q : QualifiedName} (hq : c.base = some q) :
    Reference.ofType .base q.pos q .outer ∈ file.references := by
  refine List.mem_flatMap.2 ⟨d, hd, ?_⟩
  rw [References.decl, hc]
  change _ ∈ References.type c
  rw [References.type, hq]
  exact List.mem_append_left _ (List.mem_singleton_self _)

theorem kind_ne_base_of_mem_sites {n : Fragment} {key : ReferenceKey} (h : key ∈ n.sites) :
    key.kind ≠ .base := by
  obtain ⟨m, _, hsite⟩ := List.mem_filterMap.1 h
  obtain ⟨p, name, _, hrefers⟩ := refers_of_site? hsite
  generalize p.primary = primary at hrefers
  cases hrefers with
  | ident | newBare | newCall => exact ReferenceKind.noConfusion

theorem exists_base {r : Reference} (hr : r ∈ file.references) (hkind : r.key.kind = .base) :
    ∃ d ∈ file.decls, ∃ c q, d.body = .type c ∧ c.base = some q ∧ r.key = ⟨.base, q.pos⟩ := by
  have hsite : r.key ∈ file.sites := by
    rw [← file.keys_references]
    exact List.mem_map.2 ⟨r, hr, rfl⟩
  obtain ⟨d, hd, hsite⟩ := List.mem_flatMap.1 hsite
  rw [Decl.sites] at hsite
  cases hbody : d.body with
  | var v =>
      rw [hbody] at hsite
      exact absurd hkind (kind_ne_base_of_mem_sites hsite)
  | function f =>
      rw [hbody] at hsite
      obtain ⟨n, _, hsite⟩ := List.mem_flatMap.1 hsite
      exact absurd hkind (kind_ne_base_of_mem_sites hsite)
  | type c =>
      rw [hbody] at hsite
      cases List.mem_append.1 hsite with
      | inl hbase =>
          obtain ⟨q, hq, hkey⟩ := List.mem_map.1 hbase
          exact ⟨d, hd, c, q, hbody, Option.mem_toList.1 hq, hkey.symm⟩
      | inr hmember =>
          obtain ⟨m, _, hsite⟩ := List.mem_flatMap.1 hmember
          obtain ⟨n, _, hsite⟩ := List.mem_flatMap.1 hsite
          exact absurd hkind (kind_ne_base_of_mem_sites hsite)

end File

theorem exists_ok_of_any {ε α : Type} {x : Except ε α} {p : α → Bool}
    (h : x.toOption.any p = true) : ∃ a, x = .ok a ∧ p a = true := by
  cases x with
  | error e => cases h
  | ok a => exact ⟨a, rfl, h⟩

@[match_pattern]
def Expr.ofPrimary (pos : Position) (p : Primary) : Expr :=
  .value (.plain ⟨⟨pos, [], ⟨p, [], none⟩⟩, []⟩)

/-- A body that only returns a primary expression. -/
@[match_pattern]
def Block.returning (body returned pos : Position) (p : Primary) : Block :=
  ⟨body, [.returns returned (some (.ofPrimary pos p))]⟩

variable {pos body returned : Position} {p : Primary} {ls : List Layer}

theorem descends_ofPrimary :
    Descends ls (expr (.ofPrimary pos p)) ls (operand ⟨p, [], none⟩) :=
  .part (fun _ => Fragment.noConfusion) .value <| .part (fun _ => Fragment.noConfusion) .plain <|
  .part (fun _ => Fragment.noConfusion) .head .here

theorem descends_returning :
    Descends ls (block (.returning body returned pos p)) ls (operand ⟨p, [], none⟩) :=
  .part (fun _ => Fragment.noConfusion) (.item List.mem_cons_self) <|
  .part (fun _ => Fragment.noConfusion) .result descends_ofPrimary

/-- Such a body has no variables, unless the expression is a function. -/
theorem not_within_returning_ident {name : Position} {x : String} {d : VarDecl} :
    ¬ Within (block (.returning body returned pos (.ident name x))) (varDecl d) := by
  intro h
  simpa [Block.returning, nodes_eq, parts, ofStmt, ofPrimary] using mem_nodes_of_within h

theorem descends_value {v : VarDecl} (h : v.value = some (.ofPrimary pos p)) :
    Descends ls (varDecl v) ls (operand ⟨p, [], none⟩) :=
  .part (fun _ => Fragment.noConfusion) (.initial h) descends_ofPrimary

end Script
end ScriptWeave
