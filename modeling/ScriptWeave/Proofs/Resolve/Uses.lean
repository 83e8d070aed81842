import ScriptWeave.Proofs.Emit.PlainNames
import ScriptWeave.Proofs.Script.Homes

/-!
What a name can mean where it is used: something that a function around it declares, a member of the
class of its home, a declaration of the file, a global, or a symbol of some module. A member of the
receiver that is used below a function literal marks the part of the class that it is used in.
-/

namespace ScriptWeave
namespace Resolve

open Script (Enclosing File Home Reference Use)

/-- What a name can mean where it is used. -/
inductive Means (file : File) (home : Home) (u : Use) : Target → Prop where
  | local (h : ∃ f ∈ u.functions, f.Declares u.name) : Means file home u (.here u.name)
  | static {c : Script.Class} (hc : home.type? = some c) : Means file home u (.static u.name c.name)
  | receiver {c : Script.Class} {type : String} {captured : Bool} (hc : home.type? = some c)
      (hcaptured : captured = true ↔ ∃ f ∈ u.functions, f.literal = true) :
      Means file home u (.instance u.name type captured)
  | declared (hlocal : ∀ f ∈ u.functions, ¬ f.Declares u.name)
      (hfile : u.name ∈ file.declaredNames) :
      Means file home u (.here u.name)
  | builtin (hlocal : ∀ f ∈ u.functions, ¬ f.Declares u.name) (hfile : u.name ∉ file.declaredNames)
      (hbuiltin : u.name ∈ builtins) : Means file home u (.builtin u.name)
  | external {s : Symbol} : Means file home u (.external s)

variable {file : File} {home : Home} {u : Use}

theorem exists_type_of_around {around : Script.ClassContext} (h : home.around = some around) :
    ∃ c, home.type? = some c ∧ around.name = c.name := by
  obtain ⟨owner, hshape⟩ := home.around_type?
  rw [h] at hshape
  obtain ⟨c, hc, hcontext⟩ := Option.map_eq_some_iff.1 hshape.symm
  exact ⟨c, hc, hcontext ▸ rfl⟩

namespace Environment

variable {env : Environment} {r : Reference}

theorem not_declares_of_context
    (h : (⟨u.functions.map Enclosing.frame, home.around⟩ : Script.Context).declares u.name =
        false) :
    ∀ f ∈ u.functions, ¬ f.Declares u.name := by
  intro f hf hdeclares
  rw [Enclosing.declares_context.2 ⟨f, hf, hdeclares⟩] at h
  cases h

theorem means_of_bind {b : Binding} (h : env.bind r = .ok b)
    (hdeclared : env.declared = file.declaredNames) (hfirst : r.first = u.name)
    (hcontext : r.context = ⟨u.functions.map Enclosing.frame, home.around⟩) :
    Means file home u b.target := by
  have hinside : (⟨u.functions.map Enclosing.frame, home.around⟩ : Script.Context).insideClosure =
      true ↔ ∃ f ∈ u.functions, f.literal = true := Enclosing.insideClosure_context
  have hcases := target_cases h
  rw [hfirst, hcontext] at hcases
  generalize b.target = target at hcases ⊢
  obtain hlookup | ⟨found, _, hfound⟩ | ⟨hlookup, ⟨hbuiltin, ht⟩ | hinherited⟩ := hcases
  · obtain ⟨hlocal, ht⟩ | ⟨hlocal, ⟨t, hmember, ht⟩ | ⟨_, ⟨hfile, ht⟩ | ⟨_, s, _, ht⟩⟩⟩ :=
      lookup_cases hlookup
    · cases Option.some.inj ht
      exact .local (Enclosing.declares_context.1 hlocal)
    · cases Option.some.inj ht
      obtain ⟨around, isStatic, haround, rfl⟩ := member?_cases hmember
      obtain ⟨c, hc, hname⟩ := exists_type_of_around haround
      cases isStatic with
      | true => exact hname ▸ .static hc
      | false => exact .receiver hc hinside
    · cases Option.some.inj ht
      exact .declared (not_declares_of_context hlocal) (hdeclared ▸ hfile)
    · obtain ⟨s, rfl, hs⟩ := Option.map_eq_some_iff.1 ht.symm
      exact hs ▸ .external
  · exact hfound ▸ .external
  · subst ht
    obtain ⟨_, ht⟩ | ⟨hlocal, ⟨_, _, ht⟩ | ⟨_, ⟨_, ht⟩ | ⟨hfile, _⟩⟩⟩ := lookup_cases hlookup
    · cases ht
    · cases ht
    · cases ht
    · exact .builtin (not_declares_of_context hlocal) (hdeclared ▸ hfile)
        (List.contains_iff_mem.1 hbuiltin)
  · obtain ⟨around, haround, ht⟩ := inherited?_cases hinherited
    obtain ⟨c, hc, _⟩ := exists_type_of_around haround
    exact ht ▸ .receiver hc hinside

end Environment

section

variable {text : String} {source : Source} {table : SymbolTable} {m : Module}

theorem means_of_binding? (hparse : Script.parse text = .ok source.file)
    (hrun : run source table = .ok m) (hu : source.file.UsesAt home u) {b : Binding}
    (hb : m.binding? u.key = some b) : Means source.file home u b.target := by
  obtain ⟨r, hr, hkey, hfirst, hcontext⟩ := hu.reference
  obtain ⟨env, hdeclared, hbind⟩ := bind_of_binding? hparse hrun hr
  exact Environment.means_of_bind (hbind b (hkey ▸ hb)) hdeclared hfirst hcontext

/-- The part of the class that uses a member of the receiver below a function literal is marked. -/
theorem captures_of_binding? (hparse : Script.parse text = .ok source.file)
    (hrun : run source table = .ok m) (hu : source.file.UsesAt home u) {b : Binding}
    (hb : m.binding? u.key = some b) {x type : String} (ht : b.target = .instance x type true)
    {around : Script.ClassContext} (haround : home.around = some around) :
    around.owner ∈ m.captures := by
  obtain ⟨r, hr, hkey, _, hcontext⟩ := hu.reference
  obtain ⟨l, hl, rfl, hbinding⟩ := exists_link hparse hrun hr
  cases Option.some.inj ((hkey ▸ hbinding).symm.trans hb)
  refine mem_distinct.2 (List.mem_filterMap.2 ⟨l, hl, ?_⟩)
  rw [Link.captures?, ht, hcontext, haround]
  rfl

/-- A superclass is a declaration of the file, a global, or a symbol of some module. -/
theorem base_of_binding? (hparse : Script.parse text = .ok source.file)
    (hrun : run source table = .ok m) {d : Script.Decl} (hd : d ∈ source.file.decls)
    {c : Script.Class} (hc : d.body = .type c) {q : Script.QualifiedName} (hq : c.base = some q)
    {b : Binding} (hb : m.binding? ⟨.base, q.pos⟩ = some b) :
    b.target = .here q.first ∨ b.target = .builtin q.first ∨ ∃ s, b.target = .external s := by
  have hr := Script.File.base_mem_references hd hc hq
  obtain ⟨env, _, hbind⟩ := bind_of_binding? hparse hrun hr
  obtain hlookup | ⟨found, _, hfound⟩ | ⟨_, ⟨_, hbuiltin⟩ | hinherited⟩ :=
    Environment.target_cases (hbind b hb)
  · obtain ⟨_, ht⟩ | ⟨_, ⟨_, hmember, _⟩ | ⟨_, ⟨_, ht⟩ | ⟨_, s, _, ht⟩⟩⟩ :=
      Environment.lookup_cases hlookup
    · exact Or.inl (Option.some.inj ht)
    · cases hmember
    · exact Or.inl (Option.some.inj ht)
    · obtain ⟨x, _, hx⟩ := Option.map_eq_some_iff.1 ht.symm
      exact Or.inr (Or.inr ⟨x, hx.symm⟩)
  · exact Or.inr (Or.inr ⟨_, hfound⟩)
  · exact Or.inr (Or.inl hbuiltin)
  · cases hinherited

theorem exists_reference_of_binding? (hrun : run source table = .ok m) {key : Script.ReferenceKey}
    {b : Binding} (hb : m.binding? key = some b) : ∃ r ∈ source.file.references, r.key = key := by
  obtain ⟨_, _, _, _, _, hreferences, _⟩ := run_eq_ok hrun
  obtain ⟨l, hl, _⟩ := Option.map_eq_some_iff.1 hb
  refine ⟨l.reference, ?_, by simpa using List.find?_some hl⟩
  exact hreferences ▸ List.mem_map.2 ⟨l, List.mem_of_find?_eq_some hl, rfl⟩

end

end Resolve
end ScriptWeave
