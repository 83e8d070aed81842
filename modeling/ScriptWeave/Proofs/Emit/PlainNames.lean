import ScriptWeave.Proofs.Emit.Agreement
import ScriptWeave.Proofs.Resolve.Precedence

/-!
Names that stand for themselves: parameters, variables and declarations of the file, and globals.
A function all of whose references stand for themselves has the text that no meaning at all gives.
-/

namespace ScriptWeave

namespace Resolve

open Script (Reference)

/-- A parameter, a variable or a declaration of the file, or else a global. -/
def Target.isBare : Target → Bool
  | .here _ | .builtin _ => true
  | .instance _ _ _ | .static _ _ | .external _ => false

/-- The meaning is the first part of the reference and takes up `consume` parts. -/
def Binding.Bare (r : Reference) (consume : Nat) (b : Binding) : Prop :=
  (b.target = .here r.first ∨ b.target = .builtin r.first) ∧ b.consume = consume

namespace Environment

variable {env : Environment} {r : Reference} {b : Binding}

theorem here_of_lookup {ctx : Script.Context} {name : String} {t : Target}
    (h : env.lookup ctx name = .ok (some t)) (ht : t.isBare = true) : t = .here name := by
  obtain ⟨_, hfound⟩ | ⟨_, ⟨_, hmember, hfound⟩ | ⟨_, ⟨_, hfound⟩ | ⟨_, _, _, hfound⟩⟩⟩ :=
    lookup_cases h
  · exact Option.some.inj hfound
  · cases hfound
    obtain ⟨c, isStatic, _, rfl⟩ := member?_cases hmember
    cases isStatic <;> cases ht
  · exact Option.some.inj hfound
  · obtain ⟨s, _, rfl⟩ := Option.map_eq_some_iff.1 hfound.symm
    cases ht

theorem bare_of_identifier (h : env.identifier r = .ok b) (hb : b.target.isBare = true) :
    b.Bare r 0 := by
  obtain ⟨target, hlookup, rfl⟩ | ⟨_, ⟨found, _, rfl⟩ | ⟨_, ⟨_, rfl⟩ |
    ⟨_, target, hinherited, rfl⟩⟩⟩ := identifier_cases h
  · exact ⟨Or.inl (here_of_lookup hlookup hb), rfl⟩
  · cases hb
  · exact ⟨Or.inr rfl, rfl⟩
  · obtain ⟨c, _, rfl⟩ := inherited?_cases hinherited
    cases hb

theorem bare_of_typeName (h : env.typeName r = .ok b) (hb : b.target.isBare = true) :
    b.Bare r 1 := by
  obtain ⟨found, _, rfl⟩ | ⟨_, ⟨target, hlookup, rfl⟩ | ⟨_, _, rfl⟩⟩ := typeName_cases h
  · cases hb
  · exact ⟨Or.inl (here_of_lookup hlookup hb), rfl⟩
  · exact ⟨Or.inr rfl, rfl⟩

theorem bare_of_bind (h : env.bind r = .ok b) (hb : b.target.isBare = true) :
    b.Bare r (if r.key.kind = .ident then 0 else 1) := by
  rw [bind] at h
  split at h
  · next hkind => simpa [hkind] using bare_of_identifier h hb
  · next hkind => simpa [hkind] using bare_of_typeName h hb
  · next hkind => simpa [hkind] using bare_of_typeName h hb

end Environment

/-- A resolved module has a link for every reference of a parsed file, which its key leads to. -/
theorem exists_link {source : Source} {table : SymbolTable} {m : Module} {text : String}
    (hparse : Script.parse text = .ok source.file) (hrun : run source table = .ok m)
    {r : Reference} (hr : r ∈ source.file.references) :
    ∃ l ∈ m.links, l.reference = r ∧ m.binding? r.key = some l.binding := by
  obtain ⟨env, _, _, _, _, hreferences, _⟩ := run_eq_ok hrun
  have hnodup := Script.nodup_keys_of_parse hparse
  rw [← hreferences, List.map_map] at hnodup
  rw [← hreferences] at hr
  obtain ⟨l, hl, rfl⟩ := List.mem_map.1 hr
  exact ⟨l, hl, rfl, Module.binding?_of_mem hnodup hl⟩

/-- In a parsed file the meaning that is recorded for a reference is the one that it is given. -/
theorem bind_of_binding? {source : Source} {table : SymbolTable} {m : Module} {text : String}
    (hparse : Script.parse text = .ok source.file) (hrun : run source table = .ok m)
    {r : Reference} (hr : r ∈ source.file.references) :
    ∃ env : Environment, env.declared = source.file.declaredNames ∧
      ∀ b, m.binding? r.key = some b → env.bind r = .ok b := by
  obtain ⟨env, _, _, hdeclared, _, _, hbind⟩ := run_eq_ok hrun
  obtain ⟨l, hl, rfl, hbinding⟩ := exists_link hparse hrun hr
  refine ⟨env, hdeclared, fun b hb => ?_⟩
  cases Option.some.inj (hbinding.symm.trans hb)
  exact hbind l hl

end Resolve

namespace Emit

open Script

/-- The meaning under which every name stands for itself. -/
def Meaning.plain : Meaning where
  binding? _ := none
  captures _ := false

/-- The reference is printed as it is written. -/
def Meaning.Keeps (m : Meaning) (r : Reference) : Prop :=
  ∀ b, m.binding? r.key = some b → target b.target = [.word r.first] ∧
    b.consume = if r.key.kind = .ident then 0 else 1

theorem Meaning.Keeps.spelling {m : Meaning} {r : Reference} (h : m.Keeps r) :
    m.spelling r = Meaning.plain.spelling r := by
  rw [Meaning.spelling, Meaning.spelling]
  cases hb : m.binding? r.key with
  | none => rfl
  | some b =>
      obtain ⟨htarget, hconsume⟩ := h b hb
      simp only [htarget, hconsume, plain]

/-- A function all of whose references are printed as they are written. -/
theorem keeps_function {m : Meaning} {ctx : Context} {f : Function}
    (h : ∀ r ∈ References.function ctx f, m.Keeps r) (d : Nat)
    (header ending prologue : List Piece) :
    function m d header f.params f.body ending prologue =
      function .plain d header f.params f.body ending prologue :=
  function_congr (fun r hr => (h r hr).spelling) d header ending prologue

/-- The references of a function that mean nothing but themselves are printed as they are
written. -/
theorem keeps_of_run {source : Source} {table : SymbolTable} {r : Resolve.Module}
    {text : String} (hparse : parse text = .ok source.file)
    (hrun : Resolve.run source table = .ok r) {d : Decl} (hd : d ∈ source.file.decls)
    {f : Function} (hf : d.body = .function f)
    (hbare : ∀ x ∈ References.function .outer f,
      ∃ b, r.binding? x.key = some b ∧ b.target.isBare = true) :
    ∀ x ∈ References.function .outer f, (Meaning.ofModule r).Keeps x := by
  intro x hx b hb
  have hmem : x ∈ source.file.references := by
    refine List.mem_flatMap.2 ⟨d, hd, ?_⟩
    rw [References.decl, hf]
    exact hx
  obtain ⟨env, _, hbind⟩ := Resolve.bind_of_binding? hparse hrun hmem
  obtain ⟨b', hb', htarget⟩ := hbare x hx
  cases Option.some.inj (hb.symm.trans hb')
  obtain ⟨hname, hconsume⟩ := Resolve.Environment.bare_of_bind (hbind b hb) htarget
  refine ⟨?_, hconsume⟩
  obtain hname | hname := hname
  · rw [hname, target]
  · rw [hname, target]

end Emit
end ScriptWeave
