import ScriptWeave.Proofs.Module.SymbolTable
import ScriptWeave.Proofs.Resolve.Imports

/-!
Links to other modules are answers of the table. Every way in which a name can come to mean a symbol
of another module, an import, a wildcard, the package, the top-level package or a qualified name,
ends in a lookup.
-/

namespace ScriptWeave
namespace Resolve

open Script (Context Import Reference)

theorem mem_distinct {α : Type} [DecidableEq α] {as : List α} {a : α} :
    a ∈ distinct as ↔ a ∈ as := by
  induction as with
  | nil => rfl
  | cons b as ih =>
      simp only [distinct, List.mem_cons, List.mem_filter, ih, decide_eq_true_eq]
      by_cases hab : a = b <;> simp [hab]

theorem nodup_distinct {α : Type} [DecidableEq α] (as : List α) : (distinct as).Nodup := by
  induction as with
  | nil => exact List.nodup_nil
  | cons a as ih =>
      rw [distinct, List.nodup_cons]
      exact ⟨by simp, ih.filter _⟩

namespace Environment

variable {env : Environment}

/-- The ways in which a name can come to mean a symbol of another module. -/
inductive Offers (env : Environment) (s : Symbol) : Prop where
  | imported (h : s ∈ env.imported)
  /-- By a wildcard, or by a qualified name. -/
  | visible {package name : String} (h : env.visible? package name = some s)
  | own {name : String} (h : env.table.lookup? env.package name = some s)
  | topLevel {name : String} (h : env.topLevel? name = some s)

theorem offers_of_symbol? {name : String} {s : Symbol} (h : env.symbol? name = .ok (some s)) :
    env.Offers s := by
  rw [symbol?] at h
  split at h
  · next x himported =>
      cases h
      exact .imported (List.mem_of_find?_eq_some himported)
  · split at h
    · next x hmatch =>
        cases h
        have hs : s ∈ env.wildcardMatches name := hmatch ▸ List.mem_singleton_self s
        obtain ⟨package, _, hvisible⟩ := List.mem_filterMap.1 (mem_distinct.1 hs)
        exact .visible hvisible
    · cases h
    · split at h
      · next x hpackage =>
          cases h
          exact .own hpackage
      · injection h with h
        exact .topLevel h

/-- A member of the class around a context is named by its name, and by the class if it is
static. -/
theorem member?_cases {ctx : Context} {name : String} {t : Target} (h : member? ctx name = some t) :
    ∃ (c : Script.ClassContext) (isStatic : Bool), ctx.around = some c ∧
      t = if isStatic then .static name c.name else .instance name c.name ctx.insideClosure := by
  obtain ⟨c, hc, hmember⟩ := Option.bind_eq_some_iff.1 h
  obtain ⟨isStatic, _, rfl⟩ := Option.map_eq_some_iff.1 hmember
  exact ⟨c, isStatic, hc, rfl⟩

theorem inherited?_cases {ctx : Context} {name : String} {t : Target}
    (h : inherited? ctx name = some t) :
    ∃ c, ctx.around = some c ∧ t = .instance name "" ctx.insideClosure := by
  rw [inherited?] at h
  split at h
  · next c hc =>
      split at h
      · cases h
        exact ⟨c, hc, rfl⟩
      · cases h
  · cases h

/-- The scopes that a name is looked up in, each where the ones before it do not know it. -/
theorem lookup_cases {ctx : Context} {name : String} {found : Option Target}
    (h : env.lookup ctx name = .ok found) :
    ctx.declares name = true ∧ found = some (.here name) ∨
    ctx.declares name = false ∧ ((∃ t, member? ctx name = some t ∧ found = some t) ∨
      member? ctx name = none ∧ (name ∈ env.declared ∧ found = some (.here name) ∨
        name ∉ env.declared ∧ ∃ s, env.symbol? name = .ok s ∧ found = s.map .external)) := by
  rw [lookup] at h
  split at h
  · next hdeclares =>
      cases h
      exact Or.inl ⟨hdeclares, rfl⟩
  · next hdeclares =>
      refine Or.inr ⟨Bool.not_eq_true _ ▸ hdeclares, ?_⟩
      split at h
      · next t hmember =>
          cases h
          exact Or.inl ⟨t, hmember, rfl⟩
      · next hmember =>
          refine Or.inr ⟨hmember, ?_⟩
          split at h
          · next hfile =>
              cases h
              exact Or.inl ⟨List.contains_iff_mem.1 hfile, rfl⟩
          · next hfile =>
              refine Or.inr ⟨mt List.contains_iff_mem.2 hfile, ?_⟩
              cases hsymbol : env.symbol? name with
              | error reason =>
                  rw [hsymbol] at h
                  cases h
              | ok s =>
                  rw [hsymbol] at h
                  cases h
                  exact ⟨s, rfl, rfl⟩

theorem offers_of_lookup {ctx : Context} {name : String} {s : Symbol}
    (h : env.lookup ctx name = .ok (some (.external s))) : env.Offers s := by
  obtain ⟨_, hs⟩ | ⟨_, ⟨t, hmember, hs⟩ | ⟨_, ⟨_, hs⟩ | ⟨_, found, hfound, hs⟩⟩⟩ := lookup_cases h
  · cases hs
  · cases hs
    obtain ⟨c, isStatic, _, ht⟩ := member?_cases hmember
    cases isStatic <;> cases ht
  · cases hs
  · obtain ⟨x, rfl, hx⟩ := Option.map_eq_some_iff.1 hs.symm
    cases hx
    exact offers_of_symbol? hfound

theorem offers_of_qualifiedUpTo? {parts : List String} {n k : Nat} {s : Symbol}
    (h : env.qualifiedUpTo? parts n = some (s, k)) : env.Offers s := by
  induction n with
  | zero => cases h
  | succ n ih =>
      rw [qualifiedUpTo?] at h
      split at h
      · next x hat =>
          cases h
          rw [qualifiedAt?] at hat
          split at hat
          · exact .visible hat
          · cases hat
      · exact ih h

theorem inherited?_ne_external {ctx : Context} {name : String} {s : Symbol} :
    inherited? ctx name ≠ some (.external s) := by
  intro h
  obtain ⟨c, _, hs⟩ := inherited?_cases h
  cases hs

/-- The ways in which an identifier gets its meaning, each where the ones before it give none. -/
theorem identifier_cases {r : Reference} {b : Binding} (h : env.identifier r = .ok b) :
    (∃ target, env.lookup r.context r.first = .ok (some target) ∧ b = ⟨target, 0⟩) ∨
    env.lookup r.context r.first = .ok none ∧
      ((∃ found, env.qualified? r.parts = some found ∧ b = ⟨.external found.1, found.2⟩) ∨
      env.qualified? r.parts = none ∧
        (isBuiltin r.first = true ∧ b = ⟨.builtin r.first, 0⟩ ∨
        isBuiltin r.first = false ∧
          ∃ target, inherited? r.context r.first = some target ∧ b = ⟨target, 0⟩)) := by
  rw [identifier] at h
  cases hlookup : env.lookup r.context r.first with
  | error reason =>
      rw [hlookup] at h
      cases h
  | ok found =>
      rw [hlookup] at h
      cases found with
      | some target =>
          cases h
          exact Or.inl ⟨target, rfl, rfl⟩
      | none =>
          refine Or.inr ⟨rfl, ?_⟩
          cases hqualified : env.qualified? r.parts with
          | some found =>
              rw [hqualified] at h
              cases h
              exact Or.inl ⟨found, rfl, rfl⟩
          | none =>
              rw [hqualified] at h
              refine Or.inr ⟨rfl, ?_⟩
              cases hbuiltin : isBuiltin r.first with
              | true =>
                  rw [hbuiltin] at h
                  cases h
                  exact Or.inl ⟨rfl, rfl⟩
              | false =>
                  rw [hbuiltin] at h
                  cases hinherited : inherited? r.context r.first with
                  | some target =>
                      rw [hinherited] at h
                      cases h
                      exact Or.inr ⟨rfl, target, rfl, rfl⟩
                  | none =>
                      rw [hinherited] at h
                      cases h

/-- The ways in which a type name gets its meaning, each where the ones before it give none. -/
theorem typeName_cases {r : Reference} {b : Binding} (h : env.typeName r = .ok b) :
    (∃ found, env.qualified? r.parts = some found ∧ b = ⟨.external found.1, found.2 + 1⟩) ∨
    env.qualified? r.parts = none ∧
      ((∃ target, env.lookup r.context r.first = .ok (some target) ∧ b = ⟨target, 1⟩) ∨
      env.lookup r.context r.first = .ok none ∧ isBuiltin r.first = true ∧
        b = ⟨.builtin r.first, 1⟩) := by
  rw [typeName] at h
  split at h
  · next x k hqualified =>
      cases h
      exact Or.inl ⟨_, hqualified, rfl⟩
  · next hqualified =>
      refine Or.inr ⟨hqualified, ?_⟩
      cases hlookup : env.lookup r.context r.first with
      | error reason =>
          rw [hlookup] at h
          cases h
      | ok found =>
          rw [hlookup] at h
          cases found with
          | some target =>
              cases h
              exact Or.inl ⟨target, rfl, rfl⟩
          | none =>
              change (if isBuiltin r.first then _ else _ : Except Reason Binding) = _ at h
              split at h
              · next hbuiltin =>
                  cases h
                  exact Or.inr ⟨rfl, hbuiltin, rfl⟩
              · cases h

/-- What the meaning of a reference names: what its first part is looked up as, a symbol that its
parts qualify, a global, or an inherited member. -/
theorem target_cases {r : Reference} {b : Binding} (h : env.bind r = .ok b) :
    env.lookup r.context r.first = .ok (some b.target) ∨
    (∃ found, env.qualified? r.parts = some found ∧ b.target = .external found.1) ∨
    env.lookup r.context r.first = .ok none ∧
      (isBuiltin r.first = true ∧ b.target = .builtin r.first ∨
        inherited? r.context r.first = some b.target) := by
  have htype (h : env.typeName r = .ok b) : env.lookup r.context r.first = .ok (some b.target) ∨
      (∃ found, env.qualified? r.parts = some found ∧ b.target = .external found.1) ∨
      env.lookup r.context r.first = .ok none ∧
        (isBuiltin r.first = true ∧ b.target = .builtin r.first ∨
          inherited? r.context r.first = some b.target) := by
    obtain ⟨found, hfound, rfl⟩ | ⟨_, ⟨target, hlookup, rfl⟩ | ⟨hlookup, hbuiltin, rfl⟩⟩ :=
      typeName_cases h
    · exact Or.inr (Or.inl ⟨found, hfound, rfl⟩)
    · exact Or.inl hlookup
    · exact Or.inr (Or.inr ⟨hlookup, Or.inl ⟨hbuiltin, rfl⟩⟩)
  rw [bind] at h
  split at h
  · obtain ⟨target, hlookup, rfl⟩ | ⟨hlookup, ⟨found, hfound, rfl⟩ | ⟨_, ⟨hbuiltin, rfl⟩ |
      ⟨_, target, hinherited, rfl⟩⟩⟩ := identifier_cases h
    · exact Or.inl hlookup
    · exact Or.inr (Or.inl ⟨found, hfound, rfl⟩)
    · exact Or.inr (Or.inr ⟨hlookup, Or.inl ⟨hbuiltin, rfl⟩⟩)
    · exact Or.inr (Or.inr ⟨hlookup, Or.inr hinherited⟩)
  · exact htype h
  · exact htype h

theorem offers_of_bind {r : Reference} {b : Binding} {s : Symbol} (h : env.bind r = .ok b)
    (hs : b.target = .external s) : env.Offers s := by
  obtain hlookup | ⟨found, hqualified, hfound⟩ | ⟨_, ⟨_, hbuiltin⟩ | hinherited⟩ := target_cases h
  · exact offers_of_lookup (hs ▸ hlookup)
  · cases hs.symm.trans hfound
    exact offers_of_qualifiedUpTo? hqualified
  · cases hs.symm.trans hbuiltin
  · exact absurd (hs ▸ hinherited) inherited?_ne_external

/-- Whatever is imported by name is a visible symbol of the table. -/
def Screened (env : Environment) : Prop :=
  ∀ s ∈ env.imported, ∃ package name, env.visible? package name = some s

theorem screened_ofFile (table : SymbolTable) (file : Script.File) :
    (ofFile table file).Screened := by
  intro s hs
  exact absurd hs List.not_mem_nil

theorem finds_of_visible? {package name : String} {s : Symbol}
    (h : env.visible? package name = some s) : env.table.Finds s :=
  ⟨package, name, (Option.filter_eq_some_iff.1 h).1⟩

theorem Offers.finds (henv : env.Screened) {s : Symbol} (h : env.Offers s) : env.table.Finds s := by
  cases h with
  | imported h =>
      obtain ⟨package, name, hvisible⟩ := henv s h
      exact finds_of_visible? hvisible
  | visible h => exact finds_of_visible? h
  | own h => exact ⟨_, _, h⟩
  | topLevel h => exact ⟨_, _, (Option.filter_eq_some_iff.1 h).1⟩

theorem visible?_eq {env' : Environment} (htable : env'.table = env.table)
    (hpackage : env'.package = env.package) : env'.visible? = env.visible? := by
  funext package name
  rw [visible?, visible?, htable]
  congr 1
  funext s
  rw [sees, sees, hpackage]

theorem imported_importAll {package : String} {env' : Environment}
    (h : env.importAll package = .ok env') : env'.imported = env.imported := by
  rw [importAll] at h
  split at h
  · cases h
    split <;> rfl
  · cases h

theorem importOne_ok {package name : String} {env' : Environment}
    (h : env.importOne package name = .ok env') :
    ∃ s, env.visible? package name = some s ∧ ∀ x ∈ env'.imported, x ∈ env.imported ∨ x = s := by
  rw [importOne] at h
  split at h
  · split at h
    · cases h
    · next symbol hsymbol =>
        split at h
        · next hsees =>
            refine ⟨symbol, Option.filter_eq_some_iff.2 ⟨hsymbol, hsees⟩, ?_⟩
            split at h
            · cases h
              intro x hx
              cases List.mem_append.1 hx with
              | inl hx => exact Or.inl hx
              | inr hx => exact Or.inr (List.mem_singleton.1 hx)
            · split at h
              · cases h
                exact fun x hx => Or.inl hx
              · cases h
        · cases h
  · cases h

theorem Screened.addImport (henv : env.Screened) {i : Import} {env' : Environment}
    (h : env.addImport i = .ok env') : env'.Screened := by
  obtain ⟨htable, hpackage, _⟩ := addImport_same h
  intro x hx
  rw [visible?_eq htable hpackage]
  rw [Environment.addImport] at h
  split at h
  · exact henv x (imported_importAll h ▸ hx)
  · obtain ⟨s, hs, honly⟩ := importOne_ok h
    cases honly x hx with
    | inl hold => exact henv x hold
    | inr hnew => exact ⟨_, _, hnew ▸ hs⟩

theorem Screened.addImports (henv : env.Screened) (imports : List Import) :
    (env.addImports imports).1.Screened := by
  induction imports generalizing env with
  | nil => exact henv
  | cons i imports ih =>
      rw [Environment.addImports]
      cases hadd : env.addImport i with
      | ok env' => exact ih (henv.addImport hadd)
      | error reason => exact ih henv

/-- When no import is refused, each import by name is of a symbol that the file sees. -/
theorem visible?_of_addImports {imports : List Import} (h : (env.addImports imports).2 = []) :
    ∀ i ∈ imports, i.wildcard = false →
      ∃ s, env.visible? i.name.qualifier i.name.last = some s := by
  induction imports generalizing env with
  | nil => simp
  | cons i imports ih =>
      rw [Environment.addImports] at h
      cases hadd : env.addImport i with
      | error reason => simp [hadd] at h
      | ok env' =>
          rw [hadd] at h
          obtain ⟨htable, hpackage, _⟩ := addImport_same hadd
          have hrest := ih h
          rw [visible?_eq htable hpackage] at hrest
          intro j hj hwildcard
          obtain rfl | hj := List.mem_cons.1 hj
          · rw [Environment.addImport, hwildcard] at hadd
            obtain ⟨s, hs, _⟩ := importOne_ok hadd
            exact ⟨s, hs⟩
          · exact hrest j hj hwildcard

end Environment

theorem bind_of_mem_linkAll {env : Environment} {references : List Reference} {l : Link}
    (h : l ∈ (linkAll env references).1) : env.bind l.reference = .ok l.binding := by
  induction references with
  | nil => exact absurd h List.not_mem_nil
  | cons r references ih =>
      rw [linkAll] at h
      cases hbind : env.bind r with
      | ok binding =>
          rw [hbind] at h
          cases List.mem_cons.1 h with
          | inl hl => exact hl ▸ hbind
          | inr hl => exact ih hl
      | error reason =>
          rw [hbind] at h
          exact ih h

/-- The links of a resolved module are offers of the environment that its imports make. -/
theorem run_offers {source : Source} {table : SymbolTable} {m : Module}
    (h : run source table = .ok m) : m.source = source ∧ ∃ env : Environment, env.table = table ∧
      env.package = source.file.packageName ∧ env.Screened ∧
      (∀ i ∈ source.file.imports, i.wildcard = false →
        ∃ s, env.visible? i.name.qualifier i.name.last = some s) ∧
      ∀ l ∈ m.links, ∀ s, l.binding.target = .external s → env.Offers s := by
  rw [run] at h
  dsimp only at h
  split at h
  · next hnone =>
      obtain ⟨hrefused, _⟩ := List.append_eq_nil_iff.1 hnone
      cases h
      obtain ⟨_, htable, hpackage, _⟩ :=
        (Environment.holds_ofFile table source.file).addImports source.file.imports hrefused
      have hvisible := Environment.visible?_of_addImports hrefused
      rw [← Environment.visible?_eq htable hpackage] at hvisible
      refine ⟨rfl, _, htable, hpackage, (Environment.screened_ofFile _ _).addImports _,
        hvisible, ?_⟩
      intro l hl s hs
      exact Environment.offers_of_bind (bind_of_mem_linkAll hl) hs
  · cases h

theorem Link.symbol?_eq_some_iff {l : Link} {s : Symbol} :
    l.symbol? = some s ↔ l.binding.target = .external s := by
  rw [symbol?]
  cases l.binding.target <;> simp

/-- A resolved module keeps its source, and the table answers with every symbol that it uses. -/
theorem run_ok {source : Source} {table : SymbolTable} {m : Module} (h : run source table = .ok m) :
    m.source = source ∧ ∀ s ∈ m.uses, table.Finds s := by
  obtain ⟨hsource, env, rfl, _, hscreened, _, hoffers⟩ := run_offers h
  refine ⟨hsource, ?_⟩
  intro s hs
  obtain ⟨l, hl, hsymbol⟩ := List.mem_filterMap.1 hs
  exact (hoffers l hl s (Link.symbol?_eq_some_iff.1 hsymbol)).finds hscreened

theorem Module.mem_dependencies {m : Module} {id : ModuleId} :
    id ∈ m.dependencies ↔ ∃ s ∈ m.uses, s.exportPath = id := by
  rw [dependencies, mem_distinct, List.mem_map]

end Resolve
end ScriptWeave
