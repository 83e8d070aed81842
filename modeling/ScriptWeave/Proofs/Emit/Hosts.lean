import ScriptWeave.Proofs.Emit.Linking
import ScriptWeave.Proofs.Emit.Scopes

/-!
The names that printing introduces. A symbol of another module is read off a parameter of the
factory or off the table of a merged module, a static member off its class, and `super` is the
parameter of the function around the class. Each stands for what it is meant to exactly where no
scope further in hides it.
-/

namespace ScriptWeave
namespace Emit

open Script (Home Layer)

/-- The emitted module that has the declarations of a file. -/
inductive Host where
  | direct (id : ModuleId)
  | merged (members : List (MergedMember Resolve.Module))

namespace Host

def link (host : Host) (m : Resolve.Module) : Symbol → String :=
  match host with
  | direct id => Direct.link id m
  | merged members => Merged.link members

def dependencies (host : Host) (m : Resolve.Module) : List ModuleId :=
  match host with
  | direct id => Direct.dependencies id m
  | merged members => Merged.dependencies members

def scopes (host : Host) (m : Resolve.Module) : List Scope :=
  match host with
  | direct _ => [.factory (host.dependencies m).length]
  | merged _ => [.table, .factory (host.dependencies m).length]

/-- The file is one that the emitted module can have: a direct module needs no module of its own id,
and a merged one has the file among its members. -/
def Admits (host : Host) (m : Resolve.Module) : Prop :=
  match host with
  | direct id => ∀ s ∈ m.uses, s.exportPath ≠ id
  | merged members => ∃ member ∈ members, member.tree = m

/-- The name that the spelling of a symbol starts with, and what it is meant to stand for: the
parameter for the module of the symbol, or the table, which has that module under the key. -/
inductive Spells (host : Host) (m : Resolve.Module) (s : Symbol) : String → Referent → Prop where
  | parameter {i : Nat} (htext : host.link m s = parameter i ++ "." ++ s.name)
      (hentry : (dependencyList (host.dependencies m))[i]? =
        some ⟨s.exportPath.logicalName, parameter i⟩) :
      Spells host m s (parameter i) .dependency
  | table {members : List (MergedMember Resolve.Module)} {member : MergedMember Resolve.Module}
      (hhost : host = merged members) (hmember : member ∈ members) (hid : member.id = s.exportPath)
      (htext : host.link m s =
        "__merged[" ++ Text.JsonString.literal member.key ++ "]." ++ s.name) :
      Spells host m s "__merged" .table

variable {host : Host} {m : Resolve.Module} {s : Symbol} {x : String} {r : Referent}

theorem Admits.exists_spelling (h : host.Admits m) (hs : s ∈ m.uses) :
    ∃ x r, host.Spells m s x r := by
  cases host with
  | direct id =>
      obtain ⟨i, htext, _, hentry⟩ := Direct.readsParameter_link hs (h s hs)
      exact ⟨_, _, .parameter (i := i) htext hentry⟩
  | merged members =>
      obtain ⟨member, hmember, rfl⟩ := h
      obtain ⟨i, htext, _, hentry⟩ | ⟨x, hx, hid, htext⟩ := Merged.reads_link hmember hs
      · exact ⟨_, _, .parameter (i := i) htext hentry⟩
      · exact ⟨_, _, .table rfl hx hid htext⟩

theorem Spells.exists_rest (h : host.Spells m s x r) : ∃ rest, x = "__m" ++ rest := by
  cases h with
  | @parameter i _ _ => exact ⟨toString i, rfl⟩
  | table _ _ _ _ => exact ⟨"erged", rfl⟩

theorem ne_of_rest {y : String} (hx : ∃ rest, x = "__m" ++ rest)
    (hy : ¬ ['_', '_', 'm'] <+: y.toList) : x ≠ y := by
  obtain ⟨rest, rfl⟩ := hx
  rintro rfl
  exact hy ⟨rest.toList, by rw [String.toList_append]; rfl⟩

theorem parameter_ne_table (i : Nat) : parameter i ≠ "__merged" := by
  intro h
  have hdigits : Nat.toDigits 10 i = ['e', 'r', 'g', 'e', 'd'] := by
    have htext : "__m" ++ i.repr = "__m" ++ "erged" := h
    rw [String.append_right_inj] at htext
    rw [← Nat.toList_repr, htext]
    rfl
  have hdigit : 'e'.isDigit = true :=
    Nat.isDigit_of_mem_toDigits (by decide) (by decide) (hdigits ▸ List.mem_cons_self)
  exact absurd hdigit (by decide)

theorem binds_table_iff {x : String} {r : Referent} :
    Scope.table.Binds x r ↔ x = "__merged" ∧ r = .table := by
  constructor
  · intro h
    cases h with
    | declared h =>
        cases h
        exact ⟨rfl, rfl⟩
    | arguments hs _ => cases hs
  · rintro ⟨rfl, rfl⟩
    exact .declared .table

/-- The scopes of the emitted module have what a spelling is meant to stand for. -/
theorem Spells.denotes (h : host.Spells m s x r) : Denotes (host.scopes m) x (some r) := by
  cases h with
  | @parameter i _ hentry =>
      have hlt : i < (host.dependencies m).length := by
        have hlt := (List.getElem?_eq_some_iff.1 hentry).1
        simpa [dependencyList] using hlt
      have hfactory : Denotes [.factory (host.dependencies m).length] (Emit.parameter i)
          (some .dependency) := .found (.declared (.dependency hlt))
      cases host with
      | direct id => exact hfactory
      | merged members =>
          exact .outward (fun r hr => parameter_ne_table i (binds_table_iff.1 hr).1) hfactory
  | table hhost _ _ _ =>
      subst hhost
      exact .found (.declared .table)

/-- They bind nothing but made-up names and `arguments`. -/
theorem denotes_scopes_none (hx : ¬ ['_', '_', 'm'] <+: x.toList) (hargs : x ≠ "arguments") :
    Denotes (host.scopes m) x none := by
  have hfactory : Denotes [.factory (host.dependencies m).length] x none := by
    refine .outward (fun r hr => ?_) .free
    cases (Scope.binds_iff_declares hargs).1 hr with
    | @dependency i hi => exact ne_of_rest ⟨toString _, rfl⟩ hx rfl
  cases host with
  | direct id => exact hfactory
  | merged members =>
      refine .outward (fun r hr => ?_) hfactory
      exact ne_of_rest ⟨"erged", rfl⟩ hx (binds_table_iff.1 hr).1.symm

/-- The scopes around a place at a home of the file. -/
def chain (host : Host) (m : Resolve.Module) (home : Home) (ls : List Layer) : List Scope :=
  home.inner (.ofModule m) ls ++
    (home.wrappers ++ .file m.source.file.declaredNames :: host.scopes m)

end Host

variable {host : Host} {m : Resolve.Module} {home : Home} {ls : List Layer} {x : String}

theorem forall_not_hides_iff {ls : List Layer} (hx : x ≠ "arguments") :
    (∀ l ∈ ls, ¬ l.Hides x) ↔ ∀ l ∈ ls, ¬ l.Binds x := by
  simp only [Layer.hides_iff_binds hx]

theorem denotes_file_iff {s : Symbol} {r : Referent} (h : host.Spells m s x r) :
    Denotes (.file m.source.file.declaredNames :: host.scopes m) x (some r) ↔
      x ∉ m.source.file.declaredNames := by
  have hargs : x ≠ "arguments" := Host.ne_of_rest h.exists_rest (by decide)
  have hne : some r ≠ some .declaration := by
    cases h <;> simp
  rw [denotes_cons_iff_of_ne, and_iff_left h.denotes]
  · simp only [Scope.binds_file_iff hargs]
    exact ⟨fun hnone hmem => hnone _ ⟨hmem, rfl⟩, fun hmem _ hr => hmem hr.1⟩
  · intro r' hr'
    rw [(Scope.binds_file_iff hargs).1 hr' |>.2]
    exact hne

/-- The spelling of a symbol stands for the module of the symbol where no function, clause or
declaration around it has the name. -/
theorem denotes_spelling_iff (hhome : m.source.file.Has home) {s : Symbol} {r : Referent}
    (h : host.Spells m s x r) : Denotes (host.chain m home ls) x (some r) ↔
      (∀ l ∈ ls ++ home.moved, ¬ l.Binds x) ∧ x ∉ m.source.file.declaredNames := by
  have hargs : x ≠ "arguments" := Host.ne_of_rest h.exists_rest (by decide)
  have hthis : x ≠ "_this" := Host.ne_of_rest h.exists_rest (by decide)
  have hsuper : x ≠ "_super" := Host.ne_of_rest h.exists_rest (by decide)
  have hwrappers : Denotes (home.wrappers ++ .file m.source.file.declaredNames :: host.scopes m) x
      (some r) ↔ x ∉ m.source.file.declaredNames := by
    rw [denotes_append_iff_of_ne, denotes_file_iff h]
    · refine and_iff_right_of_imp fun hmem s hs r hr => ?_
      obtain ⟨c, hc, rfl⟩ := Home.mem_wrappers.1 hs
      have hname : x ≠ c.name := fun heq => hmem (heq ▸ hhome.name_mem hc)
      exact hsuper ((Scope.binds_wrapper_iff hname hargs).1 hr).1
    · intro s hs r' hr'
      obtain ⟨c, hc, rfl⟩ := Home.mem_wrappers.1 hs
      obtain rfl | rfl := Scope.referent_of_binds_wrapper hargs hr' <;> cases h <;> simp
  rw [Host.chain, denotes_inner_iff, hwrappers, forall_not_hides_iff hargs,
    and_iff_left fun _ => hthis]
  · cases h <;> simp
  · cases h <;> simp

/-- A class is named by its own function, which only functions, clauses and saved receivers hide. -/
theorem denotes_type_iff {c : Script.Class} (hc : home.type? = some c) :
    Denotes (host.chain m home ls) c.name (some .declaration) ↔
      (∀ l ∈ ls ++ home.moved, ¬ l.Hides c.name) ∧
        (home.saves (.ofModule m) = true → c.name ≠ "_this") := by
  rw [Host.chain, denotes_inner_iff (by simp) (by simp), Home.wrappers_eq hc, List.singleton_append,
    denotes_cons_iff_of_eq fun _ => Scope.binds_wrapper_self_iff, and_iff_left rfl]

/-- A declaration can be hidden by the superclass, too, which is nearer than the file. -/
theorem denotes_declaration_iff {c : Script.Class} (hc : home.type? = some c)
    (hx : x ∈ m.source.file.declaredNames)
    (hargs : (∀ l ∈ ls ++ home.moved, ¬ l.Hides x) → x ≠ "arguments") :
    Denotes (host.chain m home ls) x (some .declaration) ↔
      (∀ l ∈ ls ++ home.moved, ¬ l.Hides x) ∧ (home.saves (.ofModule m) = true → x ≠ "_this") ∧
        (x = "_super" → c.name = "_super") := by
  rw [Host.chain, denotes_inner_iff (by simp) (by simp), Home.wrappers_eq hc, List.singleton_append,
    and_assoc]
  refine and_congr_right fun hlayers => and_congr_right fun _ => ?_
  replace hargs := hargs hlayers
  by_cases hname : x = c.name
  · rw [hname, denotes_cons_iff_of_eq fun _ => Scope.binds_wrapper_self_iff]
    simp
  · have hfile : Denotes (.file m.source.file.declaredNames :: host.scopes m) x
        (some .declaration) := .found (.declared (.declaration hx))
    rw [denotes_cons_iff_of_ne, and_iff_left hfile]
    · simp only [Scope.binds_wrapper_iff hname hargs]
      constructor
      · exact fun hnone hsuper => absurd ⟨hsuper, rfl⟩ (hnone _)
      · exact fun himp r hr => hname (hr.1.trans (himp hr.1).symm)
    · intro r hr
      rw [((Scope.binds_wrapper_iff hname hargs).1 hr).2]
      simp

/-- A name that is declared nowhere and that printing does not make up is a global. -/
theorem denotes_global_iff (hhome : m.source.file.Has home) (hx : x ∉ m.source.file.declaredNames)
    (hmade : ¬ ['_'] <+: x.toList)
    (hargs : (∀ l ∈ ls ++ home.moved, ¬ l.Hides x) → x ≠ "arguments") :
    Denotes (host.chain m home ls) x none ↔ ∀ l ∈ ls ++ home.moved, ¬ l.Hides x := by
  have hthis : x ≠ "_this" := fun h => hmade (h ▸ by decide)
  have hsuper : x ≠ "_super" := fun h => hmade (h ▸ by decide)
  rw [Host.chain, denotes_inner_iff (by simp) (by simp), and_iff_left fun _ => hthis]
  refine and_iff_left_of_imp fun hlayers => ?_
  replace hargs := hargs hlayers
  have hscopes : Denotes (host.scopes m) x none :=
    Host.denotes_scopes_none (fun h => hmade (List.IsPrefix.trans (by decide) h)) hargs
  rw [denotes_append_iff_of_ne (by simp), denotes_cons_iff_of_ne (by simp), and_iff_left hscopes]
  constructor
  · intro s hs r hr
    obtain ⟨c, hc, rfl⟩ := Home.mem_wrappers.1 hs
    have hname : x ≠ c.name := fun heq => hx (heq ▸ hhome.name_mem hc)
    exact hsuper ((Scope.binds_wrapper_iff hname hargs).1 hr).1
  · exact fun r hr => hx ((Scope.binds_file_iff hargs).1 hr).1

/-- The superclass is hidden by the class, too, if that has the name. -/
theorem denotes_super_iff {c : Script.Class} (hc : home.type? = some c) :
    Denotes (host.chain m home ls) "_super" (some .base) ↔
      (∀ l ∈ ls ++ home.moved, ¬ l.Binds "_super") ∧ c.name ≠ "_super" := by
  have hargs : "_super" ≠ "arguments" := by decide
  have hthis : "_super" ≠ "_this" := by decide
  rw [Host.chain, denotes_inner_iff (by simp) (by simp), forall_not_hides_iff hargs,
    and_iff_left fun _ => hthis, Home.wrappers_eq hc, List.singleton_append]
  refine and_congr_right fun _ => ?_
  by_cases hname : c.name = "_super"
  · rw [hname, denotes_cons_iff_of_eq fun _ => Scope.binds_wrapper_self_iff]
    simp
  · have hbase (r : Referent) : (Scope.wrapper c.name).Binds "_super" r ↔ r = .base :=
      (Scope.binds_wrapper_iff (Ne.symm hname) hargs).trans (and_iff_right rfl)
    rw [denotes_cons_iff_of_eq hbase]
    simp [hname]

theorem denotes_super_none_iff (hc : home.type? = none) :
    Denotes (host.chain m home ls) "_super" none ↔
      (∀ l ∈ ls ++ home.moved, ¬ l.Binds "_super") ∧ "_super" ∉ m.source.file.declaredNames := by
  have hargs : "_super" ≠ "arguments" := by decide
  have hthis : "_super" ≠ "_this" := by decide
  rw [Host.chain, denotes_inner_iff (by simp) (by simp), forall_not_hides_iff hargs,
    and_iff_left fun _ => hthis, Home.wrappers, hc, Option.toList_none, List.map_nil,
      List.nil_append,
    denotes_cons_iff_of_ne (by simp), and_iff_left (Host.denotes_scopes_none (by decide) hargs)]
  refine and_congr_right fun _ => ?_
  simp only [Scope.binds_file_iff hargs]
  exact ⟨fun hnone hmem => hnone _ ⟨hmem, rfl⟩, fun hmem _ hr => hmem hr.1⟩

end Emit
end ScriptWeave
