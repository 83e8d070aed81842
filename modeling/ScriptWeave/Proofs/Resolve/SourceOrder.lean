import Mathlib.Data.List.Perm.Basic
import ScriptWeave.Proofs.Resolve.Tables
import ScriptWeave.Proofs.Resolve.Visibility
import ScriptWeave.Proofs.Script.Homes

/-!
The order of imports and of declarations does not matter. Imports are accepted or refused for what
they bring, each against all others; environments that hold the same imports in another order give
every reference the same meaning; and the references of a declaration do not depend on what stands
around it.
-/

namespace ScriptWeave
namespace Resolve

open Script (Context Decl Import Reference)

theorem distinct_perm {α : Type} [DecidableEq α] {as as' : List α} (h : as.Perm as') :
    (distinct as).Perm (distinct as') := by
  rw [List.perm_ext_iff_of_nodup (nodup_distinct _) (nodup_distinct _)]
  intro a
  rw [mem_distinct, mem_distinct, h.mem_iff]

namespace Environment

variable {env env' : Environment}

/-- The import can be made as far as the table goes: its package exists, and a symbol that it
imports by name is there and visible. -/
def Admits (env : Environment) (i : Import) : Prop :=
  env.table.hasPackage i.package = true ∧
    (i.wildcard = false → ∃ s, env.visible? i.name.qualifier i.name.last = some s)

/-- The two imports do not bring different symbols under one name. -/
def Compatible (env : Environment) (i j : Import) : Prop :=
  i.wildcard = false → j.wildcard = false → i.name.last = j.name.last →
    env.table.lookup? i.name.qualifier i.name.last = env.table.lookup? j.name.qualifier j.name.last

theorem Compatible.symm {i j : Import} (h : env.Compatible i j) : env.Compatible j i :=
  fun hj hi hname => (h hi hj hname.symm).symm

/-- Imports that can be made together, in whatever order. -/
structure Accepts (env : Environment) (imports : List Import) : Prop where
  admits : ∀ i ∈ imports, env.Admits i
  compatible : ∀ i ∈ imports, ∀ j ∈ imports, env.Compatible i j

theorem Accepts.mono {imports imports' : List Import} (h : env.Accepts imports)
    (hsub : ∀ i ∈ imports', i ∈ imports) : env.Accepts imports' where
  admits i hi := h.admits i (hsub i hi)
  compatible i hi j hj := h.compatible i (hsub i hi) j (hsub j hj)

theorem accepts_perm {imports imports' : List Import} (h : imports.Perm imports') :
    env.Accepts imports ↔ env.Accepts imports' :=
  ⟨fun haccepts => haccepts.mono fun _ hi => h.mem_iff.2 hi,
    fun haccepts => haccepts.mono fun _ hi => h.mem_iff.1 hi⟩

theorem accepts_congr (htable : env'.table = env.table) (hpackage : env'.package = env.package)
    (imports : List Import) : env'.Accepts imports ↔ env.Accepts imports := by
  have hadmits : env'.Admits = env.Admits := by
    funext i
    rw [Admits, Admits, htable, visible?_eq htable hpackage]
  have hcompatible : env'.Compatible = env.Compatible := by
    funext i j
    rw [Compatible, Compatible, htable]
  constructor
  · intro h
    exact ⟨hadmits ▸ h.admits, hcompatible ▸ h.compatible⟩
  · intro h
    exact ⟨hadmits ▸ h.admits, hcompatible ▸ h.compatible⟩

theorem accepts_append_singleton {done : List Import} {i : Import} :
    env.Accepts (done ++ [i]) ↔
      env.Accepts done ∧ env.Admits i ∧ ∀ j ∈ done, env.Compatible j i := by
  constructor
  · intro h
    have hi : i ∈ done ++ [i] := List.mem_append_right _ List.mem_cons_self
    exact ⟨h.mono fun j hj => List.mem_append_left _ hj, h.admits i hi,
      fun j hj => h.compatible j (List.mem_append_left _ hj) i hi⟩
  · rintro ⟨hdone, hadmits, hcompatible⟩
    have hself : env.Compatible i i := fun _ _ _ => rfl
    refine ⟨?_, ?_⟩
    · intro j hj
      obtain hj | hj := List.mem_append.1 hj
      · exact hdone.admits j hj
      · exact List.mem_singleton.1 hj ▸ hadmits
    · intro j hj k hk
      obtain hj | hj := List.mem_append.1 hj
      · obtain hk | hk := List.mem_append.1 hk
        · exact hdone.compatible j hj k hk
        · exact List.mem_singleton.1 hk ▸ hcompatible j hj
      · rw [List.mem_singleton.1 hj]
        obtain hk | hk := List.mem_append.1 hk
        · exact (hcompatible k hk).symm
        · exact List.mem_singleton.1 hk ▸ hself

theorem exists_importAll_iff (package : String) :
    (∃ env', env.importAll package = .ok env') ↔ env.table.hasPackage package = true := by
  rw [importAll]
  split
  · next h => simp [h]
  · next h => simp [h]

theorem exists_importOne_iff (package name : String) :
    (∃ env', env.importOne package name = .ok env') ↔ env.table.hasPackage package = true ∧
      ∃ s, env.visible? package name = some s ∧
        ∀ existing, env.imported? name = some existing → existing = s := by
  rw [importOne, visible?]
  split
  · next hpackage =>
      cases hlookup : env.table.lookup? package name with
      | none => simp
      | some s =>
          by_cases hsees : env.sees s = true
          · cases himported : env.imported? name with
            | none => simp [hpackage, hsees]
            | some existing =>
                by_cases heq : existing = s
                · simp [hpackage, hsees, heq]
                · refine iff_of_false (by simp [hsees, heq]) ?_
                  rintro ⟨_, x, hx, hsame⟩
                  have hfound := Option.some.inj (Option.filter_eq_some_iff.1 hx).1
                  exact heq ((hsame existing rfl).trans hfound.symm)
          · simp [hsees]
  · next hpackage => simp [hpackage]

/-- After accepted imports another one is accepted exactly if it can be made and is compatible with
all of them. -/
theorem exists_addImport_iff {done : List Import} (hholds : env.Holds done)
    (hdone : env.Accepts done) (i : Import) :
    (∃ env', env.addImport i = .ok env') ↔ env.Admits i ∧ ∀ j ∈ done, env.Compatible j i := by
  rw [addImport, Admits, Import.package]
  cases hwildcard : i.wildcard with
  | true =>
      have hcompatible : ∀ j ∈ done, env.Compatible j i := by
        intro j _ _ hi _
        rw [hwildcard] at hi
        cases hi
      simp only [if_true, exists_importAll_iff, Bool.true_eq_false, false_implies, and_true]
      exact (and_iff_left hcompatible).symm
  | false =>
      simp only [Bool.false_eq_true, if_false, exists_importOne_iff, true_implies, and_assoc]
      refine and_congr_right fun _ => ?_
      constructor
      · rintro ⟨s, hs, hexisting⟩
        refine ⟨⟨s, hs⟩, ?_⟩
        intro j hj hnamed _ hname
        obtain ⟨x, hx⟩ := (hdone.admits j hj).2 hnamed
        have hlookup := (Option.filter_eq_some_iff.1 hx).1
        have himported : env.imported? i.name.last = some x :=
          (hholds.imported _ _).2 ⟨j, hj, hnamed, hname, hname ▸ hlookup⟩
        rw [hlookup, (Option.filter_eq_some_iff.1 hs).1, hexisting x himported]
      · rintro ⟨⟨s, hs⟩, hcompatible⟩
        refine ⟨s, hs, ?_⟩
        intro existing himported
        obtain ⟨j, hj, hnamed, hname, hlookup⟩ := (hholds.imported _ _).1 himported
        have hsame := hcompatible j hj hnamed hwildcard hname
        rw [hname, hlookup, (Option.filter_eq_some_iff.1 hs).1] at hsame
        exact Option.some.inj hsame

theorem addImports_eq_nil_iff {done : List Import} (hholds : env.Holds done)
    (hdone : env.Accepts done) (imports : List Import) :
    (env.addImports imports).2 = [] ↔ env.Accepts (done ++ imports) := by
  induction imports generalizing env done with
  | nil =>
      rw [List.append_nil]
      exact iff_of_true rfl hdone
  | cons i imports ih =>
      have hone := exists_addImport_iff hholds hdone i
      rw [addImports]
      cases hadd : env.addImport i with
      | ok next =>
          obtain ⟨htable, hpackage, _⟩ := addImport_same hadd
          have hnext : env.Accepts (done ++ [i]) :=
            accepts_append_singleton.2 ⟨hdone, hone.1 ⟨next, hadd⟩⟩
          rw [← accepts_congr htable hpackage] at hnext
          dsimp only
          rw [ih (hholds.addImport hadd) hnext, accepts_congr htable hpackage, List.append_assoc,
            List.singleton_append]
      | error reason =>
          refine iff_of_false (List.cons_ne_nil _ _) ?_
          intro haccepts
          have hfront : env.Accepts (done ++ [i]) := haccepts.mono fun j hj => by
            simp only [List.mem_append, List.mem_cons, List.not_mem_nil, or_false] at hj ⊢
            exact hj.imp_right Or.inl
          obtain ⟨next, hnext⟩ := hone.2 (accepts_append_singleton.1 hfront).2
          rw [hadd] at hnext
          cases hnext

/-- The environments hold the same, in whatever order. -/
structure Alike (env env' : Environment) : Prop where
  table : env.table = env'.table
  package : env.package = env'.package
  declared : ∀ name, name ∈ env.declared ↔ name ∈ env'.declared
  imported : ∀ name, env.imported? name = env'.imported? name
  wildcards : env.wildcards.Perm env'.wildcards

theorem imported?_eq_of_holds {imports imports' : List Import} (hperm : imports.Perm imports')
    (h : env.Holds imports) (h' : env'.Holds imports') (htable : env.table = env'.table)
    (name : String) : env.imported? name = env'.imported? name := by
  apply Option.ext
  intro s
  simp only [h.imported, h'.imported, hperm.mem_iff, htable]

theorem wildcards_perm_of_holds {imports imports' : List Import} (hperm : imports.Perm imports')
    (h : env.Holds imports) (h' : env'.Holds imports') : env.wildcards.Perm env'.wildcards := by
  rw [List.perm_ext_iff_of_nodup h.nodup h'.nodup]
  intro package
  simp only [h.wildcards, h'.wildcards, hperm.mem_iff]

theorem toOption_bind {α β : Type} (x : Except Reason α) (f : α → Except Reason β) :
    (x >>= f).toOption = x.toOption.bind fun a => (f a).toOption := by
  cases x <;> rfl

section

variable (h : env.Alike env')
include h

theorem Alike.visible? : env.visible? = env'.visible? := visible?_eq h.table h.package

/-- Where several packages offer a name, they do so in every order. -/
theorem Alike.symbol? (name : String) :
    (env.symbol? name).toOption = (env'.symbol? name).toOption := by
  have hmatches : (env.wildcardMatches name).Perm (env'.wildcardMatches name) := by
    rw [wildcardMatches, wildcardMatches, h.visible?]
    exact distinct_perm (h.wildcards.filterMap _)
  have htop : env.topLevel? name = env'.topLevel? name := by
    rw [topLevel?, topLevel?, h.table, h.package]
  rw [Environment.symbol?, Environment.symbol?, h.imported name, h.table, h.package, htop]
  cases env'.imported? name with
  | some s => rfl
  | none =>
      generalize env.wildcardMatches name = found at hmatches
      generalize env'.wildcardMatches name = found' at hmatches
      rcases found with _ | ⟨s, _ | ⟨second, rest⟩⟩
      · rw [List.nil_perm.1 hmatches]
      · rw [List.singleton_perm.1 hmatches]
      · have hlength := hmatches.length_eq
        rcases found' with _ | ⟨s', _ | ⟨second', rest'⟩⟩
        · cases hlength
        · simp at hlength
        · rfl

theorem Alike.lookup (ctx : Context) (name : String) :
    (env.lookup ctx name).toOption = (env'.lookup ctx name).toOption := by
  have hdeclared : env.declared.contains name = env'.declared.contains name := by
    rw [Bool.eq_iff_iff, List.contains_iff_mem, List.contains_iff_mem, h.declared name]
  have hsymbol := h.symbol? name
  rw [Environment.lookup, Environment.lookup, hdeclared]
  split
  · rfl
  · split
    · rfl
    · split
      · rfl
      · generalize env.symbol? name = x at hsymbol
        generalize env'.symbol? name = x' at hsymbol
        cases x <;> cases x' <;> simp_all [Except.toOption, Except.map]

theorem Alike.qualified? (parts : List String) : env.qualified? parts = env'.qualified? parts :=
  qualified?_congr fun _ _ _ _ => by rw [h.visible?]

/-- Alike environments give a reference the same meaning, if any. -/
theorem Alike.bind (r : Reference) : (env.bind r).toOption = (env'.bind r).toOption := by
  have hidentifier : (env.identifier r).toOption = (env'.identifier r).toOption := by
    rw [identifier, identifier, toOption_bind, toOption_bind, h.lookup, h.qualified?]
  have htypeName : (env.typeName r).toOption = (env'.typeName r).toOption := by
    rw [typeName, typeName, h.qualified?]
    cases env'.qualified? r.parts with
    | some found => rfl
    | none =>
        dsimp only
        rw [toOption_bind, toOption_bind, h.lookup]
  rw [Environment.bind, Environment.bind]
  cases r.key.kind with
  | ident => exact hidentifier
  | create | base => exact htypeName

end

end Environment

theorem links_linkAll (env : Environment) (references : List Reference) :
    (linkAll env references).1 =
      references.filterMap fun r => (env.bind r).toOption.map (⟨r, ·⟩) := by
  induction references with
  | nil => rfl
  | cons r references ih =>
      rw [linkAll, List.filterMap_cons, ← ih]
      cases env.bind r with
      | ok b => rfl
      | error reason => rfl

theorem failures_linkAll_eq_nil_iff (env : Environment) (references : List Reference) :
    (linkAll env references).2 = [] ↔ ∀ r ∈ references, (env.bind r).toOption ≠ none := by
  induction references with
  | nil => simp [linkAll]
  | cons r references ih =>
      rw [linkAll, List.forall_mem_cons, ← ih]
      cases env.bind r with
      | ok b => simp [Except.toOption]
      | error reason => simp [Except.toOption]

namespace Module

variable {m m' : Module}

theorem uses_perm (h : m.links.Perm m'.links) : m.uses.Perm m'.uses := h.filterMap _

theorem weight_eq_of_perm (h : m.links.Perm m'.links) (id : ModuleId) :
    m.weight id = m'.weight id :=
  (uses_perm h).countP_eq _

theorem edges_perm (h : m.links.Perm m'.links) : m.edges.Perm m'.edges := by
  rw [edges, edges, funext (weight_eq_of_perm h)]
  exact (distinct_perm ((uses_perm h).map _)).map _

/-- Each reference that is linked once has the same meaning in every order of the links. -/
theorem binding?_eq_of_perm (h : m.links.Perm m'.links)
    (hnodup : (m.links.map (·.reference.key)).Nodup) (key : Script.ReferenceKey) :
    m.binding? key = m'.binding? key := by
  have hnodup' := (h.map (·.reference.key)).nodup_iff.1 hnodup
  apply Option.ext
  intro b
  constructor
  · intro hb
    obtain ⟨l, hl, rfl⟩ := Option.map_eq_some_iff.1 hb
    obtain rfl : l.reference.key = key := by simpa using List.find?_some hl
    exact binding?_of_mem hnodup' (h.mem_iff.1 (List.mem_of_find?_eq_some hl))
  · intro hb
    obtain ⟨l, hl, rfl⟩ := Option.map_eq_some_iff.1 hb
    obtain rfl : l.reference.key = key := by simpa using List.find?_some hl
    exact binding?_of_mem hnodup (h.mem_iff.2 (List.mem_of_find?_eq_some hl))

end Module

/-- The files differ in the order of their imports and of their declarations only. -/
structure Rearranged (source source' : Source) : Prop where
  path : source.path = source'.path
  pos : source.file.pos = source'.file.pos
  package : source.file.package = source'.file.package
  imports : source.file.imports.Perm source'.file.imports
  decls : source.file.decls.Perm source'.file.decls

theorem Rearranged.symm {source source' : Source} (h : Rearranged source source') :
    Rearranged source' source :=
  ⟨h.path.symm, h.pos.symm, h.package.symm, h.imports.symm, h.decls.symm⟩

section

variable {source source' : Source} (h : Rearranged source source') (table : SymbolTable)
include h

theorem Rearranged.packageName : source.file.packageName = source'.file.packageName :=
  congrArg (fun package => (package.map (·.dotted)).getD "") h.package

theorem Rearranged.references : source.file.references.Perm source'.file.references :=
  h.decls.flatMap_right _

theorem Rearranged.refused_eq_nil_iff :
    (opened source table).2 = [] ↔ (opened source' table).2 = [] := by
  have hempty (file : Script.File) : (Environment.ofFile table file).Accepts [] := by
    constructor <;> simp
  rw [opened, opened,
    Environment.addImports_eq_nil_iff (Environment.holds_ofFile _ _) (hempty _),
    Environment.addImports_eq_nil_iff (Environment.holds_ofFile _ _) (hempty _),
    List.nil_append, List.nil_append, Environment.accepts_perm h.imports]
  have hpackage : (Environment.ofFile table source.file).package =
      (Environment.ofFile table source'.file).package := h.packageName
  exact Environment.accepts_congr (by rfl) hpackage _

theorem Rearranged.alike {table : SymbolTable} (hrefused : (opened source table).2 = []) :
    Environment.Alike (opened source table).1 (opened source' table).1 := by
  obtain ⟨hholds, htable, hpackage, hdeclared⟩ :=
    (Environment.holds_ofFile table source.file).addImports source.file.imports hrefused
  obtain ⟨hholds', htable', hpackage', hdeclared'⟩ :=
    (Environment.holds_ofFile table source'.file).addImports source'.file.imports
      ((h.refused_eq_nil_iff table).1 hrefused)
  have hsame := htable.trans htable'.symm
  refine ⟨hsame, hpackage.trans (h.packageName.trans hpackage'.symm), ?_,
    Environment.imported?_eq_of_holds h.imports hholds hholds' hsame,
    Environment.wildcards_perm_of_holds h.imports hholds hholds'⟩
  intro name
  rw [opened, opened, hdeclared, hdeclared']
  exact (h.decls.map _).mem_iff

/-- A rearranged file is resolved if the file is, to the same links in another order. -/
theorem Rearranged.run {table : SymbolTable} {m : Module} (hrun : run source table = .ok m) :
    ∃ m', Resolve.run source' table = .ok m' ∧ m.links.Perm m'.links := by
  obtain ⟨hrefused, hfailed, rfl⟩ := run_eq_ok_iff.1 hrun
  have hbind := (h.alike hrefused).bind
  refine ⟨_, run_eq_ok_iff.2 ⟨(h.refused_eq_nil_iff table).1 hrefused, ?_, rfl⟩, ?_⟩
  · rw [failures_linkAll_eq_nil_iff] at hfailed ⊢
    intro r hr
    rw [← hbind r]
    exact hfailed r (h.references.mem_iff.2 hr)
  · simp only [links_linkAll, hbind]
    exact h.references.filterMap _

end

/-- The order in which a parsed file has its imports and its declarations does not matter. The file
is resolved exactly if the rearranged one is, and then every reference has the same meaning in both,
the same methods hand on their receiver, and the files depend on the same symbols with equal
weights. -/
theorem run_independent_of_order {text : String} {source : Source}
    (hparse : Script.parse text = .ok source.file) (table : SymbolTable) (source' : Source)
    (h : Rearranged source source') :
    ((∃ m, run source table = .ok m) ↔ ∃ m', run source' table = .ok m') ∧
      ∀ m m', run source table = .ok m → run source' table = .ok m' →
        (∀ key, m.binding? key = m'.binding? key) ∧
          (∀ owner, owner ∈ m.captures ↔ owner ∈ m'.captures) ∧
          (∀ id, m.weight id = m'.weight id) ∧ m.edges.Perm m'.edges ∧
          m.externals.Perm m'.externals := by
  refine ⟨⟨?_, ?_⟩, ?_⟩
  · rintro ⟨m, hrun⟩
    exact (h.run hrun).imp fun _ => And.left
  · rintro ⟨m', hrun'⟩
    exact (h.symm.run hrun').imp fun _ => And.left
  · intro m m' hrun hrun'
    obtain ⟨_, hsame, hlinks⟩ := h.run hrun
    cases Except.ok.inj (hsame.symm.trans hrun')
    have hnodup : (m.links.map (·.reference.key)).Nodup := by
      obtain ⟨_, _, _, _, _, hreferences, _⟩ := run_eq_ok hrun
      have hkeys := Script.nodup_keys_of_parse hparse
      rwa [← hreferences, List.map_map] at hkeys
    exact ⟨Module.binding?_eq_of_perm hlinks hnodup,
      fun _ => (distinct_perm (hlinks.filterMap _)).mem_iff, Module.weight_eq_of_perm hlinks,
      Module.edges_perm hlinks, distinct_perm (Module.uses_perm hlinks)⟩

/-- Two classes after two imports, of a whole package and of a class by name. A function literal in
the second class reaches for a member. -/
def orderText : String :=
  "package app\x7bimport lib.*;import lib.Open;class C extends Open\x7b\x7d" ++
    "class D\x7bvar x;function m()\x7breturn function()\x7breturn x;\x7d;\x7d\x7d\x7d"

theorem run_independent_of_order_swapped : ∃ source source' m m',
    Script.parse orderText = .ok source.file ∧ Rearranged source source' ∧
      source.file.imports ≠ source'.file.imports ∧
      source.file.decls.map (·.name) = ["C", "D"] ∧ source'.file.decls.map (·.name) = ["D", "C"] ∧
      run source (.ofFiles packageFiles) = .ok m ∧ run source' (.ofFiles packageFiles) = .ok m' ∧
      m.externals = [⟨"Open", "lib", .type, true, ⟨"lib.js"⟩⟩] ∧
      m.captures.length = 1 ∧
      (∀ key, m.binding? key = m'.binding? key) ∧
      (∀ owner, owner ∈ m.captures ↔ owner ∈ m'.captures) ∧
      (∀ id, m.weight id = m'.weight id) ∧ m.edges.Perm m'.edges ∧
      m.externals.Perm m'.externals := by
  have hall : ((Script.parse orderText).toOption.any fun file =>
      decide (file.imports.map (·.wildcard) = [true, false]) &&
      decide (file.decls.map (·.name) = ["C", "D"]) &&
      (run ⟨"D.as", file⟩ (.ofFiles packageFiles)).toOption.any fun m =>
        decide (m.externals = [⟨"Open", "lib", .type, true, ⟨"lib.js"⟩⟩]) &&
        decide (m.captures.length = 1)) = true := by
    decide +kernel
  obtain ⟨file, hparse, hall⟩ := Script.exists_ok_of_any hall
  rw [Bool.and_eq_true, Bool.and_eq_true] at hall
  obtain ⟨⟨himports, hdecls⟩, hall⟩ := hall
  obtain ⟨m, hrun, hlinked⟩ := Script.exists_ok_of_any hall
  rw [Bool.and_eq_true] at hlinked
  obtain ⟨hexternals, hcaptures⟩ := hlinked
  rw [decide_eq_true_eq] at himports hdecls hexternals hcaptures
  have hswapped : Rearranged ⟨"D.as", file⟩
      ⟨"D.as", ⟨file.pos, file.package, file.imports.reverse, file.decls.reverse⟩⟩ :=
    ⟨rfl, rfl, rfl, (List.reverse_perm _).symm, (List.reverse_perm _).symm⟩
  obtain ⟨hiff, hsame⟩ := @run_independent_of_order orderText ⟨"D.as", file⟩ hparse
    (.ofFiles packageFiles) _ hswapped
  obtain ⟨m', hrun'⟩ := hiff.1 ⟨m, hrun⟩
  refine ⟨_, _, m, m', hparse, hswapped, ?_, hdecls, ?_, hrun, hrun', hexternals, hcaptures,
    hsame m m' hrun hrun'⟩
  · intro heq
    have hwild := congrArg (List.map (·.wildcard)) heq
    rw [himports, List.map_reverse, himports] at hwild
    cases hwild
  · rw [List.map_reverse, hdecls]
    rfl

end Resolve
end ScriptWeave
