import ScriptWeave.Proofs.Module.Clashes
import ScriptWeave.Proofs.Pipeline.Conduct
import ScriptWeave.Proofs.Pipeline.Endings

/-!
What registering the exports of all files does, to the last report. Under either policy every clash
is reported when it comes up and the incoming symbol is kept; the policy decides how it is reported,
and whether it is held against the conversion in the end.
-/

namespace ScriptWeave

namespace Clash

def issue (c : Clash) : Issue :=
  .exportConflict c.package c.name c.previous.path c.incoming.path

/-- A clash as a fault. -/
def fault (c : Clash) : Report := .fault "symbols" (.issue c.issue)

/-- A clash as a warning. -/
def warning (c : Clash) : Report :=
  .step ⟨"symbols", c.issue.text, .warn, some [("package", .text c.package), ("name", .text c.name),
    ("kept", .text c.incoming.path)]⟩

end Clash

namespace Pipeline
namespace ConflictPolicy

def report : ConflictPolicy → Clash → Report
  | fail => Clash.fault
  | lastWins => Clash.warning

/-- The issues that end a conversion with the given clashes. -/
def held : ConflictPolicy → List Clash → List Issue
  | fail, clashes => clashes.map Clash.issue
  | lastWins, _ => []

theorem held_nil (policy : ConflictPolicy) : policy.held [] = [] := by
  cases policy <;> rfl

theorem held_append (policy : ConflictPolicy) (cs cs' : List Clash) :
    policy.held (cs ++ cs') = policy.held cs ++ policy.held cs' := by
  cases policy with
  | fail => exact List.map_append
  | lastWins => rfl

end ConflictPolicy

/-- The journal with more reports. -/
def Journal.telling (j : Journal) (reports : List Report) : Journal :=
  { j with reports := j.reports ++ reports }

theorem Journal.telling_nil (j : Journal) : j.telling [] = j := by
  rw [telling, List.append_nil]

theorem Journal.telling_telling (j : Journal) (reports reports' : List Report) :
    (j.telling reports).telling reports' = j.telling (reports ++ reports') := by
  rw [telling, telling, telling, List.append_assoc]

/-- A module with the exports that it makes. -/
def defining (file : ModuleId × List Export) : ModuleId × List Export := (file.1, ownExports file)

/-- What registrations have led to, starting from the journal `base`. -/
structure Registered (policy : ConflictPolicy) (base : Journal) (rs : List Registration)
    (state : SymbolTable × List Issue) (j : Journal) : Prop where
  records : state.1.Records rs
  exporter : ∀ r ∈ rs, r.symbol.exportPath = r.exporter
  held : state.2 = policy.held (Clash.among rs)
  journal : j = base.telling ((Clash.among rs).map policy.report)

section

variable {policy : ConflictPolicy} {base j : Journal} {rs : List Registration}
  {state : SymbolTable × List Issue}

theorem registered_empty (policy : ConflictPolicy) (j : Journal) :
    Registered policy j [] (.empty, []) j where
  records := SymbolTable.records_empty
  exporter _ hr := absurd hr List.not_mem_nil
  held := policy.held_nil.symm
  journal := j.telling_nil.symm

theorem Registered.declare (h : Registered policy base rs state j) (package : String) :
    Registered policy base rs (state.1.declare package, state.2) j :=
  ⟨h.records.declare package, h.exporter, h.held, h.journal⟩

theorem Registered.insert (h : Registered policy base rs state j) {r : Registration}
    (hr : r.symbol.exportPath = r.exporter) : Registered policy base (rs ++ [r])
      (state.1.insert r.package r.symbol, state.2 ++ policy.held (Clash.of? rs r).toList)
      (j.telling ((Clash.of? rs r).toList.map policy.report)) where
  records := h.records.insert r
  exporter x hx := by
    obtain hx | hx := List.mem_append.1 hx
    · exact h.exporter x hx
    · rw [List.mem_singleton.1 hx]
      exact hr
  held := by rw [Clash.among_append_singleton, ConflictPolicy.held_append, h.held]
  journal := by
    rw [Clash.among_append_singleton, h.journal, Journal.telling_telling, List.map_append]

/-- One export is registered, and reported if it clashes. -/
theorem Registered.run_registerExport (h : Registered policy base rs state j) (id : ModuleId)
    (e : Export) : ∃ state' j',
      (registerExport policy id state e).run j = (.ok state', j') ∧
        state'.1 = state.1.register (e.definedBy id) ∧
        Registered policy base (rs ++ (Registration.ofExport? id (e.definedBy id)).toList)
          state' j' := by
  cases e with
  | package name =>
      refine ⟨_, _, rfl, rfl, ?_⟩
      rw [Export.definedBy, Registration.ofExport?, Option.toList_none, List.append_nil]
      exact h.declare name
  | symbol package symbol =>
      have hlookup := h.records.lookup? package symbol.name
      have hnext := h.insert (r := ⟨id, package, { symbol with exportPath := id }⟩) rfl
      simp only [registerExport, Export.definedBy]
      cases hlast : Registration.last? rs package symbol.name with
      | none =>
          rw [hlast, Option.map_none] at hlookup
          rw [Clash.of?, hlast, Option.map_none, Option.toList_none, List.map_nil,
            Journal.telling_nil, ConflictPolicy.held_nil, List.append_nil] at hnext
          exact ⟨_, _, by rw [hlookup]; rfl, rfl, hnext⟩
      | some previous =>
          rw [hlast, Option.map_some] at hlookup
          have hprevious := h.exporter previous (Registration.mem_of_last? hlast)
          rw [Clash.of?, hlast] at hnext
          rw [hlookup]
          dsimp only
          rw [hprevious]
          cases policy with
          | fail => exact ⟨_, _, rfl, rfl, hnext⟩
          | lastWins =>
              rw [ConflictPolicy.held, List.append_nil] at hnext
              exact ⟨_, _, rfl, rfl, hnext⟩

theorem Registered.run_registerFile (h : Registered policy base rs state j) (id : ModuleId)
    (es : List Export) : ∃ state' j',
      (registerFile policy state (id, es)).run j = (.ok state', j') ∧
        state'.1 = state.1.registerAll (ownExports (id, es)) ∧
        Registered policy base
          (rs ++ (ownExports (id, es)).filterMap (Registration.ofExport? id)) state' j' := by
  rw [registerFile, SymbolTable.registerAll]
  induction es generalizing rs state j with
  | nil =>
      refine ⟨state, j, rfl, rfl, ?_⟩
      rwa [ownExports, List.map_nil, List.filterMap_nil, List.append_nil]
  | cons e es ih =>
      obtain ⟨next, jnext, hrun, htable, hnext⟩ := h.run_registerExport id e
      obtain ⟨last, jlast, hrun', htable', hlast⟩ := ih hnext
      refine ⟨last, jlast, ?_, ?_, ?_⟩
      · rw [List.foldlM_cons, run_bind_ok hrun]
        exact hrun'
      · rw [htable', htable]
        rfl
      · rw [List.append_assoc] at hlast
        rw [ownExports, List.map_cons, List.filterMap_cons]
        cases hregistered : Registration.ofExport? id (e.definedBy id) with
        | none => rwa [hregistered] at hlast
        | some r => rwa [hregistered] at hlast

theorem Registered.run_registerFiles (h : Registered policy base rs state j)
    (files : List (ModuleId × List Export)) : ∃ state' j',
      (files.foldlM (registerFile policy) state).run j = (.ok state', j') ∧
        state'.1 = state.1.registerAll (files.flatMap ownExports) ∧
        Registered policy base (rs ++ Registration.ofFiles (files.map defining)) state' j' := by
  induction files generalizing rs state j with
  | nil =>
      refine ⟨state, j, rfl, rfl, ?_⟩
      rwa [List.map_nil, Registration.ofFiles, List.flatMap_nil, List.append_nil]
  | cons file files ih =>
      obtain ⟨next, jnext, hrun, htable, hnext⟩ := h.run_registerFile file.1 file.2
      obtain ⟨last, jlast, hrun', htable', hlast⟩ := ih hnext
      refine ⟨last, jlast, ?_, ?_, ?_⟩
      · rw [List.foldlM_cons, run_bind_ok hrun]
        exact hrun'
      · rw [htable', htable, List.flatMap_cons, SymbolTable.registerAll_append]
      · rwa [List.append_assoc] at hlast

end

/-- What is said about a table that is complete. -/
def tableReport (t : SymbolTable) : Report :=
  .step ⟨"symbols", s!"registered {t.size} symbols in {t.packages.length} packages", .info, none⟩

theorem exportPath_of_mem_ofFiles {files : List (ModuleId × List Export)} {r : Registration}
    (hr : r ∈ Registration.ofFiles (files.map defining)) : r.symbol.exportPath = r.exporter := by
  obtain ⟨_, hfile, hr⟩ := List.mem_flatMap.1 hr
  obtain ⟨file, _, rfl⟩ := List.mem_map.1 hfile
  obtain ⟨e, he, heq⟩ := List.mem_filterMap.1 hr
  cases e with
  | package name => cases heq
  | symbol package symbol =>
      cases heq
      have hdefined : symbol.exportPath = file.1 := exportPath_of_mem_ownExports he
      exact hdefined

/-- Registering the exports of files reports all clashes, and fails with those that the policy holds
against the conversion. Otherwise it makes the table of all exports, with the last symbol of each
name. -/
theorem run_registerFiles (policy : ConflictPolicy) (files : List (ModuleId × List Export))
    (j : Journal) :
    let table := SymbolTable.empty.registerAll (files.flatMap ownExports)
    let registrations := Registration.ofFiles (files.map defining)
    let clashes := Clash.among registrations
    table.Records registrations ∧ (registerFiles policy files).run j =
      if policy.held clashes = [] then
        (.ok table, j.telling (clashes.map policy.report ++ [tableReport table]))
      else (.error (.phase "Export conflict" (policy.held clashes)),
        j.telling (clashes.map policy.report)) := by
  obtain ⟨⟨table, conflicts⟩, j', hrun, rfl, hregistered⟩ :=
    (registered_empty policy j).run_registerFiles files
  refine ⟨hregistered.records, ?_⟩
  have hheld : conflicts =
      policy.held (Clash.among (Registration.ofFiles (files.map defining))) := hregistered.held
  have hjournal := hregistered.journal
  rw [List.nil_append] at hjournal
  rw [registerFiles, run_bind_ok hrun]
  dsimp only
  rw [← hheld]
  by_cases hnone : conflicts = []
  · have hstep (t : SymbolTable) : (step "symbols" .info
        s!"registered {t.size} symbols in {t.packages.length} packages" none : Run Unit).run j' =
          (.ok (), j'.telling [tableReport t]) := rfl
    rw [if_pos hnone, if_pos (List.isEmpty_iff.2 hnone), run_bind_ok (hstep _), hjournal,
      Journal.telling_telling]
    rfl
  · rw [if_neg hnone, if_neg fun h => hnone (List.isEmpty_iff.1 h), hjournal]
    rfl

end Pipeline
end ScriptWeave
