import Mathlib.Data.List.Count
import ScriptWeave.Proofs.Pipeline.Endings

/-!
The order in which the jobs of the phases are performed does not matter. Whatever it is, a
conversion has the outcome of the one that goes through the files in order; it yields a result
exactly when no file fails in any phase and the cycles can be merged; and a conversion with failing
files is stopped by the first phase that has any, after all jobs up to that phase and before all
later ones.
-/

namespace ScriptWeave
namespace Pipeline

variable {Parsed Tree : Type}

namespace Phase

theorem name_inj {p q : Phase} : p.name = q.name ↔ p = q := by
  cases p <;> cases q <;> decide

end Phase

/-- The jobs of all phases up to the given one. -/
def Options.jobsThrough (options : Options) (n : Nat) : Phase → List (String × Nat)
  | .parse => options.jobs .parse n
  | .exports => options.jobs .parse n ++ options.jobs .exports n
  | .resolve => options.jobs .parse n ++ (options.jobs .exports n ++ options.jobs .resolve n)
  | .edges => options.jobs .parse n ++ (options.jobs .exports n ++
      (options.jobs .resolve n ++ options.jobs .edges n))

theorem Options.count_jobs (options : Options) (p phase : Phase) (place n : Nat) :
    (options.jobs phase n).count (p.name, place) = if p = phase ∧ place < n then 1 else 0 := by
  by_cases hp : p = phase
  · subst hp
    have hinj : Function.Injective fun place : Nat => (p.name, place) := fun a b h => by
      cases h
      rfl
    rw [jobs, List.count_map_of_injective _ _ hinj, (options.order_perm _ n).count_eq]
    simp [List.count_range]
  · rw [if_neg fun h => hp h.1, List.count_eq_zero]
    intro hmem
    obtain ⟨i, _, heq⟩ := List.mem_map.1 hmem
    exact hp (Phase.name_inj.1 (Prod.mk.inj heq).1.symm)

theorem Options.count_jobsThrough (options : Options) (p last : Phase) (place n : Nat) :
    (options.jobsThrough n last).count (p.name, place) =
      if p.rank ≤ last.rank ∧ place < n then 1 else 0 := by
  cases last <;> cases p <;>
    simp [jobsThrough, List.count_append, options.count_jobs, Phase.rank]

section

variable {frontend : Frontend Parsed Tree} {files : List SourceFile} {signals : Signals}
  (hsignals : signals.Undisturbed) (options : Options)
  (hpolicy : options.policy = .lastWins ∨
    SymbolTable.empty.Unclashing (files.filterMap frontend.exports?).flatten)
include hsignals hpolicy

theorem ends_convert_of_failsFirst {phase : Phase} (h : frontend.FailsFirst files phase) :
    Ends (convert frontend signals options files)
      (.error (.phase phase.label (frontend.issuesIn files phase)))
      (issueReports phase.name (frontend.issuesIn files phase))
      (options.jobsThrough files.length phase) := by
  refine (Ends.step _ _ _ _).andThen ?_
  cases phase with
  | parse => exact Ends.bind_error (ends_parseFiles_error hsignals options h)
  | exports =>
      refine (ends_parseFiles hsignals options (h.2 .parse (by decide))).bind ?_
      exact Ends.bind_error (ends_buildTable_error hsignals options h)
  | resolve =>
      have hparse := h.2 .parse (by decide)
      have hexports := h.2 .exports (by decide)
      refine (ends_parseFiles hsignals options hparse).bind ?_
      refine (ends_buildTable hsignals options hparse hexports hpolicy).bind ?_
      exact Ends.bind_error (ends_resolveFiles_error hsignals options h)
  | edges =>
      have hparse := h.2 .parse (by decide)
      have hexports := h.2 .exports (by decide)
      refine (ends_parseFiles hsignals options hparse).bind ?_
      refine (ends_buildTable hsignals options hparse hexports hpolicy).bind ?_
      refine (ends_resolveFiles hsignals options hparse (h.2 .resolve (by decide))).bind ?_
      exact Ends.bind_error (ends_buildGraph_error hsignals options h)

theorem ends_convert_of_passes (h : ∀ phase, frontend.Passes files phase) :
    ∃ faults, Ends (convert frontend signals options files)
      (frontend.mergedOutcome files options.runId) faults
      (options.jobsThrough files.length .edges) := by
  refine Exists.imp (fun faults hrest => (Ends.step _ _ _ _).andThen <|
    (ends_parseFiles hsignals options (h .parse)).bind <|
    (ends_buildTable hsignals options (h .parse) (h .exports) hpolicy).bind <|
    (ends_resolveFiles hsignals options (h .parse) (h .resolve)).bind <|
    (ends_buildGraph hsignals options (h .parse) (h .resolve) (h .edges)).finish hrest) ?_
  rw [Frontend.mergedOutcome]
  cases hmerge : Cycle.resolve (frontend.baseOf files) (frontend.graphOf files).components with
  | ok resolution =>
      exact ⟨_, (Ends.mergeCycles hmerge).bind ((Ends.step _ _ _ _).andThen (.pure _))⟩
  | error fault => exact ⟨_, Ends.bind_error (Ends.mergeCycles_error hmerge)⟩

end

theorem Ends.run_convert {frontend : Frontend Parsed Tree} {signals : Signals} {options : Options}
    {files : List SourceFile} {outcome : Except Fault (Result Tree)} {faults : List Report}
    {jobs : List (String × Nat)}
    (h : Ends (convert frontend signals options files) outcome faults jobs) :
    (run frontend signals options files).1 = outcome ∧
      (run frontend signals options files).2.faults = faults ∧
      (run frontend signals options files).2.performed = jobs := by
  obtain ⟨journal, hrun, hfaults, hjobs⟩ := h Journal.empty rfl
  rw [run, hrun]
  exact ⟨rfl, hfaults, hjobs⟩

/-- The same conversion with the jobs of every phase in the order of the files. -/
def Options.inFileOrder (options : Options) : Options :=
  { Options.sequential options.policy with runId := options.runId }

/-- How a run ends that a phase has stopped. -/
structure StoppedBy (frontend : Frontend Parsed Tree) (files : List SourceFile) (phase : Phase)
    (ending : Except Fault (Result Tree) × Journal) : Prop where
  /-- The fault names the phase and holds the issues of all its failing files. -/
  outcome : ending.1 = .error (.phase phase.label (frontend.issuesIn files phase))
  /-- Nothing but these issues was reported, each once and in this order. -/
  reported : ending.2.faults = issueReports phase.name (frontend.issuesIn files phase)
  /-- The phases so far were attempted once for every file, and no other phase for any. -/
  performed : ∀ (p : Phase) (place : Nat), ending.2.performed.count (p.name, place) =
    if p.rank ≤ phase.rank ∧ place < files.length then 1 else 0

section

variable {frontend : Frontend Parsed Tree} {files : List SourceFile} {signals : Signals}
  (hsignals : signals.Undisturbed) (options : Options)
  (hpolicy : options.policy = .lastWins ∨
    SymbolTable.empty.Unclashing (files.filterMap frontend.exports?).flatten)
include hsignals hpolicy

theorem stoppedBy_of_failsFirst {phase : Phase} (h : frontend.FailsFirst files phase) :
    StoppedBy frontend files phase (run frontend signals options files) := by
  obtain ⟨houtcome, hfaults, hjobs⟩ :=
    (ends_convert_of_failsFirst hsignals options hpolicy h).run_convert
  refine ⟨houtcome, hfaults, ?_⟩
  intro p place
  rw [hjobs]
  exact options.count_jobsThrough p phase place files.length

theorem outcome_of_passes (h : ∀ phase, frontend.Passes files phase) :
    (run frontend signals options files).1 = frontend.mergedOutcome files options.runId := by
  obtain ⟨faults, hends⟩ := ends_convert_of_passes hsignals options hpolicy h
  exact hends.run_convert.1

end

/-- Every order of the jobs leads to the outcome of the run in file order. There is a result exactly
when no file fails and the cycles can be merged. Otherwise the first phase with a failing file stops
the run with the issues of all its files. -/
theorem run_schedule_independent (frontend : Frontend Parsed Tree) {signals : Signals}
    (hsignals : signals.Undisturbed) (options : Options) (hpolicy : options.policy = .lastWins)
    (files : List SourceFile) :
    (run frontend signals options files).1 = (run frontend signals options.inFileOrder files).1 ∧
      (∀ result, (run frontend signals options files).1 = .ok result ↔
        (∀ phase, frontend.Passes files phase) ∧ frontend.Merges files options.runId result) ∧
      ((∃ phase, ¬ frontend.Passes files phase) → ∃ phase, frontend.FailsFirst files phase ∧
        StoppedBy frontend files phase (run frontend signals options files)) := by
  by_cases hpasses : ∀ phase, frontend.Passes files phase
  · have houtcome := outcome_of_passes hsignals options (.inl hpolicy) hpasses
    refine ⟨?_, ?_, ?_⟩
    · rw [houtcome]
      exact (outcome_of_passes hsignals options.inFileOrder (.inl hpolicy) hpasses).symm
    · intro result
      rw [houtcome, frontend.mergedOutcome_eq_ok]
      exact ⟨fun h => ⟨hpasses, h⟩, fun h => h.2⟩
    · intro hfails
      obtain ⟨phase, hphase⟩ := hfails
      exact absurd (hpasses phase) hphase
  · obtain ⟨phase, hfirst⟩ := frontend.exists_failsFirst (not_forall.1 hpasses)
    have hstopped := stoppedBy_of_failsFirst hsignals options (.inl hpolicy) hfirst
    refine ⟨?_, ?_, ?_⟩
    · rw [hstopped.outcome]
      exact (stoppedBy_of_failsFirst hsignals options.inFileOrder
        (.inl hpolicy) hfirst).outcome.symm
    · intro result
      rw [hstopped.outcome]
      constructor
      · intro h
        cases h
      · intro h
        exact absurd h.1 hpasses
    · intro _
      exact ⟨phase, hfirst, hstopped⟩

/-- Jobs in the opposite order of the files. -/
def Options.backwards : Options :=
  ⟨.lastWins, fixedRunId, fun _ n => (List.range n).reverse, fun _ _ => List.reverse_perm _⟩

/-- Two files that fail when they are resolved, and one between them that would fail later. -/
def failingScript : List ScriptedFile :=
  [⟨"a.as", none, [], none, [], some (.plain "a" none), [], none⟩,
    ⟨"b.as", none, [], none, [], none, [], some (.plain "b" none)⟩,
    ⟨"c.as", none, [], none, [], some (.plain "c" none), [], none⟩]

/-- The files of that script. -/
def failingFiles : List SourceFile := [⟨"a.as", ""⟩, ⟨"b.as", ""⟩, ⟨"c.as", ""⟩]

theorem run_schedule_independent_backwards :
    (run (.scripted failingScript) .quiet .backwards failingFiles).1 =
        (run (.scripted failingScript) .quiet Options.backwards.inFileOrder failingFiles).1 ∧
      ∃ phase, (Frontend.scripted failingScript).FailsFirst failingFiles phase ∧
        StoppedBy (.scripted failingScript) failingFiles phase
          (run (.scripted failingScript) .quiet .backwards failingFiles) := by
  have hrun := run_schedule_independent (.scripted failingScript) undisturbed_quiet
    Options.backwards rfl failingFiles
  refine ⟨hrun.1, hrun.2.2 ⟨.resolve, ?_⟩⟩
  intro hpasses
  have hfirst := hpasses ⟨"a.as", ""⟩ List.mem_cons_self
  revert hfirst
  decide

end Pipeline
end ScriptWeave
