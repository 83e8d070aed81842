import ScriptWeave.Proofs.Pipeline.Execution
import ScriptWeave.Proofs.Pipeline.Phases

/-!
A conversion in stages. The policy for conflicting exports matters only between the stage that lists
the exports of all files and the one that resolves them.

What the parts of a conversion can report and fail with. A part keeps to two properties if all
reports that it adds have the one and every fault that it ends with has the other. What each phase
keeps to is said by the names that it reports under and by the labels of its faults.
-/

namespace ScriptWeave
namespace Pipeline

variable {Parsed Tree : Type}

section

variable (frontend : Frontend Parsed Tree) (signals : Signals) (options : Options)
  (files : List SourceFile)

/-- What a conversion says before anything else. -/
def announce : Run Unit :=
  step "parse" .info s!"converting {files.length} files"
    (some [("run_id", .text options.runId), ("files", .number files.length)])

/-- The exports of each file. -/
def listExports (parsed : List Parsed) : Run (List (List Export)) := do
  let jobs := parsed.map fun tree => (⟨none, frontend.exports tree⟩ : Job _)
  collect signals false "symbols" "Export error" .parse
    (← each signals options.order "symbols" jobs)

/-- The table of exports in the order of their files, unless the policy takes offence at them. -/
def registerFiles (policy : ConflictPolicy) (exports : List (ModuleId × List Export)) :
    Run SymbolTable := do
  let (table, conflicts) ← exports.foldlM (registerFile policy) (.empty, [])
  if conflicts.isEmpty then
    step "symbols" .info
      s!"registered {table.size} symbols in {table.packages.length} packages" none
    return table
  else throw (.phase "Export conflict" conflicts)

/-- A conversion up to the exports of all files. -/
def untilExports : Run (List Parsed × List (List Export)) := do
  announce options files
  let parsed ← parseFiles frontend signals options files
  let exports ← listExports frontend signals options parsed
  return (parsed, exports)

/-- A conversion up to the table. -/
def untilTable : Run (List Parsed × SymbolTable) := do
  let (parsed, exports) ← untilExports frontend signals options files
  let table ← registerFiles options.policy ((idsOf files).zip exports)
  return (parsed, table)

/-- Merges the cycles of the graph, and puts the result together. -/
def finish (table : SymbolTable) (built : DependencyGraph × OutputSet Tree) :
    Run (Result Tree) := do
  let components := built.1.components
  let resolution ← mergeCycles components built.2
  let modules := resolution.output.size
  let merged := resolution.merged.length
  step "cycles" .info s!"emitted {modules} modules ({merged} merged)"
    (some [("modules", .number modules), ("merged", .number merged)])
  return ⟨options.runId, table, built.1, components, resolution.merged, resolution.output⟩

/-- What a conversion makes of the table. -/
def afterTable (parsed : List Parsed) (table : SymbolTable) : Run (Result Tree) := do
  let trees ← resolveFiles frontend signals options files parsed table
  let built ← buildGraph frontend signals options files trees
  finish options table built

/-- What the front end answers about the dependencies of each tree. -/
def askEdges (trees : List Tree) : Run (List (Except Fault (List (ModuleId × Int64)))) :=
  each signals options.order "graph" (trees.map fun tree => ⟨none, frontend.edges tree⟩)

/-- The graph of trees whose dependencies are known. -/
def drawGraph (trees : List Tree) (answers : List (Except Fault (List (ModuleId × Int64)))) :
    Run (DependencyGraph × OutputSet Tree) := do
  let edges ← collect signals false "graph" "Dependency error" .resolution answers
  let vertices := DependencyGraph.empty.addVertices (idsOf files)
  let output := OutputSet.empty.putAll
    (((idsOf files).zip trees).map fun (id, tree) => .direct id tree)
  let graph ← ((idsOf files).zip edges).foldlM addDependencies vertices
  step "graph" .info
    s!"dependency graph has {graph.vertices.length} modules and {graph.edges.length} edges" none
  return (graph, output)

/-- A conversion up to the last phase with jobs, the one that asks for dependencies. -/
def untilEdges : Run (SymbolTable × List Tree × List (Except Fault (List (ModuleId × Int64)))) := do
  let (parsed, table) ← untilTable frontend signals options files
  let trees ← resolveFiles frontend signals options files parsed table
  let answers ← askEdges frontend signals options trees
  return (table, trees, answers)

theorem buildTable_eq (parsed : List Parsed) :
    buildTable frontend signals options files parsed =
      listExports frontend signals options parsed >>= fun exports =>
        registerFiles options.policy ((idsOf files).zip exports) := by
  rw [listExports, bind_assoc]
  rfl

theorem buildGraph_eq (trees : List Tree) : buildGraph frontend signals options files trees =
    askEdges frontend signals options trees >>= drawGraph signals files trees :=
  rfl

theorem convert_eq : convert frontend signals options files =
    untilTable frontend signals options files >>= fun known =>
      afterTable frontend signals options files known.1 known.2 := by
  simp only [untilTable, untilExports, bind_assoc, pure_bind]
  refine congrArg _ (funext fun _ => congrArg _ (funext fun parsed => ?_))
  rw [buildTable_eq, bind_assoc]
  rfl

/-- Only the stage that ends with asking for dependencies can be cancelled. -/
theorem convert_eq_untilEdges : convert frontend signals options files =
    untilEdges frontend signals options files >>= fun (table, trees, answers) =>
      drawGraph signals files trees answers >>= finish options table := by
  rw [convert_eq, untilEdges]
  simp only [bind_assoc, pure_bind, afterTable, buildGraph_eq]

end

end Pipeline

/-- The phase that a report stems from. -/
def Report.phase : Report → String
  | step event => event.phase
  | fault phase _ => phase

namespace Pipeline

variable {α β σ Parsed Tree : Type} {P : Report → Prop} {Q : Fault → Prop}

/-- The run only adds reports with the one property, and fails only with faults that have the
other. -/
def Keeps (P : Report → Prop) (Q : Fault → Prop) (x : Run α) : Prop :=
  ∀ j : Journal, (∃ new, (x.run j).2.reports = j.reports ++ new ∧ ∀ r ∈ new, P r) ∧
    ∀ fault, (x.run j).1 = .error fault → Q fault

namespace Keeps

/-- A run that reports nothing and does not fail. -/
theorem silent {x : Run α} (h : ∀ j, ∃ a, (x.run j).1 = .ok a ∧ (x.run j).2.reports = j.reports) :
    Keeps P Q x := by
  intro j
  obtain ⟨a, hok, hreports⟩ := h j
  refine ⟨⟨[], by rw [hreports, List.append_nil], fun _ hr => absurd hr List.not_mem_nil⟩, ?_⟩
  intro fault hfault
  rw [hok] at hfault
  cases hfault

theorem pure (a : α) : Keeps P Q (Pure.pure a : Run α) := silent fun _ => ⟨a, rfl, rfl⟩

theorem throw {fault : Fault} (h : Q fault) : Keeps P Q (MonadExcept.throw fault : Run α) := by
  intro j
  refine ⟨⟨[], (List.append_nil _).symm, fun _ hr => absurd hr List.not_mem_nil⟩, ?_⟩
  intro fault' hfault
  cases hfault
  exact h

theorem tell {report : Report} (h : P report) : Keeps P Q (Pipeline.tell report) :=
  fun _ => ⟨⟨[report], rfl, fun _ hr => List.mem_singleton.1 hr ▸ h⟩,
    fun _ hfault => nomatch hfault⟩

/-- A second part may rely on what the first one has yielded. -/
theorem bind {x : Run α} {f : α → Run β} (hx : Keeps P Q x)
    (hf : ∀ a, Yields x a → Keeps P Q (f a)) : Keeps P Q (x >>= f) := by
  intro j
  obtain ⟨⟨new, hnew, hkept⟩, hfault⟩ := hx j
  rcases hrun : x.run j with ⟨fault | a, next⟩
  · rw [hrun] at hnew hfault
    rw [run_bind_error hrun]
    refine ⟨⟨new, hnew, hkept⟩, ?_⟩
    intro fault' h
    cases h
    exact hfault fault rfl
  · rw [hrun] at hnew
    rw [run_bind_ok hrun]
    obtain ⟨⟨rest, hrest, hkept'⟩, hfault'⟩ := hf a ⟨j, next, hrun⟩ next
    refine ⟨⟨new ++ rest, ?_, ?_⟩, hfault'⟩
    · rw [hrest, hnew, List.append_assoc]
    · intro r hr
      exact (List.mem_append.1 hr).elim (hkept r) (hkept' r)

theorem andThen {x : Run Unit} {y : Run α} (hx : Keeps P Q x) (hy : Keeps P Q y) :
    Keeps P Q (x >>= fun _ => y) :=
  hx.bind fun _ _ => hy

theorem forM {f : α → Run Unit} (h : ∀ a, Keeps P Q (f a)) (as : List α) :
    Keeps P Q (as.forM f) := by
  induction as with
  | nil => exact .pure ()
  | cons a as ih => exact (h a).andThen ih

/-- A pass over items whose steps keep to the properties in the states of an invariant. -/
theorem foldlM {f : σ → α → Run σ} (Inv : σ → Prop) {as : List α}
    (hstep : ∀ s, Inv s → ∀ a ∈ as, Keeps P Q (f s a) ∧ ∀ s', Yields (f s a) s' → Inv s') {s : σ}
    (hs : Inv s) : Keeps P Q (as.foldlM f s) := by
  induction as generalizing s with
  | nil => exact .pure s
  | cons a as ih =>
      obtain ⟨hkeeps, hnext⟩ := hstep s hs a List.mem_cons_self
      rw [List.foldlM_cons]
      exact hkeeps.bind fun s' hs' =>
        ih (fun s hs a ha => hstep s hs a (List.mem_cons_of_mem _ ha)) (hnext s' hs')

theorem foldlM_of_forall {f : σ → α → Run σ} (h : ∀ s a, Keeps P Q (f s a)) (as : List α) (s : σ) :
    Keeps P Q (as.foldlM f s) :=
  foldlM (fun _ => True) (fun s _ a _ => ⟨h s a, fun _ _ => trivial⟩) trivial

/-- Jobs report what they announce. -/
theorem perform (signals : Signals) (phase : String) (jobs : List (Job α)) (order : List Nat)
    (j : Journal) :
    ∃ new, (Pipeline.perform signals phase jobs order j).2.reports = j.reports ++ new ∧
      ∀ r ∈ new, ∃ job ∈ jobs, ∃ event, job.announcement = some event ∧ r = .step event := by
  induction order generalizing j with
  | nil => exact ⟨[], (List.append_nil _).symm, fun _ hr => absurd hr List.not_mem_nil⟩
  | cons i order ih =>
      rw [Pipeline.perform]
      split
      · exact ⟨[], (List.append_nil _).symm, fun _ hr => absurd hr List.not_mem_nil⟩
      · split
        · exact ih j
        · next job hjob =>
            obtain ⟨new, hnew, hannounced⟩ := ih (job.start phase i j)
            cases hannouncement : job.announcement with
            | none =>
                refine ⟨new, ?_, hannounced⟩
                rw [hnew, Job.start, Job.announce, hannouncement]
            | some event =>
                refine ⟨.step event :: new, ?_, ?_⟩
                · rw [hnew, Job.start, Job.announce, hannouncement, List.append_assoc]
                  rfl
                · intro r hr
                  obtain rfl | hr := List.mem_cons.1 hr
                  · exact ⟨job, List.mem_of_getElem? hjob, event, hannouncement, rfl⟩
                  · exact hannounced r hr

theorem each {signals : Signals} {order : String → Nat → List Nat} {phase : String}
    {jobs : List (Job α)} (hcancelled : Q cancelledFault)
    (hjobs : ∀ job ∈ jobs, ∀ event, job.announcement = some event → P (.step event)) :
    Keeps P Q (Pipeline.each signals order phase jobs) := by
  intro j
  obtain ⟨new, hnew, hannounced⟩ := perform signals phase jobs (order phase jobs.length) j
  have hkept : ∀ r ∈ new, P r := by
    intro r hr
    obtain ⟨job, hjob, event, hevent, rfl⟩ := hannounced r hr
    exact hjobs job hjob event hevent
  rw [run_each]
  rcases hdone : Pipeline.perform signals phase jobs (order phase jobs.length) j with ⟨done, next⟩
  rw [hdone] at hnew
  dsimp only
  split
  · refine ⟨⟨new, hnew, hkept⟩, ?_⟩
    intro fault h
    cases h
    exact hcancelled
  · exact ⟨⟨new, hnew, hkept⟩, fun _ h => nomatch h⟩

theorem askReporter (signals : Signals) : Keeps P Q (Pipeline.askReporter signals) :=
  silent fun _ => ⟨_, rfl, rfl⟩

theorem collect {signals : Signals} {asks : Bool} {phase label : String} {code : FaultCode}
    {results : List (Except Fault α)} (hP : ∀ fault, P (.fault phase fault))
    (hQ : ∀ issues, Q (.phase label issues)) :
    Keeps P Q (Pipeline.collect signals asks phase label code results) := by
  rw [Pipeline.collect]
  dsimp only
  split
  · split
    · refine (askReporter signals).bind fun signalled _ => ?_
      split
      · exact (throw (hQ _)).bind fun _ _ => pure _
      · exact pure _
    · exact pure _
  · exact (forM (fun issue => tell (hP (.issue issue))) _).andThen (throw (hQ _))

section

variable {frontend : Frontend Parsed Tree} {signals : Signals} {options : Options}
  {files : List SourceFile}

theorem parseFiles (hcancelled : Q cancelledFault) (hP : ∀ r : Report, r.phase = "parse" → P r)
    (hQ : ∀ issues, Q (.phase "Parse error" issues)) :
    Keeps P Q (Pipeline.parseFiles frontend signals options files) := by
  refine (each hcancelled ?_).bind fun _ _ => collect (fun _ => hP (.fault _ _) rfl) hQ
  intro job hjob event hevent
  obtain ⟨file, _, rfl⟩ := List.mem_map.1 hjob
  cases hevent
  exact hP _ rfl

theorem listExports (hcancelled : Q cancelledFault) (hP : ∀ r : Report, r.phase = "symbols" → P r)
    (hQ : ∀ issues, Q (.phase "Export error" issues)) (parsed : List Parsed) :
    Keeps P Q (Pipeline.listExports frontend signals options parsed) := by
  refine (each hcancelled ?_).bind fun _ _ => collect (fun _ => hP (.fault _ _) rfl) hQ
  intro job hjob event hevent
  obtain ⟨p, _, rfl⟩ := List.mem_map.1 hjob
  cases hevent

theorem registerExport (hP : ∀ r : Report, r.phase = "symbols" → P r) (policy : ConflictPolicy)
    (id : ModuleId) (state : SymbolTable × List Issue) (e : Export) :
    Keeps P Q (Pipeline.registerExport policy id state e) := by
  obtain ⟨table, conflicts⟩ := state
  cases e with
  | package name => exact .pure _
  | symbol package symbol =>
      simp only [Pipeline.registerExport, Export.definedBy]
      split
      · exact .pure _
      · split
        · exact (tell (hP (.fault _ _) rfl)).andThen (.pure _)
        · exact (tell (hP (.step _) rfl)).andThen (.pure _)

theorem registerFiles (hP : ∀ r : Report, r.phase = "symbols" → P r)
    (hQ : ∀ issues, Q (.phase "Export conflict" issues)) (policy : ConflictPolicy)
    (exports : List (ModuleId × List Export)) :
    Keeps P Q (Pipeline.registerFiles policy exports) := by
  have hfile (state : SymbolTable × List Issue) (file : ModuleId × List Export) :
      Keeps P Q (registerFile policy state file) :=
    foldlM_of_forall (registerExport hP policy file.1) _ _
  refine (foldlM_of_forall hfile _ _).bind fun built _ => ?_
  dsimp only
  split
  · exact (tell (hP (.step _) rfl)).andThen (.pure _)
  · exact .throw (hQ _)

theorem buildTable (hcancelled : Q cancelledFault) (hP : ∀ r : Report, r.phase = "symbols" → P r)
    (hlisting : ∀ issues, Q (.phase "Export error" issues))
    (hclashing : ∀ issues, Q (.phase "Export conflict" issues)) (parsed : List Parsed) :
    Keeps P Q (Pipeline.buildTable frontend signals options files parsed) := by
  rw [buildTable_eq]
  exact (listExports hcancelled hP hlisting parsed).bind fun _ _ => registerFiles hP hclashing _ _

theorem resolveFiles (hcancelled : Q cancelledFault) (hP : ∀ r : Report, r.phase = "rewrite" → P r)
    (hQ : ∀ issues, Q (.phase "Rewriting error" issues)) (parsed : List Parsed)
    (table : SymbolTable) :
    Keeps P Q (Pipeline.resolveFiles frontend signals options files parsed table) := by
  refine (each hcancelled ?_).bind fun _ _ => collect (fun _ => hP (.fault _ _) rfl) hQ
  intro job hjob event hevent
  obtain ⟨p, _, rfl⟩ := List.mem_map.1 hjob
  cases hevent
  exact hP _ rfl

theorem addDependency (hP : ∀ r : Report, r.phase = "graph" → P r) (id : ModuleId)
    (graph : DependencyGraph) (entry : ModuleId × Int64) :
    Keeps P Q (Pipeline.addDependency id graph entry) := by
  rw [Pipeline.addDependency]
  split
  · exact .pure _
  · exact (tell (hP (.step _) rfl)).andThen (.pure _)

theorem buildGraph (hcancelled : Q cancelledFault) (hP : ∀ r : Report, r.phase = "graph" → P r)
    (hQ : ∀ issues, Q (.phase "Dependency error" issues)) (trees : List Tree) :
    Keeps P Q (Pipeline.buildGraph frontend signals options files trees) := by
  have hfile (graph : DependencyGraph) (file : ModuleId × List (ModuleId × Int64)) :
      Keeps P Q (addDependencies graph file) :=
    foldlM_of_forall (addDependency hP file.1) _ graph
  refine (each hcancelled ?_).bind fun _ _ => (collect (fun _ => hP (.fault _ _) rfl) hQ).bind
    fun edges _ => ?_
  · intro job hjob event hevent
    obtain ⟨tree, _, rfl⟩ := List.mem_map.1 hjob
    cases hevent
  · exact (foldlM_of_forall hfile _ _).bind fun _ _ => (tell (hP (.step _) rfl)).andThen (.pure _)

theorem mergeCycles (hP : ∀ r : Report, r.phase = "cycles" → P r)
    (hQ : ∀ issues, Q (.phase "Cycle merge error" issues)) (components : List Component)
    (base : OutputSet Tree) : Keeps P Q (Pipeline.mergeCycles components base) := by
  refine (forM (fun _ => tell (hP (.step _) rfl)) _).andThen ?_
  split
  · exact .pure _
  · exact (forM (fun _ => tell (hP (.fault _ _) rfl)) _).andThen (.throw (hQ _))

/-- Everything after the table is reported and labelled by later phases. -/
theorem afterTable (hcancelled : Q cancelledFault)
    (hP : ∀ r : Report, r.phase = "rewrite" ∨ r.phase = "graph" ∨ r.phase = "cycles" → P r)
    (hQ : ∀ label ∈ ["Rewriting error", "Dependency error", "Cycle merge error"], ∀ issues,
      Q (.phase label issues)) (parsed : List Parsed) (table : SymbolTable) :
    Keeps P Q (Pipeline.afterTable frontend signals options files parsed table) := by
  refine (resolveFiles hcancelled (fun r hr => hP r (.inl hr)) (hQ _ (by decide)) _ _).bind
    fun trees _ => ?_
  refine (buildGraph hcancelled (fun r hr => hP r (.inr (.inl hr))) (hQ _ (by decide)) _).bind
    fun built _ => ?_
  refine (mergeCycles (fun r hr => hP r (.inr (.inr hr))) (hQ _ (by decide)) _ _).bind fun _ _ => ?_
  exact (tell (hP (.step _) (.inr (.inr rfl)))).andThen (.pure _)

theorem convert (hcancelled : Q cancelledFault) (hP : ∀ r, P r)
    (hQ : ∀ label issues, Q (.phase label issues)) :
    Keeps P Q (Pipeline.convert frontend signals options files) := by
  refine (tell (hP _)).andThen <|
    (parseFiles hcancelled (fun r _ => hP r) (hQ _)).bind fun parsed _ => ?_
  exact (buildTable hcancelled (fun r _ => hP r) (hQ _) (hQ _) parsed).bind fun table _ =>
    afterTable hcancelled (fun r _ => hP r) (fun label _ => hQ label) parsed table

end

end Keeps

/-- Reports that a run cannot add are the same after it. -/
theorem Keeps.filter_reports {p : Report → Bool} {x : Run α} (h : Keeps (p · = false) Q x)
    (j : Journal) : (x.run j).2.reports.filter p = j.reports.filter p := by
  obtain ⟨⟨new, hnew, hkept⟩, _⟩ := h j
  have hnone : new.filter p = [] :=
    List.filter_eq_nil_iff.2 fun r hr => by rw [hkept r hr]; exact Bool.false_ne_true
  rw [hnew, List.filter_append, hnone, List.append_nil]

/-- Nothing is reported about a phase without faults. -/
theorem reports_of_collect {signals : Signals} {asks : Bool} {phase label : String}
    {code : FaultCode} {results : List (Except Fault α)} {values : List α} {j j' : Journal}
    (h : (collect signals asks phase label code results).run j = (.ok values, j')) :
    j'.reports = j.reports := by
  rw [collect] at h
  dsimp only at h
  split at h
  · split at h
    · obtain ⟨signalled, next, hask, h⟩ := run_bind_eq_ok h
      have hnext : next.reports = j.reports := by
        cases hask
        rfl
      split at h
      · obtain ⟨_, _, hthrow, _⟩ := run_bind_eq_ok h
        cases hthrow
      · cases h
        exact hnext
    · cases h
      rfl
  · obtain ⟨_, _, _, hthrow⟩ := run_bind_eq_ok h
    cases hthrow

/-- Nothing is reported while exports are listed. -/
theorem reports_of_listExports {frontend : Frontend Parsed Tree} {signals : Signals}
    {options : Options} {parsed : List Parsed}
    {exports : List (List Export)} {j j' : Journal}
    (h : (listExports frontend signals options parsed).run j = (.ok exports, j')) :
    j'.reports = j.reports := by
  obtain ⟨results, next, heach, hcollect⟩ := run_bind_eq_ok h
  rw [reports_of_collect hcollect]
  have hnone : Keeps (fun _ => False) (fun _ => True) (each signals options.order "symbols"
      (parsed.map fun tree => ⟨none, frontend.exports tree⟩)) := by
    refine Keeps.each trivial ?_
    intro job hjob event hevent
    obtain ⟨p, _, rfl⟩ := List.mem_map.1 hjob
    cases hevent
  obtain ⟨⟨new, hnew, hempty⟩, _⟩ := hnone j
  rw [heach, List.eq_nil_iff_forall_not_mem.2 hempty, List.append_nil] at hnew
  exact hnew

end Pipeline

/-- A fault that is told about in the usual way. -/
def Fault.Told (fault : Fault) : Prop := fault.crash? = none

theorem Fault.told_phase (label : String) (issues : List Issue) : (Fault.phase label issues).Told :=
  rfl

namespace Pipeline

variable {Parsed Tree : Type}

theorem told_of_run {frontend : Frontend Parsed Tree} {signals : Signals} {options : Options}
    {files : List SourceFile} {fault : Fault} {j : Journal}
    (h : run frontend signals options files = (.error fault, j)) : fault.Told := by
  have hcancelled : cancelledFault.Told := rfl
  have hkeeps : Keeps (fun _ => True) Fault.Told (convert frontend signals options files) :=
    .convert hcancelled (fun _ => trivial) (fun _ _ => Fault.told_phase _ _)
  rw [run] at h
  exact (hkeeps Journal.empty).2 fault (by rw [h])

end Pipeline
end ScriptWeave
