import Mathlib.Data.List.Basic
import Mathlib.Data.List.Perm.Basic
import ScriptWeave.Pipeline.Convert

/-!
What a conversion that yields a result has done. A phase that ends well has performed every job,
whatever the order, and no job failed; the phases then agree with plain folds over the files that
know nothing of journals and signals.
-/

namespace ScriptWeave
namespace Pipeline

variable {α β Parsed Tree : Type}

/-- From some journal the run ends with the value. -/
def Yields (x : Run α) (a : α) : Prop := ∃ j j', x.run j = (.ok a, j')

/-- A sequence that ends with a value has ended both of its parts with one. -/
theorem run_bind_eq_ok {x : Run α} {f : α → Run β} {b : β} {j j' : Journal}
    (h : (x >>= f).run j = (.ok b, j')) :
    ∃ a next, x.run j = (.ok a, next) ∧ (f a).run next = (.ok b, j') := by
  rw [ExceptT.run_bind] at h
  change ExceptT.bindCont (fun a => f a) (x.run j).1 (x.run j).2 = (.ok b, j') at h
  cases hx : x.run j with
  | mk outcome next =>
      rw [hx] at h
      cases outcome with
      | ok a => exact ⟨a, next, rfl, h⟩
      | error fault => cases h

theorem yields_bind {x : Run α} {f : α → Run β} {b : β} (h : Yields (x >>= f) b) :
    ∃ a, Yields x a ∧ Yields (f a) b := by
  obtain ⟨j, j', h⟩ := h
  obtain ⟨a, next, hx, hf⟩ := run_bind_eq_ok h
  exact ⟨a, ⟨j, next, hx⟩, next, j', hf⟩

theorem yields_pure {a b : α} (h : Yields (pure a) b) : a = b := by
  obtain ⟨j, j', h⟩ := h
  cases h
  rfl

theorem not_yields_throw {fault : Fault} {a : α} : ¬ Yields (throw fault) a := by
  intro h
  obtain ⟨j, j', h⟩ := h
  cases h

/-- Dropping a first step that only reports. -/
theorem yields_of_then {x : Run Unit} {y : Run α} {a : α} (h : Yields (x >>= fun _ => y) a) :
    Yields y a := by
  obtain ⟨_, _, h⟩ := yields_bind h
  exact h

theorem yields_foldlM {σ γ : Type} (view : σ → γ) {step : σ → α → Run σ} {act : γ → α → γ}
    (hstep : ∀ s a s', Yields (step s a) s' → view s' = act (view s) a)
    (as : List α) {s s' : σ} (h : Yields (as.foldlM step s) s') :
    view s' = as.foldl act (view s) := by
  induction as generalizing s with
  | nil => rw [← yields_pure h, List.foldl_nil]
  | cons a as ih =>
      rw [List.foldlM_cons] at h
      obtain ⟨next, hnext, h⟩ := yields_bind h
      rw [ih h, hstep s a next hnext, List.foldl_cons]

/-- Jobs that were performed without cancellation were performed at every place. -/
theorem perform_complete {signals : Signals} {phase : String} {jobs : List (Job α)}
    (order : List Nat) {j : Journal}
    (h : signals.cancelled (perform signals phase jobs order j).2.reports = false) :
    (perform signals phase jobs order j).1 =
      order.filterMap fun i => jobs[i]?.map fun job => (i, job.result) := by
  induction order generalizing j with
  | nil => rfl
  | cons i order ih =>
      rw [perform] at h ⊢
      split at h
      · next hcancelled => simp [hcancelled] at h
      · next hgoing =>
          rw [if_neg hgoing]
          cases hjob : jobs[i]? with
          | none =>
              rw [hjob] at h
              simp only [List.filterMap_cons, hjob]
              exact ih h
          | some job =>
              rw [hjob] at h
              simp only [List.filterMap_cons, hjob, Option.map_some]
              rw [ih h]

theorem lookup_results {jobs : List (Job α)} {i : Nat} {job : Job α} (hjob : jobs[i]? = some job)
    {order : List Nat} (h : i ∈ order) :
    (order.filterMap fun k => jobs[k]?.map fun job => (k, job.result)).lookup i =
      some job.result := by
  induction order with
  | nil => exact absurd h List.not_mem_nil
  | cons k order ih =>
      by_cases hik : i = k
      · subst hik
        simp [hjob]
      · have hmem : i ∈ order := List.mem_of_ne_of_mem hik h
        have hne : (i == k) = false := beq_false_of_ne hik
        cases hother : jobs[k]? with
        | none => simpa [hother] using ih hmem
        | some other => simpa [hother, List.lookup_cons, hne] using ih hmem

theorem filterMap_range_getElem? (as : List α) :
    ((List.range as.length).filterMap fun i => as[i]?) = as := by
  induction as with
  | nil => rfl
  | cons a as ih =>
      rw [List.length_cons, List.range_succ_eq_map, List.filterMap_cons, List.filterMap_map]
      exact congrArg (a :: ·) ih

theorem yields_each {signals : Signals} {order : String → Nat → List Nat} {phase : String}
    {jobs : List (Job α)} (horder : ∀ phase n, (order phase n).Perm (List.range n))
    {results : List (Except Fault α)}
    (h : Yields (each signals order phase jobs) results) : results = jobs.map (·.result) := by
  rw [each] at h
  obtain ⟨j, _, h⟩ := yields_bind h
  have hrest := yields_of_then h
  split at hrest
  · exact absurd hrest not_yields_throw
  · next hgoing =>
      have hdone := perform_complete (order phase jobs.length) (Bool.eq_false_iff.2 hgoing)
      have hlookup : ∀ i ∈ List.range jobs.length,
          (perform signals phase jobs (order phase jobs.length) j).1.lookup i =
            (jobs.map (·.result))[i]? := by
        intro i hi
        have hjob := List.getElem?_eq_getElem (List.mem_range.1 hi)
        rw [hdone, lookup_results hjob ((horder phase jobs.length).mem_iff.2 hi),
          List.getElem?_map, hjob, Option.map_some]
      rw [← yields_pure hrest, List.filterMap_congr hlookup]
      simpa using filterMap_range_getElem? (jobs.map (·.result))

theorem eq_map_ok {results : List (Except Fault α)}
    (h : ∀ fault, .error fault ∉ results) :
    results = (results.filterMap Except.toOption).map .ok := by
  induction results with
  | nil => rfl
  | cons result results ih =>
      cases result with
      | error fault => exact absurd List.mem_cons_self (h fault)
      | ok a => exact congrArg (.ok a :: ·) (ih fun fault hf => h fault (List.mem_cons_of_mem _ hf))

/-- The values of a phase that ends well are the results of all its jobs. -/
theorem yields_collect {signals : Signals} {asks : Bool} {phase label : String} {code : FaultCode}
    {results : List (Except Fault α)} {values : List α}
    (h : Yields (collect signals asks phase label code results) values) :
    results = values.map .ok := by
  rw [collect] at h
  dsimp only at h
  split at h
  · next hempty =>
      have hnone : ∀ fault, .error fault ∉ results := by
        intro fault hf
        have hnil := List.filterMap_eq_nil_iff.1 (List.isEmpty_iff.1 hempty) _ hf
        cases hnil
      have hvalues : results.filterMap Except.toOption = values := by
        split at h
        · obtain ⟨signalled, _, h⟩ := yields_bind h
          split at h
          · obtain ⟨_, hthrow, _⟩ := yields_bind h
            exact absurd hthrow not_yields_throw
          · exact yields_pure h
        · exact yields_pure h
      rw [← hvalues]
      exact eq_map_ok hnone
  · exact absurd (yields_of_then h) not_yields_throw

theorem yields_phase {signals : Signals} {options : Options} {asks : Bool} {phase label : String}
    {code : FaultCode} {jobs : List (Job α)} {values : List α}
    (h : Yields (do
      collect signals asks phase label code (← each signals options.order phase jobs)) values) :
    jobs.map (·.result) = values.map .ok := by
  obtain ⟨results, heach, hcollect⟩ := yields_bind h
  rw [← yields_each options.order_perm heach]
  exact yields_collect hcollect

theorem yields_parseFiles {frontend : Frontend Parsed Tree} {signals : Signals} {options : Options}
    {files : List SourceFile} {parsed : List Parsed}
    (h : Yields (parseFiles frontend signals options files) parsed) :
    files.map frontend.parse = parsed.map .ok := by
  have hphase := yields_phase h
  rwa [List.map_map] at hphase

theorem yields_registerExport {policy : ConflictPolicy} {id : ModuleId}
    {state state' : SymbolTable × List Issue} {e : Export}
    (h : Yields (registerExport policy id state e) state') :
    state'.1 = state.1.register (e.definedBy id) := by
  simp only [registerExport] at h
  cases e with
  | package name => rw [← yields_pure h, Export.definedBy, SymbolTable.register]
  | symbol package symbol =>
      dsimp only [Export.definedBy] at h
      split at h
      · rw [← yields_pure h, Export.definedBy, SymbolTable.register]
      · cases policy with
        | fail => rw [← yields_pure (yields_of_then h), Export.definedBy, SymbolTable.register]
        | lastWins => rw [← yields_pure (yields_of_then h), Export.definedBy, SymbolTable.register]

/-- The exports of a file, as its module makes them. -/
def ownExports (file : ModuleId × List Export) : List Export := file.2.map (·.definedBy file.1)

/-- A module defines all symbols that it exports. -/
theorem exportPath_of_mem_ownExports {file : ModuleId × List Export} {package : String} {s : Symbol}
    (h : .symbol package s ∈ ownExports file) : s.exportPath = file.1 := by
  obtain ⟨e, _, heq⟩ := List.mem_map.1 h
  cases e with
  | package name => cases heq
  | symbol home symbol =>
      cases heq
      rfl

theorem ownExports_exports (id : ModuleId) (file : Script.File) :
    ownExports (id, file.exports .unset) = file.exports id := by
  rw [ownExports, Script.File.exports, List.map_cons, List.map_map]
  rfl

theorem yields_registerFile {policy : ConflictPolicy} {state state' : SymbolTable × List Issue}
    {file : ModuleId × List Export} (h : Yields (registerFile policy state file) state') :
    state'.1 = state.1.registerAll (ownExports file) := by
  rw [SymbolTable.registerAll, ownExports, List.foldl_map]
  exact yields_foldlM Prod.fst (fun _ _ _ => yields_registerExport) file.2 h

/-- The ids of the modules of the files, in order. -/
def idsOf (files : List SourceFile) : List ModuleId :=
  files.map fun file => ModuleId.ofSource file.path

theorem yields_buildTable {frontend : Frontend Parsed Tree} {signals : Signals} {options : Options}
    {files : List SourceFile} {parsed : List Parsed} {table : SymbolTable}
    (h : Yields (buildTable frontend signals options files parsed) table) :
    ∃ exports : List (List Export),
      parsed.map frontend.exports = exports.map .ok ∧
      table = SymbolTable.empty.registerAll (((idsOf files).zip exports).flatMap ownExports) := by
  rw [buildTable] at h
  obtain ⟨results, heach, h⟩ := yields_bind h
  obtain ⟨exports, hcollect, h⟩ := yields_bind h
  obtain ⟨⟨built, conflicts⟩, hfold, h⟩ := yields_bind h
  refine ⟨exports, ?_, ?_⟩
  · rw [← yields_collect hcollect, yields_each options.order_perm heach, List.map_map]
    rfl
  · have htable : built = table := by
      dsimp only at h
      split at h
      · exact yields_pure (yields_of_then h)
      · exact absurd h not_yields_throw
    rw [← htable, SymbolTable.registerAll, List.foldl_flatMap]
    exact yields_foldlM Prod.fst (fun _ _ _ => yields_registerFile) _ hfold

theorem yields_resolveFiles {frontend : Frontend Parsed Tree} {signals : Signals}
    {options : Options} {files : List SourceFile} {parsed : List Parsed} {table : SymbolTable}
    {trees : List Tree}
    (h : Yields (resolveFiles frontend signals options files parsed table) trees) :
    (files.zip parsed).map (fun p => frontend.resolve p.2 table) = trees.map .ok := by
  have hphase := yields_phase h
  rwa [List.map_map] at hphase

theorem yields_addDependency {id : ModuleId} {g g' : DependencyGraph} {entry : ModuleId × Int64}
    (h : Yields (addDependency id g entry) g') : g' = g.includeEdge id entry.1 entry.2 := by
  rw [addDependency] at h
  rw [DependencyGraph.includeEdge]
  cases hedge : g.addEdge id entry.1 entry.2 with
  | ok extended =>
      rw [hedge] at h
      exact (yields_pure h).symm
  | error unknown =>
      rw [hedge] at h
      exact (yields_pure (yields_of_then h)).symm

/-- Adds the dependencies of a module in the order of the module paths. -/
def includeEdges (g : DependencyGraph) (file : ModuleId × List (ModuleId × Int64)) :
    DependencyGraph :=
  (file.2.mergeSort fun a b => a.1.path ≤ b.1.path).foldl
    (fun g entry => g.includeEdge file.1 entry.1 entry.2) g

theorem yields_addDependencies {g g' : DependencyGraph} {file : ModuleId × List (ModuleId × Int64)}
    (h : Yields (addDependencies g file) g') : g' = includeEdges g file :=
  yields_foldlM id (fun _ _ _ => yields_addDependency) _ h

theorem yields_buildGraph {frontend : Frontend Parsed Tree} {signals : Signals} {options : Options}
    {files : List SourceFile} {trees : List Tree} {g : DependencyGraph} {base : OutputSet Tree}
    (h : Yields (buildGraph frontend signals options files trees) (g, base)) :
    ∃ edges, trees.map frontend.edges = edges.map .ok ∧
      g = ((idsOf files).zip edges).foldl includeEdges (.addVertices .empty (idsOf files)) ∧
      base = OutputSet.empty.putAll (((idsOf files).zip trees).map fun p => .direct p.1 p.2) := by
  rw [buildGraph] at h
  obtain ⟨results, heach, h⟩ := yields_bind h
  obtain ⟨edges, hcollect, h⟩ := yields_bind h
  obtain ⟨built, hfold, h⟩ := yields_bind h
  have hpair := yields_pure (yields_of_then h)
  cases hpair
  refine ⟨edges, ?_, ?_, rfl⟩
  · rw [← yields_collect hcollect, yields_each options.order_perm heach, List.map_map]
    rfl
  · exact yields_foldlM id (fun _ _ _ => yields_addDependencies) _ hfold

theorem yields_mergeCycles {components : List Component} {base : OutputSet Tree}
    {resolution : Cycle.Resolution Tree} (h : Yields (mergeCycles components base) resolution) :
    Cycle.resolve base components = .ok resolution := by
  rw [mergeCycles] at h
  have h := yields_of_then h
  split at h
  · next hresolve => rw [hresolve, yields_pure h]
  · exact absurd (yields_of_then h) not_yields_throw

/-- What the phases of a conversion that ends well have made of the files. -/
structure Conversion (frontend : Frontend Parsed Tree) (files : List SourceFile)
    (result : Result Tree) where
  parsed : List Parsed
  exports : List (List Export)
  trees : List Tree
  edges : List (List (ModuleId × Int64))
  base : OutputSet Tree
  parse_eq : files.map frontend.parse = parsed.map .ok
  exports_eq : parsed.map frontend.exports = exports.map .ok
  table_eq : result.table =
    SymbolTable.empty.registerAll (((idsOf files).zip exports).flatMap ownExports)
  resolve_eq : (files.zip parsed).map (fun p => frontend.resolve p.2 result.table) = trees.map .ok
  edges_eq : trees.map frontend.edges = edges.map .ok
  graph_eq : result.graph =
    ((idsOf files).zip edges).foldl includeEdges (.addVertices .empty (idsOf files))
  base_eq : base = OutputSet.empty.putAll (((idsOf files).zip trees).map fun p => .direct p.1 p.2)
  components_eq : result.components = result.graph.components
  merge_eq : Cycle.resolve base result.graph.components = .ok ⟨result.output, result.merged⟩

theorem nonempty_conversion {frontend : Frontend Parsed Tree} {signals : Signals}
    {options : Options} {files : List SourceFile} {result : Result Tree} {journal : Journal}
    (h : run frontend signals options files = (.ok result, journal)) :
    Nonempty (Conversion frontend files result) := by
  have hyields : Yields (convert frontend signals options files) result := ⟨_, _, h⟩
  rw [convert] at hyields
  obtain ⟨parsed, hparse, hyields⟩ := yields_bind (yields_of_then hyields)
  obtain ⟨table, htable, hyields⟩ := yields_bind hyields
  obtain ⟨trees, hresolve, hyields⟩ := yields_bind hyields
  obtain ⟨⟨g, base⟩, hgraph, hyields⟩ := yields_bind hyields
  obtain ⟨resolution, hmerge, hyields⟩ := yields_bind hyields
  have hresult := yields_pure (yields_of_then hyields)
  subst hresult
  obtain ⟨exports, hexports, htable⟩ := yields_buildTable htable
  obtain ⟨edges, hedges, hgraph, hbase⟩ := yields_buildGraph hgraph
  exact ⟨{
    parsed, exports, trees, edges, base
    parse_eq := yields_parseFiles hparse
    exports_eq := hexports
    table_eq := htable
    resolve_eq := yields_resolveFiles hresolve
    edges_eq := hedges
    graph_eq := hgraph
    base_eq := hbase
    components_eq := rfl
    merge_eq := yields_mergeCycles hmerge }⟩

end Pipeline
end ScriptWeave
