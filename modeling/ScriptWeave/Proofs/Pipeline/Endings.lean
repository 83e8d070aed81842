import Mathlib.Order.WellFounded
import ScriptWeave.Proofs.Module.Registration
import ScriptWeave.Proofs.Pipeline.Execution

/-!
What a conversion comes to, whatever the order in which the jobs of its phases are performed. For
each file alone the front end says in which phase it fails and with what fault; from these answers
follow the phase that ends the run, the issues that it ends with and reports, the jobs that have
been performed by then, and otherwise the result.
-/

namespace ScriptWeave
namespace Pipeline

variable {α β γ Parsed Tree : Type}

/-- The phases in which files can fail, in order. -/
inductive Phase where
  | parse
  | exports
  | resolve
  | edges
deriving DecidableEq, Repr

namespace Phase

def rank : Phase → Nat
  | parse => 0
  | exports => 1
  | resolve => 2
  | edges => 3

/-- The name under which a phase reports. -/
def name : Phase → String
  | parse => "parse"
  | exports => "symbols"
  | resolve => "rewrite"
  | edges => "graph"

/-- What a phase calls the faults of its files. -/
def label : Phase → String
  | parse => "Parse error"
  | exports => "Export error"
  | resolve => "Rewriting error"
  | edges => "Dependency error"

/-- The code of a fault that has none of its own. -/
def code : Phase → FaultCode
  | parse | exports => .parse
  | resolve | edges => .resolution

end Phase

namespace Frontend

variable (frontend : Frontend Parsed Tree)

def parsed? (file : SourceFile) : Option Parsed := (frontend.parse file).toOption

def listed? (file : SourceFile) : Option (List Export) :=
  (frontend.parsed? file).bind fun parsed => (frontend.exports parsed).toOption

/-- The exports of a file, as the module that it becomes makes them. -/
def exports? (file : SourceFile) : Option (List Export) :=
  (frontend.listed? file).map fun es => ownExports (.ofSource file.path, es)

def tree? (table : SymbolTable) (file : SourceFile) : Option Tree :=
  (frontend.parsed? file).bind fun parsed => (frontend.resolve parsed table).toOption

def edges? (table : SymbolTable) (file : SourceFile) : Option (List (ModuleId × Int64)) :=
  (frontend.tree? table file).bind fun tree => (frontend.edges tree).toOption

/-- The fault of a file in a phase that it gets to. -/
def fault? (table : SymbolTable) (file : SourceFile) : Phase → Option Fault
  | .parse => faultOf? (frontend.parse file)
  | .exports => (frontend.parsed? file).bind fun parsed => faultOf? (frontend.exports parsed)
  | .resolve => (frontend.parsed? file).bind fun parsed =>
      faultOf? (frontend.resolve parsed table)
  | .edges => (frontend.tree? table file).bind fun tree => faultOf? (frontend.edges tree)

variable (files : List SourceFile)

/-- The table of the exports of all files. -/
def tableOf : SymbolTable :=
  SymbolTable.empty.registerAll (files.filterMap frontend.exports?).flatten

/-- The dependency graph of all files. -/
def graphOf : DependencyGraph :=
  (files.filterMap fun file => (frontend.edges? (frontend.tableOf files) file).map
      (ModuleId.ofSource file.path, ·)).foldl includeEdges (.addVertices .empty (idsOf files))

/-- The modules of all files before their cycles are merged. -/
def baseOf : OutputSet Tree :=
  OutputSet.empty.putAll (files.filterMap fun file =>
    (frontend.tree? (frontend.tableOf files) file).map (.direct (.ofSource file.path)))

/-- The faults of all files in a phase, in the order of the files. -/
def faultsIn (phase : Phase) : List Fault :=
  files.filterMap fun file => frontend.fault? (frontend.tableOf files) file phase

def issuesIn (phase : Phase) : List Issue :=
  (frontend.faultsIn files phase).flatMap (·.toIssues phase.code)

/-- No file fails in the phase. -/
def Passes (phase : Phase) : Prop :=
  ∀ file ∈ files, frontend.fault? (frontend.tableOf files) file phase = none

/-- The first phase in which some file fails. -/
def FailsFirst (phase : Phase) : Prop :=
  (∃ file ∈ files, frontend.fault? (frontend.tableOf files) file phase ≠ none) ∧
    ∀ earlier : Phase, earlier.rank < phase.rank → frontend.Passes files earlier

/-- The result when the cycles of all files can be merged. -/
def Merges (runId : String) (result : Result Tree) : Prop :=
  ∃ resolution, Cycle.resolve (frontend.baseOf files) (frontend.graphOf files).components =
      .ok resolution ∧
    result = ⟨runId, frontend.tableOf files, frontend.graphOf files,
      (frontend.graphOf files).components, resolution.merged, resolution.output⟩

/-- The outcome when no file fails. -/
def mergedOutcome (runId : String) : Except Fault (Result Tree) :=
  match Cycle.resolve (frontend.baseOf files) (frontend.graphOf files).components with
  | .ok resolution => .ok ⟨runId, frontend.tableOf files, frontend.graphOf files,
      (frontend.graphOf files).components, resolution.merged, resolution.output⟩
  | .error fault => .error (.phase "Cycle merge error" (fault.toIssues .cycleMerge))

theorem mergedOutcome_eq_ok (runId : String) (result : Result Tree) :
    frontend.mergedOutcome files runId = .ok result ↔ frontend.Merges files runId result := by
  rw [mergedOutcome, Merges]
  cases Cycle.resolve (frontend.baseOf files) (frontend.graphOf files).components with
  | ok resolution => simp [eq_comm]
  | error fault => simp

end Frontend

theorem map_zip_filterMap {f : α → Option β} {as : List α} (h : ∀ a ∈ as, f a ≠ none)
    (k : α × β → γ) :
    (as.zip (as.filterMap f)).map k = as.filterMap fun a => (f a).map fun b => k (a, b) := by
  induction as with
  | nil => rfl
  | cons a as ih =>
      obtain ⟨b, hb⟩ := Option.ne_none_iff_exists'.1 (h a List.mem_cons_self)
      rw [List.filterMap_cons_some hb, List.zip_cons_cons, List.map_cons,
        ih fun x hx => h x (List.mem_cons_of_mem _ hx), List.filterMap_cons, hb, Option.map_some]

theorem length_filterMap_eq {f : α → Option β} {as : List α} (h : ∀ a ∈ as, f a ≠ none) :
    (as.filterMap f).length = as.length :=
  List.filterMap_length_eq_length.2 fun a ha => Option.isSome_iff_ne_none.2 (h a ha)

theorem toOption_ne_none {x : Except Fault α} (h : faultOf? x = none) : x.toOption ≠ none := by
  cases x with
  | ok a => exact Option.some_ne_none a
  | error fault => cases h

section

variable {frontend : Frontend Parsed Tree} {files : List SourceFile}

theorem Frontend.passes_iff {phase : Phase} :
    frontend.Passes files phase ↔ frontend.faultsIn files phase = [] :=
  List.filterMap_eq_nil_iff.symm

theorem Frontend.FailsFirst.faultsIn_ne_nil {phase : Phase} (h : frontend.FailsFirst files phase) :
    frontend.faultsIn files phase ≠ [] := by
  intro hnil
  obtain ⟨file, hfile, hfault⟩ := h.1
  exact hfault (passes_iff.2 hnil file hfile)

theorem Frontend.exists_failing {phase : Phase} (h : ¬ frontend.Passes files phase) :
    ∃ file ∈ files, frontend.fault? (frontend.tableOf files) file phase ≠ none := by
  simpa [Passes] using h

/-- Where some phase fails, one of them is the first. -/
theorem Frontend.exists_failsFirst (h : ∃ phase, ¬ frontend.Passes files phase) :
    ∃ first, frontend.FailsFirst files first := by
  obtain ⟨first, hfails, hleast⟩ :=
    (measure Phase.rank).wf.has_min { phase | ¬ frontend.Passes files phase } h
  refine ⟨first, exists_failing hfails, ?_⟩
  intro earlier hrank
  by_contra hearlier
  exact hleast earlier hearlier hrank

theorem Frontend.Passes.parsed? (h : frontend.Passes files .parse) :
    ∀ file ∈ files, frontend.parsed? file ≠ none :=
  fun file hfile => toOption_ne_none (h file hfile)

theorem Frontend.Passes.listed? (hparse : frontend.Passes files .parse)
    (h : frontend.Passes files .exports) : ∀ file ∈ files, frontend.listed? file ≠ none := by
  intro file hfile
  obtain ⟨parsed, hparsed⟩ := Option.ne_none_iff_exists'.1 (hparse.parsed? file hfile)
  have hfault := h file hfile
  rw [fault?, hparsed, Option.bind_some] at hfault
  rw [Frontend.listed?, hparsed, Option.bind_some]
  exact toOption_ne_none hfault

theorem Frontend.Passes.tree? (hparse : frontend.Passes files .parse)
    (h : frontend.Passes files .resolve) :
    ∀ file ∈ files, frontend.tree? (frontend.tableOf files) file ≠ none := by
  intro file hfile
  obtain ⟨parsed, hparsed⟩ := Option.ne_none_iff_exists'.1 (hparse.parsed? file hfile)
  have hfault := h file hfile
  rw [fault?, hparsed, Option.bind_some] at hfault
  rw [Frontend.tree?, hparsed, Option.bind_some]
  exact toOption_ne_none hfault

theorem Frontend.Passes.edges? (hparse : frontend.Passes files .parse)
    (hresolve : frontend.Passes files .resolve) (h : frontend.Passes files .edges) :
    ∀ file ∈ files, frontend.edges? (frontend.tableOf files) file ≠ none := by
  intro file hfile
  obtain ⟨tree, htree⟩ := Option.ne_none_iff_exists'.1 (hparse.tree? hresolve file hfile)
  have hfault := h file hfile
  rw [fault?, htree, Option.bind_some] at hfault
  rw [Frontend.edges?, htree, Option.bind_some]
  exact toOption_ne_none hfault

theorem Frontend.graphOf_eq
    (h : ∀ file ∈ files, frontend.edges? (frontend.tableOf files) file ≠ none) :
    frontend.graphOf files = ((idsOf files).zip
      (files.filterMap (frontend.edges? (frontend.tableOf files)))).foldl includeEdges
        (.addVertices .empty (idsOf files)) := by
  rw [Frontend.graphOf, idsOf, List.zip_map_left, map_zip_filterMap h]
  rfl

/-- Answers that hang on an earlier value, seen through a view of the answer. -/
theorem filterMap_answers {δ : Type} (view : Except Fault γ → Option δ) {value : α → Option β}
    {answer : α → β → Except Fault γ} (as : List α) :
    (as.filterMap fun a => (value a).map (answer a)).filterMap view =
      as.filterMap fun a => (value a).bind fun b => view (answer a b) := by
  rw [List.filterMap_filterMap]
  simp only [Option.bind_map]
  rfl

theorem Frontend.exports_answers {δ : Type} (view : Except Fault (List Export) → Option δ) :
    ((files.filterMap frontend.parsed?).map frontend.exports).filterMap view =
      files.filterMap fun file => (frontend.parsed? file).bind fun parsed =>
        view (frontend.exports parsed) := by
  rw [← filterMap_answers, List.map_filterMap]

/-- The exports that are registered, where every file lists its own. -/
theorem Frontend.ownExports_listed (h : ∀ file ∈ files, frontend.listed? file ≠ none) :
    ((idsOf files).zip (files.filterMap frontend.listed?)).flatMap ownExports =
      (files.filterMap frontend.exports?).flatten := by
  rw [List.flatMap_def, idsOf, List.zip_map_left, List.map_map, map_zip_filterMap h]
  rfl

theorem Frontend.resolve_answers (h : frontend.Passes files .parse) (table : SymbolTable) {δ : Type}
    (view : Except Fault Tree → Option δ) :
    ((files.zip (files.filterMap frontend.parsed?)).map fun p =>
        frontend.resolve p.2 table).filterMap view =
      files.filterMap fun file => (frontend.parsed? file).bind fun parsed =>
        view (frontend.resolve parsed table) := by
  rw [← filterMap_answers]
  exact congrArg _ (map_zip_filterMap h.parsed? _)

theorem Frontend.edges_answers (table : SymbolTable) {δ : Type}
    (view : Except Fault (List (ModuleId × Int64)) → Option δ) :
    ((files.filterMap (frontend.tree? table)).map frontend.edges).filterMap view =
      files.filterMap fun file => (frontend.tree? table file).bind fun tree =>
        view (frontend.edges tree) := by
  rw [← filterMap_answers, List.map_filterMap]

end

theorem Ends.registerExport {policy : ConflictPolicy} {id : ModuleId} {t : SymbolTable}
    {conflicts : List Issue} {e : Export} {es : List Export}
    (h : policy = .lastWins ∨ t.Unclashing (e.definedBy id :: es)) :
    Ends (Pipeline.registerExport policy id (t, conflicts) e)
      (.ok (t.register (e.definedBy id), conflicts)) [] [] := by
  cases e with
  | package name => exact .pure _
  | symbol package symbol =>
      simp only [Pipeline.registerExport, Export.definedBy]
      cases hlookup : t.lookup? package symbol.name with
      | none => exact .pure _
      | some previous =>
          cases h with
          | inl hpolicy =>
              subst hpolicy
              exact (Ends.step _ _ _ _).andThen (.pure _)
          | inr hfresh =>
              have hnone := hfresh.head
              rw [hlookup] at hnone
              cases hnone

theorem Ends.registerFile {policy : ConflictPolicy} {id : ModuleId} {t : SymbolTable}
    {conflicts : List Issue} {es : List Export}
    (h : policy = .lastWins ∨ t.Unclashing (ownExports (id, es))) :
    Ends (Pipeline.registerFile policy (t, conflicts) (id, es))
      (.ok (t.registerAll (ownExports (id, es)), conflicts)) [] [] := by
  rw [Pipeline.registerFile, SymbolTable.registerAll]
  induction es generalizing t with
  | nil => exact .pure _
  | cons e es ih =>
      rw [List.foldlM_cons, ownExports, List.map_cons, List.foldl_cons]
      exact (Ends.registerExport h).bind (ih (h.imp_right fun hes => hes.tail))

theorem Ends.registerFiles {policy : ConflictPolicy} {files : List (ModuleId × List Export)}
    {t : SymbolTable} {conflicts : List Issue}
    (h : policy = .lastWins ∨ t.Unclashing (files.flatMap ownExports)) :
    Ends (files.foldlM (Pipeline.registerFile policy) (t, conflicts))
      (.ok (t.registerAll (files.flatMap ownExports), conflicts)) [] [] := by
  induction files generalizing t with
  | nil => exact .pure _
  | cons file files ih =>
      rw [List.flatMap_cons] at h ⊢
      rw [List.foldlM_cons, SymbolTable.registerAll_append]
      exact (Ends.registerFile (h.imp_right fun hes => hes.left)).bind
        (ih (h.imp_right fun hes => hes.right))

theorem Ends.addDependency (id : ModuleId) (g : DependencyGraph) (entry : ModuleId × Int64) :
    Ends (Pipeline.addDependency id g entry) (.ok (g.includeEdge id entry.1 entry.2)) [] [] := by
  rw [Pipeline.addDependency, DependencyGraph.includeEdge]
  cases g.addEdge id entry.1 entry.2 with
  | ok extended => exact .pure _
  | error unknown => exact (Ends.step _ _ _ _).andThen (.pure _)

theorem Ends.addDependencies (g : DependencyGraph) (file : ModuleId × List (ModuleId × Int64)) :
    Ends (Pipeline.addDependencies g file) (.ok (includeEdges g file)) [] [] :=
  Ends.foldlM (Ends.addDependency file.1) _ g

section

variable {frontend : Frontend Parsed Tree} {files : List SourceFile}
variable {signals : Signals} (hsignals : signals.Undisturbed) (options : Options)

/-- The jobs of a phase, as they are performed. -/
def Options.jobs (options : Options) (phase : Phase) (n : Nat) : List (String × Nat) :=
  (options.order phase.name n).map (phase.name, ·)

include hsignals

theorem ends_parseFiles (h : frontend.Passes files .parse) :
    Ends (parseFiles frontend signals options files) (.ok (files.filterMap frontend.parsed?)) []
      (options.jobs .parse files.length) := by
  refine Ends.phasePasses hsignals options _ _ _ _ (List.length_map _) ?_ ?_
  · rw [List.map_map, List.filterMap_map]
    exact Frontend.passes_iff.1 h
  · rw [List.map_map, List.filterMap_map]
    rfl

theorem ends_parseFiles_error (h : frontend.FailsFirst files .parse) :
    Ends (parseFiles frontend signals options files)
      (.error (.phase Phase.parse.label (frontend.issuesIn files .parse)))
      (issueReports Phase.parse.name (frontend.issuesIn files .parse))
      (options.jobs .parse files.length) := by
  refine Ends.phaseFails hsignals options _ _ _ _ (List.length_map _) ?_ h.faultsIn_ne_nil
  rw [List.map_map, List.filterMap_map]
  rfl

theorem ends_buildTable (hparse : frontend.Passes files .parse)
    (hexports : frontend.Passes files .exports)
    (hpolicy : options.policy = .lastWins ∨
      SymbolTable.empty.Unclashing (files.filterMap frontend.exports?).flatten) :
    Ends (buildTable frontend signals options files (files.filterMap frontend.parsed?))
      (.ok (frontend.tableOf files)) [] (options.jobs .exports files.length) := by
  have hflatten := Frontend.ownExports_listed (hparse.listed? hexports)
  rw [← hflatten] at hpolicy
  refine Ends.assoc (Ends.finish (a := files.filterMap frontend.listed?) ?_ ?_)
  · refine Ends.phasePasses hsignals options _ _ _ _ ?_ ?_ ?_
    · rw [List.length_map, length_filterMap_eq hparse.parsed?]
    · rw [List.map_map]
      exact (Frontend.exports_answers _).trans (Frontend.passes_iff.1 hexports)
    · rw [List.map_map]
      exact Frontend.exports_answers _
  · refine (Ends.registerFiles hpolicy).finish ?_
    rw [hflatten]
    exact (Ends.step _ _ _ _).andThen (.pure _)

theorem ends_buildTable_error (h : frontend.FailsFirst files .exports) :
    Ends (buildTable frontend signals options files (files.filterMap frontend.parsed?))
      (.error (.phase Phase.exports.label (frontend.issuesIn files .exports)))
      (issueReports Phase.exports.name (frontend.issuesIn files .exports))
      (options.jobs .exports files.length) := by
  have hparse := h.2 .parse (by decide)
  refine Ends.assoc (Ends.bind_error ?_)
  refine Ends.phaseFails hsignals options _ _ _ _ ?_ ?_ h.faultsIn_ne_nil
  · rw [List.length_map, length_filterMap_eq hparse.parsed?]
  · rw [List.map_map]
    exact Frontend.exports_answers _

theorem ends_resolveFiles (hparse : frontend.Passes files .parse)
    (hresolve : frontend.Passes files .resolve) :
    Ends (resolveFiles frontend signals options files (files.filterMap frontend.parsed?)
        (frontend.tableOf files))
      (.ok (files.filterMap (frontend.tree? (frontend.tableOf files)))) []
      (options.jobs .resolve files.length) := by
  refine Ends.phasePasses hsignals options _ _ _ _ ?_ ?_ ?_
  · rw [List.length_map, List.length_zip, length_filterMap_eq hparse.parsed?, Nat.min_self]
  · rw [List.map_map]
    exact (Frontend.resolve_answers hparse _ _).trans (Frontend.passes_iff.1 hresolve)
  · rw [List.map_map]
    exact Frontend.resolve_answers hparse _ _

theorem ends_resolveFiles_error (h : frontend.FailsFirst files .resolve) :
    Ends (resolveFiles frontend signals options files (files.filterMap frontend.parsed?)
        (frontend.tableOf files))
      (.error (.phase Phase.resolve.label (frontend.issuesIn files .resolve)))
      (issueReports Phase.resolve.name (frontend.issuesIn files .resolve))
      (options.jobs .resolve files.length) := by
  have hparse := h.2 .parse (by decide)
  refine Ends.phaseFails hsignals options _ _ _ _ ?_ ?_ h.faultsIn_ne_nil
  · rw [List.length_map, List.length_zip, length_filterMap_eq hparse.parsed?, Nat.min_self]
  · rw [List.map_map]
    exact Frontend.resolve_answers hparse _ _

theorem ends_buildGraph (hparse : frontend.Passes files .parse)
    (hresolve : frontend.Passes files .resolve) (hedges : frontend.Passes files .edges) :
    Ends (buildGraph frontend signals options files
        (files.filterMap (frontend.tree? (frontend.tableOf files))))
      (.ok (frontend.graphOf files, frontend.baseOf files)) []
      (options.jobs .edges files.length) := by
  have htrees := hparse.tree? hresolve
  refine Ends.assoc (Ends.finish
    (a := files.filterMap (frontend.edges? (frontend.tableOf files))) ?_ ?_)
  · refine Ends.phasePasses hsignals options _ _ _ _ ?_ ?_ ?_
    · rw [List.length_map, length_filterMap_eq htrees]
    · rw [List.map_map]
      exact (Frontend.edges_answers _ _).trans (Frontend.passes_iff.1 hedges)
    · rw [List.map_map]
      exact Frontend.edges_answers _ _
  · have hbase : frontend.baseOf files = OutputSet.empty.putAll (((idsOf files).zip
        (files.filterMap (frontend.tree? (frontend.tableOf files)))).map fun p =>
          .direct p.1 p.2) := by
      rw [Frontend.baseOf, idsOf, List.zip_map_left, List.map_map, map_zip_filterMap htrees]
      rfl
    rw [Frontend.graphOf_eq (hparse.edges? hresolve hedges), hbase]
    exact (Ends.foldlM Ends.addDependencies _ _).finish ((Ends.step _ _ _ _).andThen (.pure _))

theorem ends_buildGraph_error (h : frontend.FailsFirst files .edges) :
    Ends (buildGraph frontend signals options files
        (files.filterMap (frontend.tree? (frontend.tableOf files))))
      (.error (.phase Phase.edges.label (frontend.issuesIn files .edges)))
      (issueReports Phase.edges.name (frontend.issuesIn files .edges))
      (options.jobs .edges files.length) := by
  have htrees := (h.2 .parse (by decide)).tree? (h.2 .resolve (by decide))
  refine Ends.assoc (Ends.bind_error ?_)
  refine Ends.phaseFails hsignals options _ _ _ _ ?_ ?_ h.faultsIn_ne_nil
  · rw [List.length_map, length_filterMap_eq htrees]
  · rw [List.map_map]
    exact Frontend.edges_answers _ _

end

theorem Ends.mergeCycles {components : List Component} {base : OutputSet Tree}
    {resolution : Cycle.Resolution Tree} (h : Cycle.resolve base components = .ok resolution) :
    Ends (Pipeline.mergeCycles components base) (.ok resolution) [] [] := by
  rw [Pipeline.mergeCycles, h]
  exact (Ends.forM (fun _ => .step _ _ _ _) _).andThen (.pure _)

theorem Ends.mergeCycles_error {components : List Component} {base : OutputSet Tree}
    {fault : Fault} (h : Cycle.resolve base components = .error fault) :
    Ends (Pipeline.mergeCycles components base)
      (.error (.phase "Cycle merge error" (fault.toIssues .cycleMerge)))
      (issueReports "cycles" (fault.toIssues .cycleMerge)) [] := by
  rw [Pipeline.mergeCycles, h]
  exact (Ends.forM (fun _ => .step _ _ _ _) _).andThen (.failure _ _ _)

end Pipeline
end ScriptWeave
