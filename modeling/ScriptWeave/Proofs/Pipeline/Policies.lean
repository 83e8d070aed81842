import ScriptWeave.Proofs.Pipeline.Registering
import ScriptWeave.Proofs.Pipeline.Schedule

/-!
The two policies for conflicting exports compared. Both see the same clashes in the same order,
which follow from the exports of the files alone. One warns about each and goes on with the last
symbol of every name; the other reports each as a fault, goes on registering, and then ends the run.
-/

namespace ScriptWeave

/-- Whether the report is of conflicting exports, as a fault or as a warning. -/
def Report.isConflict : Report → Bool
  | step event => event.phase = "symbols" && event.level = .warn
  | fault phase _ => phase = "symbols"

theorem Report.isConflict_of_phase {r : Report} (h : r.phase ≠ "symbols") :
    r.isConflict = false := by
  cases r with
  | step event => exact Bool.and_eq_false_iff.2 (.inl (decide_eq_false h))
  | fault phase fault => exact decide_eq_false h

namespace Pipeline

variable {Parsed Tree : Type}

namespace Frontend

variable (frontend : Frontend Parsed Tree) (files : List SourceFile)

/-- The exports of each file, in order. -/
def exported : List (ModuleId × List Export) :=
  files.map fun file => (.ofSource file.path, (frontend.exports? file).getD [])

def registrations : List Registration := Registration.ofFiles (frontend.exported files)

/-- The clashes among the exports of all files. -/
def clashes : List Clash := Clash.among (frontend.registrations files)

variable {frontend files}

/-- What the files are known to list, with the modules that they become. -/
theorem exported_eq : frontend.exported files =
    (files.map fun file =>
      (.ofSource file.path, (frontend.listed? file).getD [])).map defining := by
  rw [exported, List.map_map]
  refine List.map_congr_left fun file _ => ?_
  rw [exports?]
  cases h : frontend.listed? file with
  | none => simp [defining, ownExports, h]
  | some es => simp [defining, h]

theorem exports_exported : (frontend.exported files).flatMap (·.2) =
    (files.filterMap frontend.exports?).flatten := by
  rw [exported, List.flatMap_map]
  induction files with
  | nil => rfl
  | cons file files ih =>
      rw [List.flatMap_cons, ih, List.filterMap_cons]
      cases frontend.exports? file with
      | none => rfl
      | some es => rfl

/-- The table answers for what the files are known to list. -/
theorem records_registrations :
    (frontend.tableOf files).Records (frontend.registrations files) := by
  rw [tableOf, ← exports_exported, registrations, exported_eq, List.flatMap_map]
  exact (run_registerFiles .lastWins _ .empty).1

/-- Once the exports of all files are known, they are what the front end says of each file. -/
theorem zip_eq_exported {parsed : List Parsed} {exports : List (List Export)}
    (hparse : files.map frontend.parse = parsed.map .ok)
    (hexports : parsed.map frontend.exports = exports.map .ok) :
    ((idsOf files).zip exports).map defining = frontend.exported files := by
  induction files generalizing parsed exports with
  | nil => rfl
  | cons file files ih =>
      cases parsed with
      | nil => cases hparse
      | cons tree parsed =>
          obtain ⟨htree, hparse⟩ := List.cons.inj hparse
          cases exports with
          | nil => cases hexports
          | cons es exports =>
              obtain ⟨hes, hexports⟩ := List.cons.inj hexports
              have hknown : frontend.exports? file =
                  some (ownExports (.ofSource file.path, es)) := by
                have hlisted : (frontend.exports tree).toOption = some es :=
                  congrArg Except.toOption hes
                rw [exports?, listed?, parsed?, htree, Except.toOption, Option.bind_some, hlisted,
                  Option.map_some]
              have hrest := ih hparse hexports
              rw [exported, List.map_cons, hknown, ← exported, ← hrest]
              rfl

theorem keys_registrations : (frontend.registrations files).map (·.key) =
    (files.filterMap frontend.exports?).flatten.filterMap Export.key? := by
  rw [← exports_exported, registrations, Registration.ofFiles, List.map_flatMap,
    List.filterMap_flatMap]
  refine congrArg (List.flatMap · _) (funext fun file => ?_)
  rw [List.map_filterMap]
  refine congrArg (List.filterMap · _) (funext fun e => ?_)
  cases e with
  | package name => rfl
  | symbol package symbol => rfl

/-- Without clashes nothing meets a symbol of its package and name. -/
theorem unclashing_of_clashes (h : frontend.clashes files = []) :
    SymbolTable.empty.Unclashing (files.filterMap frontend.exports?).flatten := by
  apply SymbolTable.unclashing_of_nodup
  rw [← keys_registrations]
  exact (Clash.among_eq_nil_iff _).1 h

end Frontend

/-- The conversion gets to the point where the exports of all files are known. -/
def Registers (frontend : Frontend Parsed Tree) (signals : Signals) (options : Options)
    (files : List SourceFile) : Prop :=
  ∃ known j, (untilExports frontend signals options files).run .empty = (.ok known, j)

section

variable {frontend : Frontend Parsed Tree} {signals : Signals} {options : Options}
  {files : List SourceFile} {known : List Parsed × List (List Export)} {j : Journal}
  (h : (untilExports frontend signals options files).run .empty = (.ok known, j))
include h

theorem zip_of_untilExports :
    ((idsOf files).zip known.2).map defining = frontend.exported files := by
  obtain ⟨_, _, _, h⟩ := run_bind_eq_ok h
  obtain ⟨parsed, _, hparse, h⟩ := run_bind_eq_ok h
  obtain ⟨exports, _, hlist, h⟩ := run_bind_eq_ok h
  cases h
  obtain ⟨results, next, heach, hcollect⟩ := run_bind_eq_ok hlist
  refine Frontend.zip_eq_exported (yields_parseFiles ⟨_, _, hparse⟩) ?_
  rw [← yields_collect ⟨_, _, hcollect⟩, yields_each options.order_perm ⟨_, _, heach⟩, List.map_map]
  rfl

theorem conflicts_of_untilExports : j.reports.filter (·.isConflict) = [] := by
  obtain ⟨_, start, hannounce, h⟩ := run_bind_eq_ok h
  obtain ⟨parsed, next, hparse, h⟩ := run_bind_eq_ok h
  obtain ⟨exports, _, hlist, h⟩ := run_bind_eq_ok h
  cases h
  have hphase : ∀ r : Report, r.phase = "parse" → r.isConflict = false := by
    intro r hr
    exact r.isConflict_of_phase (hr ▸ by decide)
  have hannounced : Keeps (·.isConflict = false) (fun _ => True) (announce options files) :=
    .tell (hphase _ rfl)
  have hparsed : Keeps (·.isConflict = false) (fun _ => True)
      (parseFiles frontend signals options files) :=
    .parseFiles trivial hphase fun _ => trivial
  have hstart := hannounced.filter_reports .empty
  rw [hannounce] at hstart
  have hnext := hparsed.filter_reports start
  rw [hparse] at hnext
  rw [reports_of_listExports hlist]
  exact hnext.trans hstart

/-- The table of a conversion, or its end by clashes. -/
theorem run_untilTable : (untilTable frontend signals options files).run .empty =
    if options.policy.held (frontend.clashes files) = [] then
      (.ok (known.1, frontend.tableOf files), j.telling
        ((frontend.clashes files).map options.policy.report ++
            [tableReport (frontend.tableOf files)]))
    else (.error (.phase "Export conflict" (options.policy.held (frontend.clashes files))),
      j.telling ((frontend.clashes files).map options.policy.report)) := by
  obtain ⟨_, hrun⟩ := run_registerFiles options.policy ((idsOf files).zip known.2) j
  have hown : ((idsOf files).zip known.2).flatMap ownExports =
      (((idsOf files).zip known.2).map defining).flatMap (·.2) := by
    rw [List.flatMap_map]
    rfl
  rw [hown, zip_of_untilExports h, Frontend.exports_exported, ← Frontend.tableOf] at hrun
  rw [untilTable, run_bind_ok h]
  dsimp only
  split
  · next hheld =>
      rw [run_bind_ok (hrun.trans (if_pos hheld))]
      rfl
  · next hheld =>
      rw [run_bind_error (hrun.trans (if_neg hheld))]
      rfl

end

theorem run_of_untilTable {frontend : Frontend Parsed Tree} {signals : Signals} {options : Options}
    {files : List SourceFile} {known : List Parsed × SymbolTable} {j : Journal}
    (h : (untilTable frontend signals options files).run .empty = (.ok known, j)) :
    run frontend signals options files =
      (afterTable frontend signals options files known.1 known.2).run j := by
  rw [run, convert_eq, run_bind_ok h]

theorem table_of_afterTable {frontend : Frontend Parsed Tree} {signals : Signals}
    {options : Options} {files : List SourceFile} {parsed : List Parsed} {table : SymbolTable}
    {result : Result Tree}
    (h : Yields (afterTable frontend signals options files parsed table) result) :
    result.table = table := by
  obtain ⟨trees, _, h⟩ := yields_bind h
  obtain ⟨built, _, h⟩ := yields_bind h
  obtain ⟨resolution, _, h⟩ := yields_bind h
  obtain ⟨_, _, h⟩ := yields_bind h
  obtain ⟨_, _, h⟩ := h
  cases h
  rfl

/-- The outcome is a fault of the phase that makes the table. -/
def FailsInSymbols (outcome : Except Fault (Result Tree)) : Prop :=
  ∃ label ∈ ["Export error", "Export conflict"], ∃ issues, outcome = .error (.phase label issues)

section

variable {frontend : Frontend Parsed Tree} {signals : Signals} {options : Options}
  {files : List SourceFile}

/-- The phases after the table do not report conflicts, and fail under labels of their own. -/
theorem keeps_afterTable (parsed : List Parsed) (table : SymbolTable) :
    Keeps (·.isConflict = false)
      (fun fault => ¬ FailsInSymbols (.error fault : Except Fault (Result Tree)))
      (afterTable frontend signals options files parsed table) := by
  refine .afterTable ?_ ?_ ?_ parsed table
  · rintro ⟨label, _, issues, heq⟩
    cases heq
  · intro r hr
    apply Report.isConflict_of_phase
    obtain hr | hr | hr := hr
    · exact hr ▸ by decide
    · exact hr ▸ by decide
    · exact hr ▸ by decide
  · rintro label hlabel issues ⟨label', hlabel', issues', heq⟩
    cases heq
    revert label
    decide

variable (h : Registers frontend signals options files)
include h

/-- A conversion reports its clashes in order, as its policy does, and no other conflicts. -/
theorem conflicts_of_registers :
    (run frontend signals options files).2.reports.filter (·.isConflict) =
    (frontend.clashes files).map options.policy.report := by
  obtain ⟨known, j, h⟩ := h
  have hbefore := conflicts_of_untilExports h
  have hclashes : ((frontend.clashes files).map options.policy.report).filter (·.isConflict) =
      (frontend.clashes files).map options.policy.report := by
    apply List.filter_eq_self.2
    intro r hr
    obtain ⟨c, _, rfl⟩ := List.mem_map.1 hr
    cases options.policy <;> rfl
  have htable := run_untilTable h
  split at htable
  · have hlast : [tableReport (frontend.tableOf files)].filter (·.isConflict) = [] := rfl
    rw [run_of_untilTable htable, (keeps_afterTable _ _).filter_reports, Journal.telling,
      List.filter_append, List.filter_append, hbefore, hclashes, hlast, List.append_nil,
      List.nil_append]
  · rw [run, convert_eq, run_bind_error htable, Journal.telling, List.filter_append, hbefore,
      hclashes, List.nil_append]

/-- Clashes that the policy holds against a conversion end it. -/
theorem outcome_of_held (hheld : options.policy.held (frontend.clashes files) ≠ []) :
    (run frontend signals options files).1 =
      .error (.phase "Export conflict" (options.policy.held (frontend.clashes files))) := by
  obtain ⟨known, j, h⟩ := h
  have htable := run_untilTable h
  rw [if_neg hheld] at htable
  rw [run, convert_eq, run_bind_error htable]

/-- Otherwise the conversion gets past its table. -/
theorem exists_untilTable (hheld : options.policy.held (frontend.clashes files) = []) :
    ∃ parsed j, (untilTable frontend signals options files).run .empty =
      (.ok (parsed, frontend.tableOf files), j) := by
  obtain ⟨known, j, h⟩ := h
  have htable := run_untilTable h
  rw [if_pos hheld] at htable
  exact ⟨_, _, htable⟩

/-- A result holds the table that the conversion has gone on with. -/
theorem table_of_run {result : Result Tree}
    (hrun : (run frontend signals options files).1 = .ok result) :
    result.table = frontend.tableOf files := by
  by_cases hheld : options.policy.held (frontend.clashes files) = []
  · obtain ⟨parsed, j, htable⟩ := exists_untilTable h hheld
    rw [run_of_untilTable htable] at hrun
    exact table_of_afterTable ⟨j, _, Prod.ext hrun rfl⟩
  · rw [outcome_of_held h hheld] at hrun
    cases hrun

theorem failsInSymbols_iff : FailsInSymbols (run frontend signals options files).1 ↔
    options.policy.held (frontend.clashes files) ≠ [] := by
  constructor
  · intro hfails hheld
    obtain ⟨parsed, j, htable⟩ := exists_untilTable h hheld
    obtain ⟨_, _, issues, heq⟩ := id hfails
    rw [run_of_untilTable htable] at hfails heq
    rw [heq] at hfails
    exact (keeps_afterTable parsed _ j).2 _ heq hfails
  · intro hheld
    exact ⟨"Export conflict", by decide, _, outcome_of_held h hheld⟩

end

/-- How the runs of one conversion end under the two policies. -/
structure PoliciesAgree (clashes : List Clash)
    (strict lenient : Except Fault (Result Tree) × Journal) : Prop where
  /-- The strict run fails for its exports exactly if the lenient one warns about some. -/
  fails_iff : FailsInSymbols strict.1 ↔
    ∃ event, .step event ∈ lenient.2.reports ∧ (Report.step event).isConflict = true
  /-- The faults of the one and the warnings of the other are about the same clashes in order. -/
  faults : strict.2.reports.filter (·.isConflict) = clashes.map Clash.fault
  warnings : lenient.2.reports.filter (·.isConflict) = clashes.map Clash.warning
  /-- The strict run ends with all of them. -/
  ends : clashes ≠ [] → strict.1 = .error (.phase "Export conflict" (clashes.map Clash.issue))

theorem policiesAgree_of_registers {frontend : Frontend Parsed Tree} {files : List SourceFile}
    {signals signals' : Signals} {strict lenient : Options} (hstrict : strict.policy = .fail)
    (hlenient : lenient.policy = .lastWins) (h : Registers frontend signals strict files)
    (h' : Registers frontend signals' lenient files) :
    PoliciesAgree (frontend.clashes files) (run frontend signals strict files)
      (run frontend signals' lenient files) := by
  have hfaults := conflicts_of_registers h
  have hfails := failsInSymbols_iff h
  have hends := outcome_of_held h
  rw [hstrict] at hfaults hfails hends
  have hwarnings : (run frontend signals' lenient files).2.reports.filter (·.isConflict) =
      (frontend.clashes files).map Clash.warning := by
    rw [conflicts_of_registers h', hlenient]
    rfl
  have hheld : ConflictPolicy.fail.held (frontend.clashes files) ≠ [] ↔
      frontend.clashes files ≠ [] :=
    not_congr List.map_eq_nil_iff
  refine ⟨?_, hfaults, hwarnings, fun hclashes => hends (hheld.2 hclashes)⟩
  rw [hfails, hheld]
  constructor
  · intro hclashes
    obtain ⟨c, hc⟩ := List.exists_mem_of_ne_nil _ hclashes
    have hmem : c.warning ∈ (frontend.clashes files).map Clash.warning := List.mem_map_of_mem hc
    rw [← hwarnings] at hmem
    exact ⟨_, List.mem_filter.1 hmem⟩
  · rintro ⟨event, hevent⟩ hclashes
    have hmem := List.mem_filter.2 hevent
    rw [hwarnings, hclashes] at hmem
    cases hmem

/-- Where nothing clashes, the policy makes no difference to a conversion; nor does it where the
conversion does not get to its registrations. -/
theorem run_eq_of_policies {frontend : Frontend Parsed Tree} {files : List SourceFile}
    {signals : Signals} {options options' : Options} (horder : options.order = options'.order)
    (hrunId : options.runId = options'.runId)
    (h : frontend.clashes files = [] ∨ ¬ Registers frontend signals options files) :
    run frontend signals options files = run frontend signals options' files := by
  obtain ⟨policy, runId, order, hperm⟩ := options
  obtain ⟨policy', runId', order', hperm'⟩ := options'
  cases horder
  cases hrunId
  rw [run, run, convert_eq, convert_eq]
  rcases hrun : (untilExports frontend signals ⟨policy, runId, order, hperm⟩ files).run .empty with
    ⟨fault | known, j⟩
  · have hrun' : (untilExports frontend signals ⟨policy', runId, order, hperm'⟩ files).run .empty =
      (.error fault, j) := hrun
    have htable : (untilTable frontend signals ⟨policy, runId, order, hperm⟩ files).run .empty =
      (.error fault, j) := run_bind_error hrun
    have htable' : (untilTable frontend signals ⟨policy', runId, order, hperm'⟩ files).run .empty =
      (.error fault, j) := run_bind_error hrun'
    rw [run_bind_error htable, run_bind_error htable']
  · have hclashes := h.resolve_right fun hnot => hnot ⟨_, _, hrun⟩
    have hrun' : (untilExports frontend signals ⟨policy', runId, order, hperm'⟩ files).run .empty =
      (.ok known, j) := hrun
    have htable := run_untilTable hrun
    have htable' := run_untilTable hrun'
    rw [hclashes, if_pos (ConflictPolicy.held_nil _)] at htable htable'
    rw [run_bind_ok htable, run_bind_ok htable']
    rfl

/-- Without clashes every undisturbed conversion ends as its front end says, under either policy. -/
theorem outcome_eq_of_unclashing {frontend : Frontend Parsed Tree} {files : List SourceFile}
    {signals signals' : Signals} (hsignals : signals.Undisturbed) (hsignals' : signals'.Undisturbed)
    {options options' : Options} (hrunId : options.runId = options'.runId)
    (h : frontend.clashes files = []) : (run frontend signals options files).1 =
      (run frontend signals' options' files).1 := by
  have hunclashing := Frontend.unclashing_of_clashes h
  by_cases hpasses : ∀ phase, frontend.Passes files phase
  · rw [outcome_of_passes hsignals options (.inr hunclashing) hpasses,
      outcome_of_passes hsignals' options' (.inr hunclashing) hpasses, hrunId]
  · obtain ⟨phase, hfirst⟩ := frontend.exists_failsFirst (not_forall.1 hpasses)
    rw [(stoppedBy_of_failsFirst hsignals options (.inr hunclashing) hfirst).outcome,
      (stoppedBy_of_failsFirst hsignals' options' (.inr hunclashing) hfirst).outcome]

/-- The two policies agree. Of two conversions of the same files that get to their registrations,
the strict one fails for its exports exactly if the lenient one warns; its faults and the other's
warnings are about the same clashes, one for each export that meets an earlier one, with the last
exporter before it. The lenient run goes on with a table that has the last symbol of each name in
the place of the first one. Without clashes both come to the same. -/
theorem policies_agree (frontend : Frontend Parsed Tree) (files : List SourceFile)
    {signals signals' : Signals} {strict lenient : Options} (hstrict : strict.policy = .fail)
    (hlenient : lenient.policy = .lastWins) :
    (Registers frontend signals strict files → Registers frontend signals' lenient files →
      PoliciesAgree (frontend.clashes files) (run frontend signals strict files)
          (run frontend signals' lenient files) ∧
        (∃ parsed j, (untilTable frontend signals' lenient files).run .empty =
          (.ok (parsed, frontend.tableOf files), j)) ∧
        ∀ result, (run frontend signals' lenient files).1 = .ok result →
          result.table = frontend.tableOf files) ∧
      (frontend.tableOf files).Records (frontend.registrations files) ∧
      (∀ r ∈ frontend.registrations files, r.symbol.exportPath = r.exporter) ∧
      (strict.runId = lenient.runId →
        (frontend.clashes files = [] → signals.Undisturbed → signals'.Undisturbed →
          (run frontend signals strict files).1 = (run frontend signals' lenient files).1) ∧
        (frontend.clashes files = [] ∨ ¬ Registers frontend signals strict files →
          signals = signals' → strict.order = lenient.order →
            run frontend signals strict files = run frontend signals' lenient files)) := by
  refine ⟨?_, ?_, ?_, ?_⟩
  · intro h h'
    refine ⟨policiesAgree_of_registers hstrict hlenient h h', exists_untilTable h' ?_,
      fun _ => table_of_run h'⟩
    rw [hlenient, ConflictPolicy.held]
  · exact Frontend.records_registrations
  · intro r hr
    rw [Frontend.registrations, Frontend.exported_eq] at hr
    exact exportPath_of_mem_ofFiles hr
  · intro hrunId
    refine ⟨fun h hsignals hsignals' => outcome_eq_of_unclashing hsignals hsignals' hrunId h, ?_⟩
    rintro h rfl horder
    exact run_eq_of_policies horder hrunId h

/-- Two files that export one name, the second one twice. -/
def clashingScript : List ScriptedFile :=
  [⟨"a.as", none, [("p", some "first"), ("p", some "dup")], none, [], none, [], none⟩,
    ⟨"b.as", none, [("p", some "dup"), ("p", some "last"), ("p", some "dup")], none, [], none,
      [], none⟩]

def clashingFiles : List SourceFile := [⟨"a.as", ""⟩, ⟨"b.as", ""⟩]

theorem policies_agree_clashing :
    Registers (.scripted clashingScript) .quiet (.sequential .fail) clashingFiles ∧
      Registers (.scripted clashingScript) .quiet .backwards clashingFiles ∧
      (Frontend.scripted clashingScript).clashes clashingFiles =
        [⟨"p", "dup", ⟨"a.js"⟩, ⟨"b.js"⟩⟩, ⟨"p", "dup", ⟨"b.js"⟩, ⟨"b.js"⟩⟩] ∧
      Registration.names ((Frontend.scripted clashingScript).registrations clashingFiles) "p" =
        ["first", "dup", "last"] ∧
      PoliciesAgree ((Frontend.scripted clashingScript).clashes clashingFiles)
        (run (.scripted clashingScript) .quiet (.sequential .fail) clashingFiles)
        (run (.scripted clashingScript) .quiet .backwards clashingFiles) ∧
      ((Frontend.scripted clashingScript).tableOf clashingFiles).Records
        ((Frontend.scripted clashingScript).registrations clashingFiles) := by
  have hstrict : Registers (.scripted clashingScript) .quiet (.sequential .fail) clashingFiles :=
    ⟨_, _, rfl⟩
  have hlenient : Registers (.scripted clashingScript) .quiet .backwards clashingFiles :=
    ⟨_, _, rfl⟩
  obtain ⟨hagree, hrecords, _⟩ := @policies_agree _ _ (.scripted clashingScript)
    clashingFiles .quiet .quiet (.sequential .fail) .backwards rfl rfl
  exact ⟨hstrict, hlenient, by decide, by decide,
    (hagree hstrict hlenient).1, hrecords⟩

end Pipeline
end ScriptWeave
