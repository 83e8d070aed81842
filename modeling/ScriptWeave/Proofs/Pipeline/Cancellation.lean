import ScriptWeave.Proofs.Pipeline.Policies

/-!
Cancellation is all or nothing. Each phase with jobs ends by looking whether the run has been
cancelled, and looks nowhere else but before each job; what lies between those phases either reports
no faults or fails. So a run that is cancelled before its last such phase has ended, and before any
fault, fails for that reason, and every other run is the one that nobody cancels.
-/

namespace ScriptWeave
namespace Pipeline

variable {α β Parsed Tree : Type}

/-- The same signals when nobody cancels. -/
def Signals.uncancelled (signals : Signals) : Signals :=
  { signals with cancelled := fun _ => false }

/-- Once cancelled, a run stays so. -/
def Signals.Lasting (signals : Signals) : Prop :=
  ∀ reports more, signals.cancelled reports = true → signals.cancelled (reports ++ more) = true

/-- The reports before the first fault. -/
def untroubled (reports : List Report) : List Report := reports.takeWhile fun r => !r.isFault

theorem untroubled_append {reports : List Report} (h : reports.filter (·.isFault) = [])
    (more : List Report) : untroubled (reports ++ more) = reports ++ untroubled more := by
  have hnone := List.filter_eq_nil_iff.1 h
  exact List.takeWhile_append_of_pos fun r hr => by simpa using hnone r hr

theorem untroubled_of_faults {reports : List Report} (h : ∀ r ∈ reports, r.isFault = true) :
    untroubled reports = [] := by
  cases reports with
  | nil => rfl
  | cons r reports => exact List.takeWhile_cons_of_neg (by simp [h r List.mem_cons_self])

section

variable {signals : Signals} (hlasting : signals.Lasting)
include hlasting

theorem Signals.Lasting.not_cancelled {reports more : List Report}
    (h : signals.cancelled (reports ++ more) = false) : signals.cancelled reports = false := by
  rw [← Bool.not_eq_true] at h ⊢
  exact fun hcancelled => h (hlasting _ _ hcancelled)

/-- Jobs are all performed, or the run is cancelled when they end. -/
theorem perform_uncancelled (phase : String) (jobs : List (Job α)) (order : List Nat)
    (j : Journal) :
    let calm := perform signals.uncancelled phase jobs order j
    (signals.cancelled calm.2.reports = false → perform signals phase jobs order j = calm) ∧
      (signals.cancelled calm.2.reports = true →
        signals.cancelled (perform signals phase jobs order j).2.reports = true) := by
  induction order generalizing j with
  | nil => exact ⟨fun _ => rfl, id⟩
  | cons i order ih =>
      obtain ⟨new, hnew, _⟩ := Keeps.perform signals.uncancelled phase jobs (i :: order) j
      dsimp only at ih ⊢
      cases hcancelled : signals.cancelled j.reports with
      | true =>
          refine ⟨?_, ?_⟩
          · intro h
            rw [hnew] at h
            rw [hlasting.not_cancelled h] at hcancelled
            cases hcancelled
          · intro _
            rw [perform, hcancelled]
            exact hcancelled
      | false =>
          have hcalm : signals.uncancelled.cancelled j.reports = false := rfl
          rw [perform, perform, hcancelled, hcalm]
          cases hjob : jobs[i]? with
          | none => exact ih j
          | some job =>
              obtain ⟨hsame, hstays⟩ := ih (job.start phase i j)
              simp only [Bool.false_eq_true, if_false]
              exact ⟨fun h => by rw [hsame h], hstays⟩

/-- A phase with jobs ends well if nobody cancels. If somebody has done so by then, it fails for
that reason, and otherwise it is the same. -/
theorem run_each_uncancelled (order : String → Nat → List Nat) (phase : String)
    (jobs : List (Job α)) (j : Journal) : ∃ results next,
      (each signals.uncancelled order phase jobs).run j = (.ok results, next) ∧
        (signals.cancelled next.reports = false →
          (each signals order phase jobs).run j = (.ok results, next)) ∧
        (signals.cancelled next.reports = true →
          ∃ next', (each signals order phase jobs).run j = (.error cancelledFault, next')) := by
  obtain ⟨hsame, hstays⟩ :=
    perform_uncancelled hlasting phase jobs (order phase jobs.length) j
  rw [run_each, run_each]
  rcases hcalm : perform signals.uncancelled phase jobs (order phase jobs.length) j with
    ⟨done, next⟩
  rw [hcalm] at hsame hstays
  refine ⟨_, next, rfl, ?_, ?_⟩
  · intro h
    rw [hsame h]
    exact if_neg (Bool.not_eq_true _ ▸ h)
  · intro h
    exact ⟨_, if_pos (hstays h)⟩

end

/-- Nothing has failed so far. -/
def Faultless (j : Journal) : Prop := j.faults = []

/-- Nothing has failed so far, and nobody has cancelled. -/
structure Going (signals : Signals) (j : Journal) : Prop where
  faultless : Faultless j
  uncancelled : signals.cancelled j.reports = false

/-- From certain journals the stage `x` fails for its cancellation, if there is one before any fault
of the stage `y`, which nobody cancels; otherwise it is that stage. -/
structure Stops (signals : Signals) (start : Journal → Prop) (x y : Run α) : Prop where
  grows : Keeps (fun _ => True) (fun _ => True) y
  cancelled : ∀ j, start j → signals.cancelled (untroubled (y.run j).2.reports) = true →
    ∃ j', x.run j = (.error cancelledFault, j')
  same : ∀ j, start j → signals.cancelled (untroubled (y.run j).2.reports) = false →
    x.run j = y.run j

section

variable {signals : Signals}

theorem Going.untroubled {j j' : Journal} (h : Going signals j) {new : List Report}
    (hnew : j'.reports = j.reports ++ new) (hfaults : ∀ r ∈ new, r.isFault = true) :
    signals.cancelled (untroubled j'.reports) = false := by
  rw [hnew, untroubled_append h.faultless, untroubled_of_faults hfaults, List.append_nil]
  exact h.uncancelled

theorem Stops.later {x y : Run α} (h : Stops signals Faultless x y) :
    Stops signals (Going signals) x y :=
  ⟨h.grows, fun j hj => h.cancelled j hj.faultless, fun j hj => h.same j hj.faultless⟩

theorem Stops.pure (a : α) : Stops signals (Going signals) (Pure.pure a) (Pure.pure a) where
  grows := .pure a
  cancelled j hj h := by
    have hnone := hj.untroubled (List.append_nil j.reports).symm fun _ hr =>
      absurd hr List.not_mem_nil
    change signals.cancelled (Pipeline.untroubled j.reports) = true at h
    rw [hnone] at h
    cases h
  same _ _ _ := rfl

/-- A part between two phases with jobs fails, if it does, while the run is not cancelled. -/
theorem Stops.bind {start : Journal → Prop} (start' : Journal → Prop) {z : Run α} {f g : α → Run β}
    (hgrows : Keeps (fun _ => True) (fun _ => True) z)
    (hok : ∀ j a j', start j → z.run j = (.ok a, j') → start' j')
    (herror : ∀ j fault j', start j → z.run j = (.error fault, j') →
      signals.cancelled (untroubled j'.reports) = false)
    (h : ∀ a, Yields z a → Stops signals start' (f a) (g a)) :
    Stops signals start (z >>= f) (z >>= g) where
  grows := hgrows.bind fun a ha => (h a ha).grows
  cancelled j hj hcancelled := by
    rcases hrun : z.run j with ⟨fault | a, next⟩
    · rw [run_bind_error hrun, herror j fault next hj hrun] at hcancelled
      cases hcancelled
    · rw [run_bind_ok hrun] at hcancelled
      obtain ⟨j', hj'⟩ := (h a ⟨j, next, hrun⟩).cancelled next (hok j a next hj hrun) hcancelled
      exact ⟨j', (run_bind_ok hrun).trans hj'⟩
  same j hj hgoing := by
    rcases hrun : z.run j with ⟨fault | a, next⟩
    · rw [run_bind_error hrun, run_bind_error hrun]
    · rw [run_bind_ok hrun] at hgoing
      rw [run_bind_ok hrun, run_bind_ok hrun]
      exact (h a ⟨j, next, hrun⟩).same next (hok j a next hj hrun) hgoing

/-- A phase with jobs ends only if the run is not cancelled. -/
theorem Stops.each (hlasting : signals.Lasting) {order : String → Nat → List Nat} {phase : String}
    {jobs : List (Job α)} {f g : List (Except Fault α) → Run β}
    (h : ∀ results, Yields (each signals.uncancelled order phase jobs) results →
      Stops signals (Going signals) (f results) (g results)) :
    Stops signals Faultless (each signals order phase jobs >>= f)
      (each signals.uncancelled order phase jobs >>= g) := by
  have hsteps : Keeps (·.isFault = false) (fun _ => True)
      (Pipeline.each signals.uncancelled order phase jobs) :=
    .each trivial fun _ _ _ _ => rfl
  have hnext {j next : Journal} {results : List (Except Fault α)} (hj : Faultless j)
      (hrun : (Pipeline.each signals.uncancelled order phase jobs).run j = (.ok results, next)) :
      Faultless next := by
    have hsame := hsteps.filter_reports j
    rw [hrun] at hsame
    exact hsame.trans hj
  have hends {j next : Journal} {results : List (Except Fault α)} (hj : Faultless j)
      (hrun : (Pipeline.each signals.uncancelled order phase jobs).run j = (.ok results, next)) :
      ∃ more, untroubled ((g results).run next).2.reports = next.reports ++ more := by
    obtain ⟨⟨more, hmore, _⟩, _⟩ := (h results ⟨j, next, hrun⟩).grows next
    exact ⟨_, by rw [hmore, untroubled_append (hnext hj hrun)]⟩
  refine ⟨?_, ?_, ?_⟩
  · exact (Keeps.each trivial fun _ _ _ _ => trivial).bind fun results hresults =>
      (h results hresults).grows
  · intro j hj hcancelled
    obtain ⟨results, next, hrun, hsame, hstops⟩ := run_each_uncancelled hlasting order phase jobs j
    cases hby : signals.cancelled next.reports with
    | true =>
        obtain ⟨next', hstopped⟩ := hstops hby
        exact ⟨next', run_bind_error hstopped⟩
    | false =>
        rw [run_bind_ok hrun] at hcancelled
        rw [run_bind_ok (hsame hby)]
        exact (h results ⟨j, next, hrun⟩).cancelled next ⟨hnext hj hrun, hby⟩ hcancelled
  · intro j hj hgoing
    obtain ⟨results, next, hrun, hsame, _⟩ := run_each_uncancelled hlasting order phase jobs j
    rw [run_bind_ok hrun] at hgoing
    obtain ⟨more, hmore⟩ := hends hj hrun
    have hby : signals.cancelled next.reports = false := hlasting.not_cancelled (hmore ▸ hgoing)
    rw [run_bind_ok hrun, run_bind_ok (hsame hby)]
    exact (h results ⟨j, next, hrun⟩).same next ⟨hnext hj hrun, hby⟩ hgoing

/-- Collecting the results of a phase reports faults if it fails, and else nothing. -/
theorem Stops.collect {asks : Bool} {phase label : String} {code : FaultCode}
    {results : List (Except Fault α)} {f g : List α → Run β}
    (h : ∀ values, results = values.map .ok → Stops signals (Going signals) (f values) (g values)) :
    Stops signals (Going signals) (collect signals asks phase label code results >>= f)
      (collect signals.uncancelled asks phase label code results >>= g) := by
  have hfaults : Keeps (·.isFault = true) (fun _ => True)
      (Pipeline.collect signals asks phase label code results) :=
    .collect (fun _ => rfl) fun _ => trivial
  refine .bind (Going signals) (.collect (fun _ => trivial) fun _ => trivial) ?_ ?_ ?_
  · intro j values j' hj hrun
    have hreports := reports_of_collect hrun
    refine ⟨?_, hreports ▸ hj.uncancelled⟩
    rw [Faultless, Journal.faults, hreports]
    exact hj.faultless
  · intro j fault j' hj hrun
    obtain ⟨⟨new, hnew, hall⟩, _⟩ := hfaults j
    rw [hrun] at hnew
    exact hj.untroubled hnew hall
  · exact fun values hvalues => h values (yields_collect hvalues)

/-- Registering exports reports faults if it fails, and else none. -/
theorem Stops.registerFiles {policy : ConflictPolicy} {files : List (ModuleId × List Export)}
    {f g : SymbolTable → Run β}
    (h : ∀ table, Stops signals Faultless (f table) (g table)) :
    Stops signals (Going signals) (registerFiles policy files >>= f)
      (registerFiles policy files >>= g) := by
  refine .bind Faultless (.registerFiles (fun _ _ => trivial) (fun _ => trivial) _ _) ?_ ?_
    fun table _ => h table
  · intro j table j' hj hrun
    rw [(run_registerFiles policy files j).2] at hrun
    split at hrun
    · next hheld =>
        cases hrun
        have hclashes : ((Clash.among (Registration.ofFiles (files.map defining))).map
            policy.report).filter (·.isFault) = [] := by
          cases policy with
          | fail => rw [List.map_eq_nil_iff.1 hheld]; rfl
          | lastWins => simp [ConflictPolicy.report, Clash.warning, Report.isFault]
        have hlast : [tableReport (SymbolTable.empty.registerAll
            (files.flatMap ownExports))].filter (·.isFault) = [] := rfl
        rw [Faultless, Journal.faults, Journal.telling, List.filter_append, List.filter_append,
          hclashes, hlast, List.append_nil, List.append_nil]
        exact hj.faultless
    · cases hrun
  · intro j fault j' hj hrun
    rw [(run_registerFiles policy files j).2] at hrun
    split at hrun
    · cases hrun
    · next hheld =>
        cases hrun
        refine hj.untroubled rfl ?_
        intro r hr
        obtain ⟨c, _, rfl⟩ := List.mem_map.1 hr
        cases policy with
        | fail => rfl
        | lastWins => exact absurd rfl hheld

theorem Stops.announce {options : Options} {files : List SourceFile} {f g : Unit → Run β}
    (h : Stops signals Faultless (f ()) (g ())) :
    Stops signals Faultless (announce options files >>= f) (announce options files >>= g) := by
  refine .bind Faultless (.tell trivial) ?_ ?_ fun _ _ => h
  · intro j _ j' hj hrun
    cases hrun
    rw [Faultless, Journal.faults, List.filter_append, ← Journal.faults, hj]
    rfl
  · intro j fault j' _ hrun
    cases hrun

/-- The stage of a conversion up to its last phase with jobs. -/
theorem stops_untilEdges (hlasting : signals.Lasting) (frontend : Frontend Parsed Tree)
    (options : Options) (files : List SourceFile) :
    Stops signals Faultless (untilEdges frontend signals options files)
      (untilEdges frontend signals.uncancelled options files) := by
  simp only [untilEdges, untilTable, untilExports, parseFiles, listExports, resolveFiles, askEdges,
    bind_assoc, pure_bind]
  refine .announce <| .each hlasting fun _ _ => .collect fun parsed _ => .later ?_
  refine .each hlasting fun _ _ => .collect fun exports _ => ?_
  refine .registerFiles fun table => ?_
  refine .each hlasting fun _ _ => .collect fun trees _ => .later <| .each hlasting fun _ _ => ?_
  exact .pure _

end

/-- There is a moment at which the run is cancelled: the reports made by then hold no fault. -/
def CancelledAmong (signals : Signals) (reports : List Report) : Prop :=
  ∃ n ≤ reports.length, signals.cancelled (reports.take n) = true ∧
    ∀ r ∈ reports.take n, r.isFault = false

theorem cancelledAmong_iff {signals : Signals} (hlasting : signals.Lasting)
    (reports : List Report) :
    CancelledAmong signals reports ↔ signals.cancelled (untroubled reports) = true := by
  constructor
  · rintro ⟨n, _, hcancelled, hsteps⟩
    have hfaultless : (reports.take n).filter (·.isFault) = [] :=
      List.filter_eq_nil_iff.2 fun r hr => by rw [hsteps r hr]; exact Bool.false_ne_true
    rw [← List.take_append_drop n reports, untroubled_append hfaultless]
    exact hlasting _ _ hcancelled
  · intro hcancelled
    have hprefix : untroubled reports <+: reports := List.takeWhile_prefix _
    have htake := List.prefix_iff_eq_take.1 hprefix
    refine ⟨(untroubled reports).length, hprefix.length_le, htake ▸ hcancelled, ?_⟩
    rw [← htake]
    intro r hr
    simpa using List.all_eq_true.1 List.all_takeWhile r hr

/-- A conversion is cancelled or not; nothing else can come of a cancellation. Up to the end of the
last phase with jobs, the one that asks for dependencies, and before any phase has failed, the
conversion fails for the cancellation, whatever jobs of the current phase have failed. From then on
a cancellation makes no difference at all. -/
theorem cancelled_or_unaffected (frontend : Frontend Parsed Tree) {signals : Signals}
    (hlasting : signals.Lasting) (options : Options) (files : List SourceFile) :
    let early := ((untilEdges frontend signals.uncancelled options files).run .empty).2.reports
    (CancelledAmong signals early →
        (run frontend signals options files).1 = .error cancelledFault) ∧
      (¬ CancelledAmong signals early →
        run frontend signals options files = run frontend signals.uncancelled options files) := by
  have hstops := stops_untilEdges hlasting frontend options files
  dsimp only
  rw [cancelledAmong_iff hlasting, run, run, convert_eq_untilEdges, convert_eq_untilEdges]
  constructor
  · intro h
    obtain ⟨j, hrun⟩ := hstops.cancelled .empty rfl h
    rw [run_bind_error hrun]
  · intro h
    have hsame := hstops.same .empty rfl (Bool.eq_false_iff.2 h)
    rcases hrun : (untilEdges frontend signals.uncancelled options files).run .empty with
      ⟨fault | known, j⟩
    · rw [hrun] at hsame
      rw [run_bind_error hrun, run_bind_error hsame]
    · rw [hrun] at hsame
      rw [run_bind_ok hrun, run_bind_ok hsame]
      rfl

/-- Signals of a run that is cancelled when a step with the given message is reported. -/
def Signals.cancelledAt (message : String) : Signals where
  cancelled reports := reports.any fun r => (r.event?.map (·.message)) = some message
  faulty := Signals.quiet.faulty

theorem lasting_cancelledAt (message : String) : (Signals.cancelledAt message).Lasting := by
  intro reports more h
  change (reports ++ more).any _ = true
  rw [List.any_append, Bool.or_eq_true_iff]
  exact .inl h

/-- Two files of which the first one cannot be parsed. -/
def halfParsedScript : List ScriptedFile :=
  [⟨"a.as", some (.plain "a" none), [], none, [], none, [], none⟩,
    ⟨"b.as", none, [], none, [], none, [], none⟩]

def halfParsedFiles : List SourceFile := [⟨"a.as", ""⟩, ⟨"b.as", ""⟩]

/-- A run whose first file has failed is cancelled while the second one is parsed; a run of the
second file alone is cancelled when its graph is done. -/
theorem cancelled_or_unaffected_parsing :
    (run (.scripted halfParsedScript) (.cancelledAt "parsing b.as") (.sequential .fail)
        halfParsedFiles).1 = .error cancelledFault ∧
      run (.scripted halfParsedScript)
          (.cancelledAt "dependency graph has 1 modules and 0 edges") (.sequential .fail)
          [⟨"b.as", ""⟩] =
        run (.scripted halfParsedScript) Signals.quiet (.sequential .fail) [⟨"b.as", ""⟩] := by
  refine ⟨(cancelled_or_unaffected (.scripted halfParsedScript) (lasting_cancelledAt "parsing b.as")
      (.sequential .fail) halfParsedFiles).1 ?_,
    (cancelled_or_unaffected (.scripted halfParsedScript)
      (lasting_cancelledAt "dependency graph has 1 modules and 0 edges") (.sequential .fail)
      [⟨"b.as", ""⟩]).2 ?_⟩
  · rw [cancelledAmong_iff (lasting_cancelledAt _)]
    decide
  · rw [cancelledAmong_iff (lasting_cancelledAt _)]
    decide

end Pipeline
end ScriptWeave
