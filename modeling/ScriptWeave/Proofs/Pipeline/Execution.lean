import ScriptWeave.Proofs.Pipeline.Phases

/-!
How the parts of a conversion end when nothing disturbs them. An ending says the outcome, the faults
that were reported, and the jobs that were performed; it does not depend on the order of the jobs,
nor on what was reported before. The endings of the phases are put together from those of their
parts.
-/

namespace ScriptWeave
namespace Pipeline

variable {α β σ : Type}

/-- Nobody cancels, and the reporter signals no fault unless one was reported. -/
structure Signals.Undisturbed (signals : Signals) : Prop where
  cancelled : ∀ reports, signals.cancelled reports = false
  faulty : ∀ n reports, signals.faulty n reports = true → ∃ report ∈ reports, report.isFault = true

theorem undisturbed_quiet : Signals.quiet.Undisturbed where
  cancelled := fun _ => rfl
  faulty := fun _ _ h => List.any_eq_true.1 h

/-- The faults that were reported, in order. -/
def Journal.faults (j : Journal) : List Report := j.reports.filter (·.isFault)

/-- From every journal without faults the run has the outcome, after reporting the faults and
performing the jobs. -/
def Ends (x : Run α) (outcome : Except Fault α) (faults : List Report)
    (jobs : List (String × Nat)) : Prop :=
  ∀ j : Journal, j.faults = [] → ∃ j' : Journal, x.run j = (outcome, j') ∧ j'.faults = faults ∧
    j'.performed = j.performed ++ jobs

theorem run_bind_ok {x : Run α} {f : α → Run β} {j j' : Journal} {a : α}
    (h : x.run j = (.ok a, j')) : (x >>= f).run j = (f a).run j' := by
  change ExceptT.bindCont (fun a => f a) (x.run j).1 (x.run j).2 = (f a).run j'
  rw [h]
  rfl

theorem run_bind_error {x : Run α} {f : α → Run β} {j j' : Journal} {fault : Fault}
    (h : x.run j = (.error fault, j')) : (x >>= f).run j = (.error fault, j') := by
  change ExceptT.bindCont (fun a => f a) (x.run j).1 (x.run j).2 = (.error fault, j')
  rw [h]
  rfl

namespace Ends

theorem pure (a : α) : Ends (Pure.pure a) (.ok a) [] [] := by
  intro j hj
  exact ⟨j, rfl, hj, (List.append_nil _).symm⟩

theorem throw (fault : Fault) : Ends (MonadExcept.throw fault : Run α) (.error fault) [] [] := by
  intro j hj
  exact ⟨j, rfl, hj, (List.append_nil _).symm⟩

theorem bind {x : Run α} {f : α → Run β} {a : α} {outcome : Except Fault β} {faults : List Report}
    {jobs jobs' : List (String × Nat)} (hx : Ends x (.ok a) [] jobs)
    (hf : Ends (f a) outcome faults jobs') : Ends (x >>= f) outcome faults (jobs ++ jobs') := by
  intro j hj
  obtain ⟨next, hrun, hnext, hjobs⟩ := hx j hj
  obtain ⟨last, hlast, hfaults, hjobs'⟩ := hf next hnext
  refine ⟨last, ?_, hfaults, ?_⟩
  · rw [run_bind_ok hrun, hlast]
  · rw [hjobs', hjobs, List.append_assoc]

theorem bind_error {x : Run α} {f : α → Run β} {fault : Fault} {faults : List Report}
    {jobs : List (String × Nat)} (hx : Ends x (.error fault) faults jobs) :
    Ends (x >>= f) (.error fault) faults jobs := by
  intro j hj
  obtain ⟨next, hrun, hfaults, hjobs⟩ := hx j hj
  exact ⟨next, run_bind_error hrun, hfaults, hjobs⟩

theorem yields {x : Run α} {a : α} {faults : List Report} {jobs : List (String × Nat)}
    (h : Ends x (.ok a) faults jobs) : Yields x a := by
  obtain ⟨j, hrun, _⟩ := h Journal.empty rfl
  exact ⟨_, j, hrun⟩

theorem assoc {γ : Type} {x : Run α} {f : α → Run β} {k : β → Run γ}
    {outcome : Except Fault γ} {faults : List Report} {jobs : List (String × Nat)}
    (h : Ends ((x >>= f) >>= k) outcome faults jobs) :
    Ends (x >>= fun a => f a >>= k) outcome faults jobs := by
  rwa [bind_assoc] at h

theorem step (phase : String) (level : Level) (message : String) (context : Option Details) :
    Ends (Pipeline.step phase level message context) (.ok ()) [] [] := by
  intro j hj
  refine ⟨_, rfl, ?_, (List.append_nil _).symm⟩
  rw [Journal.faults, List.filter_append, ← Journal.faults, hj]
  rfl

/-- A last part that performs no jobs. -/
theorem finish {x : Run α} {f : α → Run β} {a : α} {outcome : Except Fault β}
    {faults : List Report} {jobs : List (String × Nat)} (hx : Ends x (.ok a) [] jobs)
    (hf : Ends (f a) outcome faults []) : Ends (x >>= f) outcome faults jobs := by
  have hends := hx.bind hf
  rwa [List.append_nil] at hends

/-- A first part that only makes steps leaves the rest as it is. -/
theorem andThen {x : Run Unit} {y : Run α} {outcome : Except Fault α} {faults : List Report}
    {jobs : List (String × Nat)} (hx : Ends x (.ok ()) [] []) (hy : Ends y outcome faults jobs) :
    Ends (x >>= fun _ => y) outcome faults jobs :=
  hx.bind hy

theorem forM {f : α → Run Unit} (h : ∀ a, Ends (f a) (.ok ()) [] []) (as : List α) :
    Ends (as.forM f) (.ok ()) [] [] := by
  induction as with
  | nil => exact .pure ()
  | cons a as ih => exact (h a).andThen ih

theorem foldlM {f : σ → α → Run σ} {act : σ → α → σ}
    (h : ∀ s a, Ends (f s a) (.ok (act s a)) [] []) (as : List α) (s : σ) :
    Ends (as.foldlM f s) (.ok (as.foldl act s)) [] [] := by
  induction as generalizing s with
  | nil => exact .pure s
  | cons a as ih =>
      rw [List.foldlM_cons, List.foldl_cons]
      exact (h s a).bind (ih (act s a))

end Ends

/-- The reports of the issues that end a phase. -/
def issueReports (phase : String) (issues : List Issue) : List Report :=
  issues.map fun issue => .fault phase (.issue issue)

theorem run_reportIssues (phase : String) (issues : List Issue) (j : Journal) :
    (issues.forM fun issue => tell (.fault phase (.issue issue)) : Run Unit).run j =
      (.ok (), { j with reports := j.reports ++ issueReports phase issues }) := by
  induction issues generalizing j with
  | nil =>
      rw [issueReports, List.map_nil, List.append_nil]
      rfl
  | cons issue issues ih =>
      have htell : (tell (.fault phase (.issue issue)) : Run Unit).run j =
          (.ok (), { j with reports := j.reports ++ [.fault phase (.issue issue)] }) := rfl
      refine (run_bind_ok htell).trans ((ih _).trans ?_)
      rw [List.append_assoc]
      rfl

theorem filter_issueReports (phase : String) (issues : List Issue) :
    (issueReports phase issues).filter (·.isFault) = issueReports phase issues := by
  apply List.filter_eq_self.2
  intro report hreport
  obtain ⟨issue, _, rfl⟩ := List.mem_map.1 hreport
  rfl

theorem Ends.failure (phase label : String) (issues : List Issue) :
    Ends (do
        issues.forM fun issue => tell (.fault phase (.issue issue))
        MonadExcept.throw (.phase label issues) : Run α)
      (.error (.phase label issues)) (issueReports phase issues) [] := by
  intro j hj
  refine ⟨{ j with reports := j.reports ++ issueReports phase issues }, ?_, ?_,
    (List.append_nil _).symm⟩
  · rw [run_bind_ok (run_reportIssues phase issues j)]
    rfl
  · rw [Journal.faults, List.filter_append, ← Journal.faults, hj, List.nil_append]
    exact filter_issueReports phase issues

theorem faults_start {job : Job α} (phase : String) (place : Nat) (j : Journal) :
    (job.start phase place j).faults = j.faults := by
  rw [Job.start, Job.announce, Journal.faults]
  split
  · rfl
  · simp [Journal.faults, Report.isFault]

theorem journal_perform {signals : Signals} (hsignals : signals.Undisturbed) (phase : String)
    {jobs : List (Job α)} {order : List Nat} (horder : ∀ i ∈ order, i < jobs.length)
    (j : Journal) :
    (perform signals phase jobs order j).2.faults = j.faults ∧
      (perform signals phase jobs order j).2.performed =
        j.performed ++ order.map (phase, ·) := by
  induction order generalizing j with
  | nil => exact ⟨rfl, (List.append_nil _).symm⟩
  | cons i order ih =>
      have hi := horder i List.mem_cons_self
      have hjob := List.getElem?_eq_getElem hi
      obtain ⟨hfaults, hperformed⟩ :=
        ih (fun k hk => horder k (List.mem_cons_of_mem _ hk)) (jobs[i].start phase i j)
      rw [perform, hsignals.cancelled, hjob]
      refine ⟨hfaults.trans (faults_start phase i j), hperformed.trans ?_⟩
      rw [Job.start, List.append_assoc]
      rfl

/-- A phase hands on its results unless it is cancelled by its end. -/
theorem run_each (signals : Signals) (order : String → Nat → List Nat) (phase : String)
    (jobs : List (Job α)) (j : Journal) : (each signals order phase jobs).run j =
      let (done, next) := perform signals phase jobs (order phase jobs.length) j
      if signals.cancelled next.reports then (.error cancelledFault, next)
      else (.ok ((List.range jobs.length).filterMap (done.lookup ·)), next) := by
  have hget : (get : Run Journal).run j = (.ok j, j) := rfl
  have hset (next : Journal) : (set next : Run PUnit).run j = (.ok ⟨⟩, next) := rfl
  rw [each, run_bind_ok hget]
  dsimp only
  rw [run_bind_ok (hset _)]
  split
  · rfl
  · rfl

/-- Every job of a phase is performed once, and the results are those of all jobs by place. -/
theorem Ends.each {signals : Signals} (hsignals : signals.Undisturbed) (options : Options)
    (phase : String) (jobs : List (Job α)) :
    Ends (Pipeline.each signals options.order phase jobs) (.ok (jobs.map (·.result))) []
      ((options.order phase jobs.length).map (phase, ·)) := by
  intro j hj
  have horder : ∀ i ∈ options.order phase jobs.length, i < jobs.length := by
    intro i hi
    exact List.mem_range.1 ((options.order_perm phase jobs.length).mem_iff.1 hi)
  obtain ⟨hfaults, hperformed⟩ := journal_perform hsignals phase horder j
  cases hperform : perform signals phase jobs (options.order phase jobs.length) j with
  | mk done j' =>
  rw [hperform] at hfaults hperformed
  obtain ⟨results, hrun⟩ : ∃ results,
      (Pipeline.each signals options.order phase jobs).run j = (.ok results, j') := by
    rw [run_each, hperform]
    dsimp only
    rw [hsignals.cancelled]
    exact ⟨_, rfl⟩
  have hresults := yields_each options.order_perm ⟨j, j', hrun⟩
  subst hresults
  exact ⟨j', hrun, hfaults.trans hj, hperformed⟩

/-- The fault of a result. -/
def faultOf? : Except Fault α → Option Fault
  | .ok _ => none
  | .error fault => some fault

theorem Ends.askReporter {signals : Signals} (hsignals : signals.Undisturbed) :
    Ends (Pipeline.askReporter signals) (.ok false) [] [] := by
  intro j hj
  refine ⟨{ j with queries := j.queries + 1 }, ?_, hj, (List.append_nil _).symm⟩
  have hfaulty : signals.faulty (j.queries + 1) j.reports = false := by
    rw [← Bool.not_eq_true]
    intro h
    obtain ⟨report, hreport, hfault⟩ := hsignals.faulty _ _ h
    have hmem : report ∈ j.faults := List.mem_filter.2 ⟨hreport, hfault⟩
    rw [hj] at hmem
    cases hmem
  rw [← hfaulty]
  rfl

theorem Ends.collect {signals : Signals} (hsignals : signals.Undisturbed) (asks : Bool)
    (phase label : String) (code : FaultCode) {results : List (Except Fault α)}
    (h : results.filterMap faultOf? = []) :
    Ends (Pipeline.collect signals asks phase label code results)
      (.ok (results.filterMap Except.toOption)) [] [] := by
  rw [Pipeline.collect]
  change Ends (if (results.filterMap faultOf?).isEmpty then _ else _) _ _ _
  rw [h]
  cases asks with
  | false => exact .pure _
  | true => exact (Ends.askReporter hsignals).bind (.pure _)

theorem Ends.collect_error (signals : Signals) (asks : Bool) (phase label : String)
    (code : FaultCode) {results : List (Except Fault α)} (h : results.filterMap faultOf? ≠ []) :
    Ends (Pipeline.collect signals asks phase label code results)
      (.error (.phase label ((results.filterMap faultOf?).flatMap (·.toIssues code))))
      (issueReports phase ((results.filterMap faultOf?).flatMap (·.toIssues code))) [] := by
  rw [Pipeline.collect]
  change Ends (if (results.filterMap faultOf?).isEmpty then _ else _) _ _ _
  rw [if_neg (by simpa using h)]
  exact .failure phase label _

section

variable {signals : Signals} (hsignals : signals.Undisturbed) (options : Options) (asks : Bool)
  (phase label : String) (code : FaultCode) {jobs : List (Job α)} {n : Nat}
  (hn : jobs.length = n)
include hsignals hn

/-- A phase without failing jobs ends with the values of all its jobs. -/
theorem Ends.phasePasses {values : List α}
    (hfaults : (jobs.map (·.result)).filterMap faultOf? = [])
    (hvalues : (jobs.map (·.result)).filterMap Except.toOption = values) :
    Ends (do
        let results ← Pipeline.each signals options.order phase jobs
        Pipeline.collect signals asks phase label code results)
      (.ok values) [] ((options.order phase n).map (phase, ·)) := by
  subst hn hvalues
  exact (Ends.each hsignals options phase jobs).finish
    (.collect hsignals asks phase label code hfaults)

/-- A phase with failing jobs performs all the same, and ends with the issues of all faults. -/
theorem Ends.phaseFails {faults : List Fault}
    (hfaults : (jobs.map (·.result)).filterMap faultOf? = faults) (hne : faults ≠ []) :
    Ends (do
        let results ← Pipeline.each signals options.order phase jobs
        Pipeline.collect signals asks phase label code results)
      (.error (.phase label (faults.flatMap (·.toIssues code))))
      (issueReports phase (faults.flatMap (·.toIssues code)))
      ((options.order phase n).map (phase, ·)) := by
  subst hn hfaults
  exact (Ends.each hsignals options phase jobs).finish
    (.collect_error signals asks phase label code hne)

end

end Pipeline
end ScriptWeave
