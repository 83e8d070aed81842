import ScriptWeave.Build.Converter
import ScriptWeave.Proofs.Build.Changes
import ScriptWeave.Proofs.Pipeline.Execution
import ScriptWeave.Proofs.Project.Sources

/-!
What a converter's past does to its outcomes. Loading gives the sources that stand on the disk. A
conversion that is disturbed, by a cancellation or by a fault that was reported elsewhere, fails or
comes to what it would come to by itself; one whose reporter signals a fault from before always
fails.
-/

namespace ScriptWeave

namespace Pipeline

variable {α β Parsed Tree : Type} {signals calm : Signals}

theorem run_askReporter (signals : Signals) (j : Journal) : (askReporter signals).run j =
    (.ok (signals.faulty (j.queries + 1) j.reports), { j with queries := j.queries + 1 }) := rfl

theorem not_yields_collect (h : ∀ n reports, signals.faulty n reports = true)
    {phase label : String} {code : FaultCode} {results : List (Except Fault α)} {values : List α} :
    ¬Yields (collect signals true phase label code results) values := by
  simp only [collect]
  split
  · rintro ⟨j, j', hrun⟩
    simp only [if_true] at hrun
    rw [run_bind_ok (run_askReporter signals j), h] at hrun
    cases hrun
  · exact fun hyields => not_yields_throw (yields_of_then hyields)

/-- A conversion does not get past its first phase if the reporter signals a fault whenever it is
asked. -/
theorem run_heard (h : ∀ n reports, signals.faulty n reports = true)
    (frontend : Frontend Parsed Tree) (options : Options) (files : List SourceFile) :
    ∃ fault, (run frontend signals options files).1 = .error fault := by
  cases hrun : (run frontend signals options files).1 with
  | error fault => exact ⟨fault, rfl⟩
  | ok result =>
      have hyields : Yields (convert frontend signals options files) result :=
        ⟨_, _, Prod.ext hrun rfl⟩
      rw [convert] at hyields
      obtain ⟨_, hparse, _⟩ := yields_bind (yields_of_then hyields)
      obtain ⟨results, _, hcollect⟩ := yields_bind hparse
      exact absurd hcollect (not_yields_collect h)

/-- Where the one part ends with a value, so does the other, and leaves the same journal. -/
def Follows (x y : Run α) : Prop := ∀ j a j', x.run j = (.ok a, j') → y.run j = (.ok a, j')

namespace Follows

theorem refl (x : Run α) : Follows x x := fun _ _ _ h => h

theorem bind {x y : Run α} {f g : α → Run β} (hxy : Follows x y) (hfg : ∀ a, Follows (f a) (g a)) :
    Follows (x >>= f) (y >>= g) := by
  intro j b j' h
  obtain ⟨a, next, hx, hf⟩ := run_bind_eq_ok h
  rw [run_bind_ok (hxy j a next hx)]
  exact hfg a next b j' hf

theorem andThen {x : Run α} {f g : α → Run β} (hfg : ∀ a, Follows (f a) (g a)) :
    Follows (x >>= f) (x >>= g) :=
  (refl x).bind hfg

end Follows

/-- The answers of the one disturb a run no more than those of the other. -/
structure Signals.Calmer (calm signals : Signals) : Prop where
  cancelled : ∀ reports, signals.cancelled reports = false → calm.cancelled reports = false
  faulty : ∀ n reports, signals.faulty n reports = false → calm.faulty n reports = false

section

variable (h : calm.Calmer signals)
include h

/-- Jobs that end without a cancellation were all performed. -/
theorem perform_calmer (phase : String) (jobs : List (Job α)) (order : List Nat) (j : Journal)
    (hends : signals.cancelled (perform signals phase jobs order j).2.reports = false) :
    perform calm phase jobs order j = perform signals phase jobs order j := by
  induction order generalizing j with
  | nil => rfl
  | cons i order ih =>
      have hgoing : signals.cancelled j.reports = false := by
        rw [← Bool.not_eq_true]
        intro hcancelled
        rw [perform, if_pos hcancelled, hcancelled] at hends
        cases hends
      have hcalm := h.cancelled j.reports hgoing
      rw [perform, hgoing] at hends
      rw [perform, perform, hgoing, hcalm]
      cases hjob : jobs[i]? with
      | none =>
          rw [hjob] at hends
          exact ih j hends
      | some job =>
          rw [hjob] at hends
          have hrest := ih (job.start phase i j) hends
          simp only [hrest]

theorem follows_each (order : String → Nat → List Nat) (phase : String) (jobs : List (Job α)) :
    Follows (each signals order phase jobs) (each calm order phase jobs) := by
  intro j results j' hrun
  rw [run_each] at hrun ⊢
  have hends : signals.cancelled
      (perform signals phase jobs (order phase jobs.length) j).2.reports = false := by
    rw [← Bool.not_eq_true]
    intro hcancelled
    dsimp only at hrun
    rw [if_pos hcancelled] at hrun
    cases hrun
  rw [perform_calmer h _ _ _ _ hends]
  dsimp only at hrun ⊢
  rw [hends] at hrun
  rw [h.cancelled _ hends]
  exact hrun

theorem follows_collect (asks : Bool) (phase label : String) (code : FaultCode)
    (results : List (Except Fault α)) :
    Follows (collect signals asks phase label code results)
      (collect calm asks phase label code results) := by
  simp only [collect]
  split
  · split
    · intro j values j' hrun
      rw [run_bind_ok (run_askReporter signals j)] at hrun
      rw [run_bind_ok (run_askReporter calm j)]
      cases hfaulty : signals.faulty (j.queries + 1) j.reports with
      | true =>
          rw [hfaulty] at hrun
          cases hrun
      | false =>
          rw [hfaulty] at hrun
          rw [h.faulty _ _ hfaulty]
          exact hrun
    · exact .refl _
  · exact .refl _

/-- A conversion that ends well comes to the same where it is disturbed less. -/
theorem follows_convert (frontend : Frontend Parsed Tree) (options : Options)
    (files : List SourceFile) :
    Follows (convert frontend signals options files) (convert frontend calm options files) := by
  have hphase {γ δ : Type} {asks : Bool} {phase label : String} {code : FaultCode}
      {jobs : List (Job γ)} {f g : List γ → Run δ} (hfg : ∀ values, Follows (f values) (g values)) :
      Follows
        (each signals options.order phase jobs >>= fun results =>
          collect signals asks phase label code results >>= f)
        (each calm options.order phase jobs >>= fun results =>
          collect calm asks phase label code results >>= g) :=
    (follows_each h _ phase jobs).bind fun results =>
      (follows_collect h asks phase label code results).bind hfg
  simp only [convert, parseFiles, buildTable, resolveFiles, buildGraph, bind_assoc]
  refine .andThen fun _ => hphase fun parsed => hphase fun exports => .andThen fun registered => ?_
  exact .andThen fun table => hphase fun trees => hphase fun edges => .refl _

end

end Pipeline

namespace Settings

/-- The sources of a project with their digest. -/
def digested (c : Settings) (d : Disk) : Except Fault (List SourceFile × String) :=
  match Loader.sources c.loaderOptions d c.root with
  | .error fault => .error fault
  | .ok files =>
      match Digest.ofSources? files with
      | none => .error (.process "source digest" (some (.plain Digest.newlineMessage none)))
      | some digest => .ok (files, digest)

theorem sources_of_digested {c : Settings} {d : Disk} {files : List SourceFile} {digest : String}
    (h : c.digested d = .ok (files, digest)) :
    Loader.sources c.loaderOptions d c.root = .ok files ∧
        Digest.ofSources? files = some digest := by
  rw [digested] at h
  split at h
  · cases h
  · next hsources =>
      split at h
      · cases h
      · next hdigest =>
          cases h
          exact ⟨hsources, hdigest⟩

end Settings

namespace Emit

variable {Tree : Type} {view : View Tree} {out : OutputSet Tree} {texts : List GeneratedModule}

theorem generate_uncancelled {cancelled : Bool} (h : generate view cancelled out = .ok texts) :
    generate view false out = .ok texts := by
  rw [generate] at h ⊢
  split at h
  · cases h
  · exact h

end Emit

namespace Converter

variable {c c' : Converter} {i : Interruption} {heard : Nat → Bool} {files : List SourceFile}
  {digest : String} {b : Build}

/-- The reporter signals no fault from before. -/
def Quiet (c : Converter) : Prop := (c.reporter.hears && c.faulted) = false

theorem quiet_of_deaf (h : c.reporter.hears = false) : c.Quiet := by
  rw [Quiet, h, Bool.false_and]

/-- A converter that has only done something more. -/
structure Extends (c c' : Converter) : Prop where
  settings : c'.settings = c.settings
  reporter : c'.reporter = c.reporter
  scripts : c'.scripts = c.scripts
  faulted : c.faulted = true → c'.faulted = true

theorem Extends.refl (c : Converter) : c.Extends c := ⟨rfl, rfl, rfl, id⟩

theorem Extends.trans {c'' : Converter} (h : c.Extends c') (h' : c'.Extends c'') : c.Extends c'' :=
  ⟨h'.settings.trans h.settings, h'.reporter.trans h.reporter, h'.scripts.trans h.scripts,
    fun hc => h'.faulted (h.faulted hc)⟩

theorem extends_after (c : Converter) (loader : Loader) (reports : List Report) :
    c.Extends ({ c with loader }.after reports) :=
  ⟨rfl, rfl, rfl, fun h => by rw [after, h, Bool.true_or]⟩

/-- What converting sources comes to if nothing disturbs it. -/
def plain (c : Converter) (files : List SourceFile) (digest : String) : Except Fault Build :=
  (c.convertAmid .never (fun _ => false) files digest).1

/-- Of what a converter did before, only the faults that were reported matter to a conversion. -/
theorem convertAmid_congr (h : c.Extends c') (i : Interruption) (heard : Nat → Bool)
    (files : List SourceFile) (digest : String) :
    c'.convertAmid i heard files digest = c.convertAmid i heard files digest := by
  obtain ⟨settings, reporter, scripts, loader, faulted⟩ := c
  obtain ⟨settings', reporter', scripts', loader', faulted'⟩ := c'
  obtain ⟨rfl, rfl, rfl, -⟩ := h
  rfl

theorem plain_congr (h : c.Extends c') (files : List SourceFile) (digest : String) :
    c'.plain files digest = c.plain files digest := by
  rw [plain, plain, convertAmid_congr h]

/-- A build that was made holds what the pipeline gave, and what was rendered of that. -/
theorem exists_of_convertAmid (h : (c.convertAmid i heard files digest).1 = .ok b) :
    ∃ result journal modules,
      Pipeline.run .actionScript (c.signals i heard) (.sequential c.settings.conflictPolicy) files =
        (.ok result, journal) ∧
      c.render i result.output = .ok modules ∧
          b = ⟨result.runId, digest, files, result, modules⟩ := by
  rw [convertAmid] at h
  rcases hrun : Pipeline.run .actionScript (c.signals i heard)
    (.sequential c.settings.conflictPolicy) files with ⟨fault | result, journal⟩
  · rw [hrun] at h
    cases h
  · rw [hrun] at h
    cases hrender : c.render i result.output with
    | error fault =>
        simp only [Except.bind, bind, hrender] at h
        cases h
    | ok modules =>
        simp only [Except.bind, bind, hrender] at h
        exact ⟨result, journal, modules, rfl, hrender, (Except.ok.inj h).symm⟩

theorem generate_of_render {output : OutputSet Resolve.Module} {modules : List GeneratedModule}
    (h : c.render i output = .ok modules) :
    Emit.generate .ok (i.stopsRendering output.modules.length) output = .ok modules := by
  rw [render] at h
  cases hgenerate : Emit.generate .ok (i.stopsRendering output.modules.length) output with
  | error fault =>
      rw [hgenerate] at h
      cases h
  | ok texts =>
      simp only [hgenerate, Except.bind, bind] at h
      split at h
      · split at h
        · cases h
        · exact h
      · exact h

theorem render_uninterrupted {output : OutputSet Resolve.Module} {modules : List GeneratedModule}
    (h : c.render i output = .ok modules) : c.render .never output = .ok modules := by
  have hgenerate := generate_of_render h
  have hnever : Interruption.never.stopsRendering output.modules.length = false :=
    List.any_eq_false.2 fun _ _ => Bool.false_ne_true
  rw [render, hgenerate] at h
  rw [render, hnever, Emit.generate_uncancelled hgenerate]
  exact h

theorem calmer_signals (c : Converter) (i : Interruption) (heard : Nat → Bool) :
    (c.signals .never fun _ => false).Calmer (c.signals i heard) where
  cancelled := fun _ _ => rfl
  faulty n reports h := by
    simp only [signals, Bool.and_eq_false_iff, Bool.or_eq_false_iff] at h ⊢
    exact h.imp_right fun h => ⟨trivial, h.2⟩

/-- The digest is only recorded. -/
theorem plain_of_digest (h : c.plain files digest = .ok b) (digest' : String) :
    c.plain files digest' = .ok { b with sourceDigest := digest' } := by
  obtain ⟨result, journal, modules, hrun, hrender, rfl⟩ := exists_of_convertAmid h
  rw [plain, convertAmid, hrun]
  simp only [Except.bind, bind, hrender]
  rfl

theorem convertAmid_of_run_error {fault : Fault} {journal : Pipeline.Journal}
    (h : Pipeline.run .actionScript (c.signals i heard)
      (.sequential c.settings.conflictPolicy) files = (.error fault, journal)) (digest : String) :
    c.convertAmid i heard files digest = (.error fault, journal.reports) := by
  rw [convertAmid, h]
  rfl

/-- A conversion that ends well comes to what it comes to undisturbed. -/
theorem plain_of_convertAmid (h : (c.convertAmid i heard files digest).1 = .ok b) :
    c.plain files digest = .ok b := by
  obtain ⟨result, journal, modules, hrun, hrender, rfl⟩ := exists_of_convertAmid h
  have hplain := Pipeline.follows_convert (calmer_signals c i heard) .actionScript
    (.sequential c.settings.conflictPolicy) files .empty result journal hrun
  rw [plain, convertAmid, show Pipeline.run _ _ _ _ = _ from hplain]
  simp only [Except.bind, bind, render_uninterrupted hrender]
  rfl

/-- A converter whose reporter signals no fault from before converts like one without a past. -/
theorem convertAmid_of_quiet (h : c.Quiet) (files : List SourceFile) (digest : String) :
    c.convertAmid .never (fun _ => c.faulted) files digest =
      c.convertAmid .never (fun _ => false) files digest := by
  have hsignals : c.signals .never (fun _ => c.faulted) = c.signals .never fun _ => false := by
    rw [Quiet] at h
    simp only [signals, Bool.and_or_distrib_left, h, Bool.and_false]
  rw [convertAmid, convertAmid, hsignals]

/-- A converter whose reporter signals a fault from before converts nothing. -/
theorem exists_fault_of_not_quiet (h : ¬c.Quiet) (i : Interruption) (files : List SourceFile)
    (digest : String) :
    ∃ fault, (c.convertAmid i (fun _ => c.faulted) files digest).1 = .error fault := by
  rw [Quiet, Bool.not_eq_false, Bool.and_eq_true_iff] at h
  have hfaulty (n : Nat) (reports : List Report) :
      (c.signals i fun _ => c.faulted).faulty n reports = true := by
    simp only [signals, h.1, h.2, Bool.true_or, Bool.and_true]
  obtain ⟨fault, hrun⟩ := Pipeline.run_heard hfaulty .actionScript
    (.sequential c.settings.conflictPolicy) files
  exact ⟨fault, congrArg Prod.fst (convertAmid_of_run_error (Prod.ext hrun rfl) digest)⟩

section

variable {origin : Disk → String → Prop} {d : Disk}

/-- A converter whose loader has read sources of its project, as they stood on some disks. -/
structure LoadsFrom (origin : Disk → String → Prop) (c : Converter) : Prop where
  cache : c.loader.cache.From origin
  options : c.loader.options = c.settings.loaderOptions

/-- Loading gives the sources on the disk, unless it is cancelled. -/
theorem loadUnder_eq (hloads : c.LoadsFrom origin)
    (horigin : ∀ path, Loader.SourceAt c.settings.loaderOptions c.settings.root d path →
      origin d path)
    (hagree : ∀ path d', Loader.SourceAt c.settings.loaderOptions c.settings.root d path →
      origin d' path → d'.AgreeAt d path) (i : Interruption) :
    ∃ outcome reports c', c.loadUnder d i = (outcome, reports, c') ∧ c.Extends c' ∧
      c'.LoadsFrom origin ∧ (∀ loaded, outcome = .ok loaded → c'.faulted = c.faulted) ∧
      (outcome = c.settings.digested d ∨
        (∃ n, i.reading n = true) ∧ outcome = .error Loader.cancelledFault) := by
  rw [← hloads.options] at horigin hagree
  have hload := Loader.loadedFrom_loadUnder hloads.cache horigin hagree i.reading
  rw [loadUnder, Settings.digested, ← hloads.options]
  rcases hl : c.loader.loadUnder d c.settings.root i.reading with ⟨outcome, reports, loader⟩
  rw [hl] at hload
  have hextends := extends_after c loader reports
  have hafter : ({ c with loader }.after reports).LoadsFrom origin :=
    ⟨hload.loader, hload.options.trans hloads.options⟩
  cases outcome with
  | error fault =>
      refine ⟨_, _, _, rfl, hextends, hafter, ?_, ?_⟩
      · intro _ hloaded
        cases hloaded
      · obtain hsources | ⟨hcancelled, hfault⟩ := hload.outcome
        · rw [← hsources]
          exact Or.inl rfl
        · cases hfault
          exact Or.inr ⟨hcancelled, rfl⟩
  | ok files =>
      have hsources : Loader.sources c.loader.options d c.settings.root = .ok files := by
        obtain hsources | ⟨_, hfault⟩ := hload.outcome
        · exact hsources.symm
        · cases hfault
      have hfaulted : ({ c with loader }.after reports).faulted = c.faulted := by
        rw [after, hload.quiet files rfl, Bool.or_false]
      rw [hsources]
      dsimp only
      cases Digest.ofSources? files with
      | none => exact ⟨_, _, _, rfl, hextends, hafter, fun _ _ => hfaulted, Or.inl rfl⟩
      | some digest => exact ⟨_, _, _, rfl, hextends, hafter, fun _ _ => hfaulted, Or.inl rfl⟩

end

end Converter
end ScriptWeave
