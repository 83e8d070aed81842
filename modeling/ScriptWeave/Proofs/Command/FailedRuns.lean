import ScriptWeave.Command.Program
import ScriptWeave.Project.Configuration
import ScriptWeave.Proofs.Build.Changes
import ScriptWeave.Proofs.Pipeline.Conduct

/-!
What the loading of settings fails with. Every fault is told about, except that a file may break off
its decoder.

Failed runs of the program. A conversion that fails before its first change leaves the disk as it
was, and only a change that the disk refuses can make it fail later. A graph is shown without any
change.
-/

namespace ScriptWeave
namespace Project

/-- The configuration file that is used breaks off its decoder. -/
def Source.BreaksOff (s : Source) (d : Disk) : Prop :=
  ∃ text message, d.read (s.fileUsed d) = .ok text ∧
    Toml.decode .standard text = .error (.crash message)

theorem told_of_readVariables {d : Disk} {path : String} {fault : Fault}
    (h : readVariables d path = .error fault) : fault.Told := by
  rw [readVariables] at h
  split at h
  · split at h
    · cases h
    · cases h
      rfl
  · split at h
    · cases h
    · cases h
      rfl

theorem told_of_decodeFile {d : Disk} {path : String} {c : Settings} {fault : Fault}
    (h : decodeFile d path c = .error fault) :
    fault.Told ∨ ∃ text message, d.read path = .ok text ∧
      Toml.decode c text = .error (.crash message) := by
  simp only [decodeFile] at h
  split at h
  · cases h
    exact .inl rfl
  · next text hread =>
      split at h
      · split at h
        · cases h
        · cases h
          exact .inl rfl
        · next message hdecode => exact .inr ⟨text, message, hread, hdecode⟩
      · split at h
        · split at h
          · cases h
          · cases h
            exact .inl rfl
        · cases h
          exact .inl rfl

theorem Source.told_of_overlay {s : Source} {d : Disk} {c : Settings} {fault : Fault}
    (h : s.overlay d c = .error fault) : fault.Told := by
  rw [overlay] at h
  obtain hvariables | ⟨vars, -, h⟩ := bind_eq_error h
  · exact told_of_readVariables hvariables
  · dsimp only at h
    split at h
    · cases h
    · cases h
      rfl

theorem Source.told_of_load {s : Source} {d : Disk} {fault : Fault}
    (h : s.load d = .error fault) : fault.Told ∨ s.BreaksOff d := by
  rw [load] at h
  split at h
  · exact .inl (told_of_overlay h)
  · obtain hfile | ⟨fromFile, -, h⟩ := bind_eq_error h
    · exact told_of_decodeFile hfile
    · exact .inl (told_of_overlay h)

end Project

namespace Command

open Disk (Change)

variable {scripts : ScriptEngine} {d : Disk} {w : World} {i : Interruption} {words : List String}
  {p : Parsed}

/-- The changes of a conversion, once its configuration was settled. -/
def changes (scripts : ScriptEngine) (d : Disk) (w : World) (i : Interruption) (p : Parsed) :
    Except Fault (List Change) :=
  match settle d w p with
  | .error fault => .error fault
  | .ok s => (s.converter scripts).changes d i

/-- A conversion gets as far as its changes, and the disk refuses one of them. -/
def Refused (scripts : ScriptEngine) (d : Disk) (w : World) (i : Interruption)
    (words : List String) : Prop :=
  ∃ p cs e, Invocation.read words = .ok (.command .convert p) ∧
    changes scripts d w i p = .ok cs ∧ (d.carryOut cs).1 = some e

/-- A command line asks for nothing but a conversion, though it may be faulty. -/
def Converts (words : List String) : Prop :=
  ∀ name p, Invocation.read words = .ok (.command name p) → name = .convert

/-- The configuration file of a run breaks off its decoder. -/
def BreaksOff (d : Disk) (w : World) (p : Parsed) : Prop :=
  ∃ start, startDirectory w p = .ok start ∧
    Project.Source.BreaksOff ⟨projectDirectory d p start, p.text "config", w.environment⟩ d

theorem told_of_startDirectory {fault : Fault} (h : startDirectory w p = .error fault) :
    fault.Told := by
  rw [startDirectory] at h
  split at h
  · cases h
  · split at h
    · cases h
    · cases h
      rfl
  · cases h
  · cases h
    rfl

theorem told_of_fault? {c : Settings} {fault : Fault} (h : c.fault? = some fault) :
    fault.Told := by
  rw [Settings.fault?, Fault.collect?] at h
  split at h
  · cases h
  · cases h
    rfl

theorem told_of_ofNames {format level : String} {fault : Fault}
    (h : Logger.ofNames format level = .error fault) : fault.Told := by
  rw [Logger.ofNames] at h
  split at h
  · cases h
  · cases h
    rfl

theorem told_of_settle {fault : Fault} (h : settle d w p = .error fault) :
    fault.Told ∨ BreaksOff d w p := by
  rw [settle] at h
  obtain hstart | ⟨start, hstart, h⟩ := bind_eq_error h
  · exact .inl (told_of_startDirectory hstart)
  · obtain hload | ⟨loaded, -, h⟩ := bind_eq_error h
    · exact (Project.Source.told_of_load hload).imp_right fun hbreaks => ⟨start, hstart, hbreaks⟩
    · dsimp only at h
      split at h
      · next fault' hfault =>
          cases h
          exact .inl (told_of_fault? hfault)
      · obtain hlogger | ⟨logger, -, h⟩ := bind_eq_error h
        · exact .inl (told_of_ofNames hlogger)
        · cases h

theorem told_of_changes {fault : Fault} (h : changes scripts d w i p = .error fault) :
    fault.Told ∨ BreaksOff d w p := by
  rw [changes] at h
  split at h
  · next hsettle =>
      cases h
      exact told_of_settle hsettle
  · exact .inl (Converter.told_of_changes h)

/-- How a run ends that fails before it changes anything: it leaves the disk alone and has the
status of a failure, unless it is broken off. -/
structure EndsUntouched (broken : Prop) (d : Disk) (exit : Exit) : Prop where
  disk : exit.disk = d
  status : exit.status = 1 ∨ broken ∧ exit.status = 2

theorem endsUntouched_failed {broken : Prop} {fault : Fault} (h : fault.Told ∨ broken) (d : Disk)
    (written : Transcript) : EndsUntouched broken d (failed d written fault) where
  disk := rfl
  status := by
    cases hcrash : fault.crash? with
    | none => exact .inl (by simp [Exit.status, failed, hcrash])
    | some message =>
        have huntold : ¬fault.Told := by simp [Fault.Told, hcrash]
        exact .inr ⟨h.resolve_left huntold, by simp [Exit.status, failed, hcrash]⟩

theorem endsUntouched_failedConversion {broken : Prop} {fault : Fault} (h : fault.Told) (p : Parsed)
    (d : Disk) (written : Transcript) :
    EndsUntouched broken d (failedConversion p d written fault) where
  disk := rfl
  status := .inl (by rw [Exit.status, failedConversion, h]; rfl)

/-- A conversion whose changes are not known changes nothing. -/
theorem endsUntouched_of_changes_error {fault : Fault}
    (h : changes scripts d w i p = .error fault) :
    EndsUntouched (BreaksOff d w p) d (perform scripts d w i .convert p) := by
  rw [changes] at h
  cases hsettle : settle d w p with
  | error fault' =>
      simp only [perform, hsettle]
      exact endsUntouched_failed (told_of_settle hsettle) d []
  | ok s =>
      simp only [hsettle] at h
      have hrun := Converter.runUnder_of_changes_error h w.clock
      simp only [perform, hsettle, convert, hrun.1, hrun.2]
      exact endsUntouched_failedConversion (Converter.told_of_changes h) p d _

/-- A conversion whose changes are all made succeeds. -/
theorem status_of_carryOut {cs : List Change} (h : changes scripts d w i p = .ok cs)
    (hcs : (d.carryOut cs).1 = none) : (perform scripts d w i .convert p).status = 0 := by
  rw [changes] at h
  cases hsettle : settle d w p with
  | error fault => simp [hsettle] at h
  | ok s =>
      simp only [hsettle] at h
      have hends := (Converter.endsLike_runUnder h w.clock).failed_iff
      rcases hrun : ((s.converter scripts).runUnder d w.clock i).outcome with fault | summary
      · obtain ⟨e, he⟩ := hends.1 ⟨fault, hrun⟩
        simp [hcs] at he
      · simp [perform, hsettle, convert, hrun, Exit.success, Exit.status]

theorem graph_disk (scripts : ScriptEngine) (d : Disk) (w : World) (i : Interruption) (p : Parsed) :
    (perform scripts d w i .graph p).disk = d := by
  simp only [perform]
  cases settle d w p with
  | error fault => rfl
  | ok s =>
      simp only [graph]
      rcases (Converter.ofSettings s.settings _ scripts).buildUnder d i with ⟨fault | b, reports, c⟩
      · rfl
      · rfl

/-- A conversion that fails without a refused change leaves the disk alone, and its status is that
of a failure unless the configuration broke it off; so too where modules are to be loaded and the
engine, whichever it is, refuses one. Showing a graph changes nothing at all. -/
theorem failed_run_changes_nothing (scripts : ScriptEngine) (d : Disk) (w : World)
    (i : Interruption) (words : List String) :
    (Converts words → (runUnder d w i words scripts).status ≠ 0 → ¬Refused scripts d w i words →
      EndsUntouched (∃ p, Invocation.read words = .ok (.command .convert p) ∧ BreaksOff d w p) d
        (runUnder d w i words scripts)) ∧
    (∀ p, Invocation.read words = .ok (.command .graph p) →
      (runUnder d w i words scripts).disk = d) := by
  refine ⟨?_, ?_⟩
  · intro hconverts hfails hrefused
    cases hread : Invocation.read words with
    | error message =>
        simp only [runUnder, hread]
        have htold : (Fault.plain message none).Told := rfl
        exact endsUntouched_failed (.inl htold) d []
    | ok invocation =>
        cases invocation with
        | help => simp [runUnder, hread, Exit.success, Exit.status] at hfails
        | command name p =>
            obtain rfl := hconverts name p hread
            simp only [runUnder, hread] at hfails ⊢
            cases hchanges : changes scripts d w i p with
            | error fault =>
                obtain ⟨hdisk, hstatus⟩ := endsUntouched_of_changes_error hchanges
                exact ⟨hdisk, hstatus.imp_right fun ⟨hbreaks, hcode⟩ => ⟨⟨p, rfl, hbreaks⟩, hcode⟩⟩
            | ok cs =>
                cases hcs : (d.carryOut cs).1 with
                | none => exact absurd (status_of_carryOut hchanges hcs) hfails
                | some e => exact absurd ⟨p, cs, e, hread, hchanges, hcs⟩ hrefused
  · intro p hread
    simp only [runUnder, hread]
    exact graph_disk scripts d w i p

section

/-- A world without variables whose working directory is `/proj`. -/
def World.inProject : World := ⟨fun _ => none, .ok "/proj", ⟨"", "", ""⟩⟩

theorem converts_convert : Converts ["convert"] := by
  intro name p hread
  cases hread
  rfl

theorem not_refused_convert
    (h : ∀ p, Invocation.read ["convert"] = .ok (.command .convert p) →
      (changes scripts d w i p).isOk = false) : ¬Refused scripts d w i ["convert"] := by
  rintro ⟨p, cs, e, hread, hchanges, -⟩
  have hfailed := h p hread
  rw [hchanges] at hfailed
  cases hfailed

/-- A project with an earlier output and a configuration that gives no number of workers. -/
def misconfiguredProject : Disk :=
  (Disk.empty.put "/proj/build/A.js" "" 0).put "/proj/as2amd.toml" "workers = true\n" 0

theorem misconfiguredProject_untouched :
    (runUnder misconfiguredProject .inProject .never ["convert"]).status = 1 ∧
      (runUnder misconfiguredProject .inProject .never ["convert"]).disk = misconfiguredProject ∧
      (runUnder misconfiguredProject .inProject .never ["graph"]).disk = misconfiguredProject := by
  have hstatus : (runUnder misconfiguredProject .inProject .never ["convert"]).status = 1 := by
    decide +kernel
  have hrefused : ¬Refused .lenient misconfiguredProject .inProject .never ["convert"] := by
    refine not_refused_convert ?_
    intro p hread
    cases hread
    decide +kernel
  refine ⟨hstatus, ((failed_run_changes_nothing .lenient misconfiguredProject .inProject .never
    ["convert"]).1 converts_convert ?_ hrefused).disk, ?_⟩
  · rw [hstatus]
    decide
  · exact (failed_run_changes_nothing .lenient misconfiguredProject .inProject .never
      ["graph"]).2 _ rfl

/-- A project whose configuration has a date in place of its source directory. -/
def datedProject : Disk := Disk.empty.put "/proj/as2amd.toml" "root = 2021-01-01\n" 0

/-- It is not so that every conversion that fails without a refused change has the status of a
failure. -/
theorem datedProject_breaks_off :
    ¬∀ d w i words, Converts words → (runUnder d w i words).status ≠ 0 →
      ¬Refused .lenient d w i words →
        (runUnder d w i words).status = 1 ∧ (runUnder d w i words).disk = d := by
  intro h
  have hstatus : (runUnder datedProject .inProject .never ["convert"]).status = 2 := by
    decide +kernel
  have hrefused : ¬Refused .lenient datedProject .inProject .never ["convert"] := by
    refine not_refused_convert ?_
    intro p hread
    cases hread
    decide +kernel
  have hfails := (h datedProject .inProject .never ["convert"] converts_convert
    (by rw [hstatus]; decide) hrefused).1
  rw [hstatus] at hfails
  cases hfails

end

end Command
end ScriptWeave
