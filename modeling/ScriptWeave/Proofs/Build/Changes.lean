import ScriptWeave.Build.Converter
import ScriptWeave.Proofs.Pipeline.Conduct

/-!
The changes that a run makes. A run first finds out what it has to change, and changes nothing if it
fails at that; then it makes one change after another until the disk refuses one.
-/

namespace ScriptWeave

theorem bind_eq_error {ε α β : Type} {x : Except ε α} {f : α → Except ε β} {e : ε}
    (h : (x >>= f) = .error e) : x = .error e ∨ ∃ a, x = .ok a ∧ f a = .error e := by
  cases x with
  | error e' => exact .inl (congrArg Except.error (Except.error.inj h))
  | ok a => exact .inr ⟨a, rfl, h⟩

open Text

namespace Disk

/-- A change to a disk. -/
inductive Change where
  /-- What is gone already need not be removed. -/
  | remove (path : String)
  | makeDirectory (path : String)
  | write (path text : String)

def change (d : Disk) : Change → Except DiskError Disk
  | .remove path =>
      match d.remove path with
      | .ok d' => .ok d'
      | .error e => if e.isMissing then .ok d else .error e
  | .makeDirectory path => d.makeDirectory path
  | .write path text => d.write path text

/-- Makes changes in turn until one is refused. -/
def carryOut (d : Disk) : List Change → Option DiskError × Disk
  | [] => (none, d)
  | c :: cs =>
      match d.change c with
      | .error e => (some e, d)
      | .ok d' => d'.carryOut cs

theorem carryOut_append (d : Disk) (cs more : List Change) :
    d.carryOut (cs ++ more) =
      match d.carryOut cs with
      | (some e, d') => (some e, d')
      | (none, d') => d'.carryOut more := by
  induction cs generalizing d with
  | nil => rfl
  | cons c cs ih =>
      simp only [List.cons_append, carryOut]
      cases d.change c with
      | error e => rfl
      | ok d' => exact ih d'

variable {α β : Type} {d : Disk} {c : Change} {cs more : List Change}

/-- An operation ends like changes do: it fails if one of them is refused, and leaves the same
disk. -/
inductive EndsLike : Except Fault α × Disk → Option DiskError × Disk → Prop where
  | refused (fault : Fault) (e : DiskError) (d : Disk) : EndsLike (.error fault, d) (some e, d)
  | done (a : α) (d : Disk) : EndsLike (.ok a, d) (none, d)

namespace EndsLike

theorem change {e : DiskError} (fault : Fault) (h : d.change c = .error e) :
    EndsLike (α := α) (.error fault, d) (d.carryOut (c :: cs)) := by
  simp only [carryOut, h]
  exact .refused fault e d

theorem after {d' : Disk} {ended : Except Fault α × Disk} (h : d.change c = .ok d')
    (hrest : EndsLike ended (d'.carryOut cs)) : EndsLike ended (d.carryOut (c :: cs)) := by
  simpa only [carryOut, h] using hrest

theorem append_error {fault : Fault} {d' : Disk}
    (h : EndsLike (α := α) (.error fault, d') (d.carryOut cs)) :
    EndsLike (α := β) (.error fault, d') (d.carryOut (cs ++ more)) := by
  rw [carryOut_append]
  generalize d.carryOut cs = r at h
  cases h
  exact .refused _ _ _

theorem append_ok {a : α} {d' : Disk} {ended : Except Fault β × Disk}
    (h : EndsLike (.ok a, d') (d.carryOut cs)) (hrest : EndsLike ended (d'.carryOut more)) :
    EndsLike ended (d.carryOut (cs ++ more)) := by
  rw [carryOut_append]
  generalize d.carryOut cs = r at h
  cases h
  exact hrest

theorem error {fault fault' : Fault} {r : Option DiskError × Disk}
    (h : EndsLike (α := α) (.error fault, d) r) : EndsLike (α := β) (.error fault', d) r := by
  cases h
  exact .refused _ _ _

theorem ok {a : α} {b : β} {r : Option DiskError × Disk} (h : EndsLike (.ok a, d) r) :
    EndsLike (.ok b, d) r := by
  cases h
  exact .done b d

theorem failed_iff {ended : Except Fault α × Disk} {r : Option DiskError × Disk}
    (h : EndsLike ended r) : (∃ fault, ended.1 = .error fault) ↔ ∃ e, r.1 = some e := by
  cases h <;> simp

theorem disk_eq {ended : Except Fault α × Disk} {r : Option DiskError × Disk}
    (h : EndsLike ended r) : ended.2 = r.2 := by
  cases h <;> rfl

end EndsLike

/-- The fault and the disk that a removal left. -/
def endOf (r : Removal) : Except Fault Unit × Disk :=
  match r.fault with
  | none => (.ok (), r.disk)
  | some fault => (.error fault, r.disk)

theorem endOf_snd (r : Removal) : (endOf r).2 = r.disk := by
  rw [endOf]
  split <;> rfl

theorem endsLike_removeFiles (d : Disk) (directory : String) (files : List String) :
    EndsLike (endOf (d.removeFiles directory files))
      (d.carryOut (files.map fun file => .remove (Path.join [directory, file]))) := by
  induction files generalizing d with
  | nil => exact .done () d
  | cons file files ih =>
      simp only [List.map_cons, removeFiles]
      cases hremove : d.remove (Path.join [directory, file]) with
      | ok d' => exact .after (by simp [Disk.change, hremove]) (ih d')
      | error e =>
          by_cases hmissing : e.isMissing = true
          · simp only [hmissing, if_true]
            exact .after (by simp [Disk.change, hremove, hmissing]) (ih d)
          · simp only [hmissing]
            have hrefused : d.change (.remove (Path.join [directory, file])) = .error e := by
              simp [Disk.change, hremove, hmissing]
            exact .change _ hrefused

end Disk

theorem Manifest.told_of_read {d : Disk} {outDir : String} {fault : Fault}
    (h : Manifest.read d outDir = .error fault) : fault.Told := by
  simp only [Manifest.read] at h
  split at h
  · split at h
    · cases h
    · cases h
      rfl
  · split at h
    · cases h
    · cases h
      rfl

namespace Build

open Disk (Change EndsLike)

/-- The changes that write a module. -/
def moduleChanges (outDir : String) (m : GeneratedModule) : List Change :=
  let path := Path.join [outDir, m.id.path]
  [.makeDirectory (Path.directory path), .write path m.content]

/-- The changes that write a build. They are not known if the build has no record, or if the record
of the build before cannot be read. -/
def changes (b : Build) (d : Disk) (outDir : String) : Except Fault (List Change) :=
  match Manifest.ofBuild b with
  | .error fault => .error fault
  | .ok manifest =>
      match Manifest.read d outDir with
      | .error fault => .error fault
      | .ok previous =>
          .ok ((b.stale previous).map (fun id => .remove (Path.join [outDir, id])) ++
            (b.modules.flatMap (moduleChanges outDir) ++
              [.write (Manifest.pathIn outDir) manifest.render]))

theorem endsLike_writeModule (d : Disk) (outDir : String) (m : GeneratedModule) :
    EndsLike (writeModule d outDir m) (d.carryOut (moduleChanges outDir m)) := by
  simp only [writeModule, moduleChanges]
  generalize Path.join [outDir, m.id.path] = path
  cases hmake : d.makeDirectory (Path.directory path) with
  | error e => exact .change (c := .makeDirectory (Path.directory path)) _ hmake
  | ok d' =>
      refine .after (c := .makeDirectory (Path.directory path)) hmake ?_
      cases hwrite : d'.write path m.content with
      | error e =>
          simp only [hwrite]
          exact .change (c := .write path m.content) _ hwrite
      | ok d'' =>
          simp only [hwrite]
          exact .after (c := .write path m.content) hwrite (.done () d'')

theorem endsLike_writeModules (d : Disk) (outDir : String) (ms : List GeneratedModule) :
    EndsLike (writeModules d outDir ms) (d.carryOut (ms.flatMap (moduleChanges outDir))) := by
  induction ms generalizing d with
  | nil => exact .done () d
  | cons m ms ih =>
      have hfirst := endsLike_writeModule d outDir m
      simp only [writeModules, List.flatMap_cons]
      match hm : writeModule d outDir m with
      | (.error fault, d') => exact .append_error (hm ▸ hfirst)
      | (.ok (), d') => exact .append_ok (hm ▸ hfirst) (ih d')

theorem endsLike_writeManifest (d : Disk) (outDir : String) (m : Manifest) :
    EndsLike (writeManifest d outDir m)
      (d.carryOut [.write (Manifest.pathIn outDir) m.render]) := by
  simp only [writeManifest]
  generalize Manifest.pathIn outDir = path
  match hwrite : d.write path m.render with
  | .error e => exact .change (c := .write path m.render) _ hwrite
  | .ok d' => exact .after (c := .write path m.render) hwrite (.done () d')

theorem told_of_changes {b : Build} {d : Disk} {outDir : String} {fault : Fault}
    (h : b.changes d outDir = .error fault) : fault.Told := by
  simp only [changes] at h
  split at h
  · next hmanifest =>
      cases h
      rw [Manifest.ofBuild] at hmanifest
      split at hmanifest
      · cases hmanifest
        rfl
      · cases hmanifest
  · split at h
    · next hread =>
        cases h
        exact Manifest.told_of_read hread
    · cases h

/-- A build whose changes are not known is not written at all. -/
theorem write_eq_of_changes_error {b : Build} {d : Disk} {outDir : String} {fault : Fault}
    (h : b.changes d outDir = .error fault) : b.write d outDir = (.error fault, d) := by
  simp only [changes] at h
  cases hmanifest : Manifest.ofBuild b with
  | error e =>
      simp only [hmanifest, Except.error.injEq] at h
      simp only [write, hmanifest, h]
  | ok manifest =>
      cases hprevious : Manifest.read d outDir with
      | error e =>
          simp only [hmanifest, hprevious, Except.error.injEq] at h
          simp only [write, hmanifest, hprevious, h]
      | ok previous => simp [hmanifest, hprevious] at h

/-- Writing a build is carrying out its changes. -/
theorem endsLike_write {b : Build} {d : Disk} {outDir : String} {cs : List Change}
    (h : b.changes d outDir = .ok cs) : EndsLike (b.write d outDir) (d.carryOut cs) := by
  simp only [changes] at h
  cases hmanifest : Manifest.ofBuild b with
  | error e => simp [hmanifest] at h
  | ok manifest =>
      cases hprevious : Manifest.read d outDir with
      | error e => simp [hmanifest, hprevious] at h
      | ok previous =>
          simp only [hmanifest, hprevious, Except.ok.injEq] at h
          subst h
          simp only [write, hmanifest, hprevious]
          have hremoved := Disk.endsLike_removeFiles d outDir (b.stale previous)
          simp only [Disk.endOf] at hremoved
          generalize d.removeFiles outDir (b.stale previous) = removal at hremoved ⊢
          cases hfault : removal.fault with
          | some fault => exact .append_error (hfault ▸ hremoved)
          | none =>
              simp only [hfault] at hremoved ⊢
              refine .append_ok hremoved ?_
              have hwritten := endsLike_writeModules removal.disk outDir b.modules
              rcases hms : writeModules removal.disk outDir b.modules with ⟨fault | ⟨⟩, d'⟩
              · exact .append_error (hms ▸ hwritten)
              · refine .append_ok (hms ▸ hwritten) ?_
                have hrecorded := endsLike_writeManifest d' outDir manifest
                rcases hm : writeManifest d' outDir manifest with ⟨fault | ⟨⟩, d''⟩
                · rw [hm] at hrecorded
                  simpa only [hm] using hrecorded.error
                · rw [hm] at hrecorded
                  simpa only [hm] using hrecorded.ok

end Build

theorem Loader.told_of_loadUnder {l : Loader} {d : Disk} {root : String} {cancelled : Nat → Bool}
    {fault : Fault} (h : (l.loadUnder d root cancelled).outcome = .error fault) : fault.Told := by
  simp only [loadUnder] at h
  split at h
  · cases h
    rfl
  · split at h
    · cases h
      rfl
    · split at h
      · cases h
      · cases h
        rfl

theorem Emit.told_of_generate {Tree : Type} {view : View Tree} {cancelled : Bool}
    {out : OutputSet Tree} {fault : Fault} (h : generate view cancelled out = .error fault) :
    fault.Told := by
  rw [generate] at h
  split at h
  · cases h
    rfl
  · split at h
    · cases h
    · cases h
      rfl

namespace ScriptEngine

variable {engine : ScriptEngine} {fault : Fault}

theorem told_of_collected {issues : List Issue} (h : collected issues = .error fault) :
    fault.Told := by
  cases issues with
  | nil => cases h
  | cons issue issues =>
      cases h
      rfl

theorem told_of_define {defined modules : List GeneratedModule}
    (h : engine.define defined modules = .error fault) : fault.Told := by
  induction modules generalizing defined with
  | nil => cases h
  | cons m rest ih =>
      rw [define] at h
      split at h
      · cases h
        rfl
      · cases h
        rfl
      · exact ih h

/-- Whatever the engine refuses is told about in the usual way. -/
theorem told_of_verify {modules : List GeneratedModule} (h : engine.verify modules = .error fault) :
    fault.Told := by
  rw [verify] at h
  obtain hcompiled | ⟨_, -, h⟩ := bind_eq_error h
  · exact told_of_collected hcompiled
  · split at h
    · obtain hopened | ⟨_, hopened, -⟩ := bind_eq_error h
      · cases hopened
        rfl
      · cases hopened
    · obtain hdefined | ⟨_, -, h⟩ := bind_eq_error h
      · exact told_of_define hdefined
      · exact told_of_collected h

end ScriptEngine

namespace Converter

open Disk (Change EndsLike)

/-- The changes of a run, once the sources were read and converted. -/
def changes (c : Converter) (d : Disk) (i : Interruption) : Except Fault (List Change) :=
  match (c.buildUnder d i).1 with
  | .error fault => .error fault
  | .ok b => b.changes d c.settings.outDir

variable {c : Converter} {d : Disk} {i : Interruption}

theorem told_of_loadUnder {fault : Fault} (h : (c.loadUnder d i).1 = .error fault) :
    fault.Told := by
  simp only [loadUnder] at h
  split at h
  · next hload =>
      cases h
      exact Loader.told_of_loadUnder hload
  · split at h
    · cases h
      rfl
    · cases h

theorem told_of_render {output : OutputSet Resolve.Module} {fault : Fault}
    (h : c.render i output = .error fault) : fault.Told := by
  rw [render] at h
  obtain hgenerate | ⟨modules, -, h⟩ := bind_eq_error h
  · exact Emit.told_of_generate hgenerate
  · split at h
    · obtain hverify | ⟨_, -, h⟩ := bind_eq_error h
      · exact ScriptEngine.told_of_verify hverify
      · cases h
    · cases h

theorem told_of_convertUnder {files : List SourceFile} {digest : String} {fault : Fault}
    (h : (c.convertUnder i files digest).1 = .error fault) : fault.Told := by
  simp only [convertUnder, convertAmid] at h
  obtain hrun | ⟨result, -, h⟩ := bind_eq_error h
  · exact Pipeline.told_of_run (Prod.ext hrun rfl)
  · obtain hrender | ⟨modules, -, h⟩ := bind_eq_error h
    · exact told_of_render hrender
    · cases h

theorem told_of_changes {fault : Fault} (h : c.changes d i = .error fault) : fault.Told := by
  simp only [changes] at h
  split at h
  · next hbuild =>
      cases h
      simp only [buildUnder] at hbuild
      split at hbuild
      · next hload =>
          cases hbuild
          exact told_of_loadUnder (congrArg Prod.fst hload)
      · exact told_of_convertUnder hbuild
  · exact Build.told_of_changes h

/-- A run whose changes are not known fails for that reason and changes nothing. -/
theorem runUnder_of_changes_error {fault : Fault} (h : c.changes d i = .error fault)
    (clock : Clock) :
    (c.runUnder d clock i).outcome = .error fault ∧ (c.runUnder d clock i).disk = d := by
  simp only [changes, buildUnder] at h
  rcases hload : c.loadUnder d i with ⟨fault' | ⟨files, digest⟩, reports, c'⟩
  · simp only [hload, Except.error.injEq] at h
    simp [runUnder, hload, h]
  · simp only [hload] at h
    rcases hconvert : c'.convertUnder i files digest with ⟨fault' | b, more, c''⟩
    · simp only [hconvert, Except.error.injEq] at h
      simp [runUnder, hload, hconvert, h]
    · simp only [hconvert] at h
      simp [runUnder, hload, hconvert, Build.write_eq_of_changes_error h]

/-- A run is carrying out its changes. -/
theorem endsLike_runUnder {cs : List Change} (h : c.changes d i = .ok cs) (clock : Clock) :
    EndsLike ((c.runUnder d clock i).outcome, (c.runUnder d clock i).disk) (d.carryOut cs) := by
  simp only [changes, buildUnder] at h
  rcases hload : c.loadUnder d i with ⟨fault | ⟨files, digest⟩, reports, c'⟩
  · simp [hload] at h
  · simp only [hload] at h
    rcases hconvert : c'.convertUnder i files digest with ⟨fault | b, more, c''⟩
    · simp [hconvert] at h
    · simp only [hconvert] at h
      have hwritten := Build.endsLike_write h
      rcases hwrite : b.write d c.settings.outDir with ⟨fault | written, d'⟩
      · simp only [runUnder, hload, hconvert, hwrite]
        exact (hwrite ▸ hwritten).error
      · simp only [runUnder, hload, hconvert, hwrite]
        exact (hwrite ▸ hwritten).ok

end Converter
end ScriptWeave
