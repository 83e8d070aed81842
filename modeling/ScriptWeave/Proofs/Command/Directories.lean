import ScriptWeave.Command.Program
import ScriptWeave.Proofs.Text.Climbing

/-!
The directories of a project: the one that it is in, and the one that receives its modules.

Where a project puts its output. Settings are checked as they are written, before the directory of
the project is known. An absolute output directory that passes is not the top directory; one that is
relative is not asked about, and leads there if it climbs far enough. Settings that are written
alike lead to the same directory only if they are refused.

Where a project is. Everything that a run looks up is looked up from one directory: that of the
nearest configuration file, or of the one that was named. A relative name is taken from the
directory that was found when the directory of the project is settled, but the file itself is read
as it is seen from the working directory.
-/

namespace ScriptWeave

open Text
open Text.Path (isAbsolute cleanElements climbs onward up)

variable {directory : String}

namespace Settings

variable {c : Settings}

theorem complaints_eq_nil_of_fault? (h : c.fault? = none) : c.complaints = [] := by
  rw [fault?, Fault.collect?] at h
  split at h
  · next hempty => simpa using hempty
  · cases h

theorem outDirCheck_eq_none_iff {root out : String} : outDirCheck root out = none ↔
    out ≠ "" ∧ Path.clean out ≠ Path.clean root ∧
      (isAbsolute out = true → Path.directory (Path.clean out) ≠ Path.clean out) := by
  simp only [outDirCheck, Check.all, Check.notEmpty, Check.ensure, Check.only, List.findSome?_cons,
    List.findSome?_nil]
  cases isAbsolute out <;> by_cases hempty : out = "" <;>
    by_cases hroot : Path.clean out = Path.clean root <;>
    by_cases htop : Path.directory (Path.clean out) = Path.clean out <;>
    simp [hempty, hroot, htop]

theorem outDirCheck_of_fault? (h : c.fault? = none) : outDirCheck c.root c.outDir = none := by
  have hnil := complaints_eq_nil_of_fault? h
  rw [complaints, List.filterMap_eq_nil_iff] at hnil
  exact hnil _ (List.mem_cons_of_mem _ List.mem_cons_self)

end Settings

namespace Project

variable {path path' : String}

theorem isAbsolute_resolve (hdirectory : isAbsolute directory = true) (path : String) :
    isAbsolute (resolve directory path) = true := by
  rw [resolve]
  split
  · next hpath => rwa [Path.isAbsolute_clean]
  · exact Path.isAbsolute_join hdirectory path

theorem clean_resolve (hdirectory : isAbsolute directory = true) (path : String) :
    Path.clean (resolve directory path) = resolve directory path := by
  rw [resolve]
  split
  · exact Path.clean_clean path
  · exact Path.clean_join_of_absolute hdirectory path

/-- A resolved path by its elements. -/
theorem cleanElements_resolve (hdirectory : isAbsolute directory = true) (path : String) :
    cleanElements (resolve directory path) = if isAbsolute path then cleanElements path else
      cleanElements (Path.up directory (climbs path)) ++ onward path := by
  rw [resolve]
  split
  · exact Path.cleanElements_clean path
  · next hpath => exact Path.cleanElements_join_relative hdirectory (Bool.not_eq_true _ ▸ hpath)

theorem resolve_eq_iff (hdirectory : isAbsolute directory = true) :
    resolve directory path = resolve directory path' ↔
      cleanElements (resolve directory path) = cleanElements (resolve directory path') := by
  rw [← clean_resolve hdirectory path, ← clean_resolve hdirectory path', Path.clean_eq_clean_iff,
    isAbsolute_resolve hdirectory, isAbsolute_resolve hdirectory, Path.cleanElements_clean,
    Path.cleanElements_clean]
  exact and_iff_right rfl

/-- A path leads to the top if it is absolute and has no elements, or else climbs so far. -/
theorem resolve_eq_top_iff (hdirectory : isAbsolute directory = true) :
    resolve directory path = "/" ↔ if isAbsolute path then cleanElements path = [] else
      onward path = [] ∧ (cleanElements directory).length ≤ climbs path := by
  rw [← clean_resolve hdirectory, Path.clean_eq_top_iff (isAbsolute_resolve hdirectory path),
    cleanElements_resolve hdirectory]
  split
  · exact Iff.rfl
  · rw [List.append_eq_nil_iff, Path.cleanElements_up hdirectory, List.take_eq_nil_iff,
      ← List.length_eq_zero_iff, and_comm]
    refine and_congr_right fun _ => ?_
    omega

/-- Paths that are written alike lead to the same place only if they are the same. -/
theorem clean_eq_of_resolve_eq (hdirectory : isAbsolute directory = true)
    (halike : isAbsolute path = isAbsolute path') (hclimbs : climbs path = climbs path')
    (h : resolve directory path = resolve directory path') :
    Path.clean path = Path.clean path' := by
  rw [resolve_eq_iff hdirectory, cleanElements_resolve hdirectory, cleanElements_resolve hdirectory,
    ← halike] at h
  refine Path.clean_eq_clean_iff.2 ⟨halike, ?_⟩
  split at h
  · exact h
  · rw [hclimbs, List.append_cancel_left_eq] at h
    rw [Path.cleanElements_eq path, Path.cleanElements_eq path', hclimbs, h]

/-- The output directory of settings that pass is the top directory exactly if it is written as a
relative path that climbs all the way up; and if it is the directory of the sources, the two are
written differently. -/
theorem outDir_placed {c : Settings} (hdirectory : isAbsolute directory = true)
    (h : c.fault? = none) :
    (resolve directory c.outDir = "/" ↔ isAbsolute c.outDir = false ∧ onward c.outDir = [] ∧
      (cleanElements directory).length ≤ climbs c.outDir) ∧
    (isAbsolute c.outDir = isAbsolute c.root → climbs c.outDir = climbs c.root →
      resolve directory c.outDir ≠ resolve directory c.root) := by
  obtain ⟨-, hdiffers, hnotTop⟩ :=
    Settings.outDirCheck_eq_none_iff.1 (Settings.outDirCheck_of_fault? h)
  refine ⟨?_, fun halike hclimbs hsame => ?_⟩
  · rw [resolve_eq_top_iff hdirectory]
    cases habsolute : isAbsolute c.outDir with
    | false => simp
    | true =>
        refine iff_of_false (fun hnil => ?_) (by simp)
        rw [if_pos rfl] at hnil
        have htop := (Path.clean_eq_top_iff habsolute).2 hnil
        refine hnotTop habsolute ?_
        rw [htop]
        decide
  · exact hdiffers (clean_eq_of_resolve_eq hdirectory halike hclimbs hsame)

theorem outDir_placed_beside : Settings.standard.fault? = none ∧ isAbsolute "/p" = true ∧
    resolve "/p" Settings.standard.outDir = "/p/build" ∧
    resolve "/p" Settings.standard.outDir ≠ "/" ∧
    resolve "/p" Settings.standard.outDir ≠ resolve "/p" Settings.standard.root := by
  have hfault : Settings.standard.fault? = none := by decide
  obtain ⟨htop, hroot⟩ := outDir_placed (show isAbsolute "/p" = true by decide) hfault
  refine ⟨hfault, by decide, by decide, fun h => ?_,
    hroot (by decide) (by decide)⟩
  exact absurd (htop.1 h).2.1 (by decide)

/-- A relative output directory may be the top directory, which the check does not ask about. -/
theorem outDir_on_top : ({ Settings.standard with outDir := ".." } : Settings).fault? = none ∧
    isAbsolute "/p" = true ∧ resolve "/p" ".." = "/" := by
  decide

end Project

namespace Project

variable {d : Disk} {start path : String} {k fuel : Nat}

/-- A directory, at or above another, is the nearest one that holds a configuration file. -/
def Nearest (d : Disk) (start directory : String) : Prop :=
  ∃ k, directory = up start k ∧ (configurationIn? d directory).isSome ∧
    ∀ j < k, configurationIn? d (up start j) = none

/-- Going upwards ends where no level leads any further. -/
theorem upwards_eq_levels (hstart : isAbsolute start = true)
    (hfuel : (cleanElements start).length ≤ fuel + k) :
    ∃ n, upwards fuel (up start k) = (List.range' k (n + 1)).map (up start) ∧
      up start (k + n + 1) = up start (k + n) := by
  induction fuel generalizing k with
  | zero =>
      refine ⟨0, rfl, ?_⟩
      rw [up, up, show (cleanElements start).length - (k + 0 + 1) = 0 by omega,
        show (cleanElements start).length - (k + 0) = 0 by omega]
  | succ fuel ih =>
      have hstep : upwards (fuel + 1) (up start k) = if up start (k + 1) = up start k
          then [up start k] else up start k :: upwards fuel (up start (k + 1)) := by
        rw [upwards, Path.directory_up hstart]
      by_cases htop : up start (k + 1) = up start k
      · exact ⟨0, hstep.trans (if_pos htop), htop⟩
      · obtain ⟨n, hlevels, hend⟩ := ih (k := k + 1) (by omega)
        refine ⟨n + 1, ?_, ?_⟩
        · rw [hstep, if_neg htop, hlevels, ← List.map_cons, ← List.range'_succ]
        · rwa [Nat.add_right_comm k 1 n] at hend

/-- The directory of a project is the nearest that holds a configuration file; if there is none, it
is the starting point. -/
theorem find_nearest (d : Disk) (hstart : isAbsolute start = true) :
    Nearest d start (find d start) ∨
      (∀ k, configurationIn? d (up start k) = none) ∧ find d start = Path.clean start := by
  have hfuel : (cleanElements start).length ≤ (Path.clean start).length + 1 + 0 := by
    rw [← Path.cleanElements_clean]
    exact Path.length_cleanElements_le _
  obtain ⟨n, hlevels, hend⟩ := upwards_eq_levels hstart hfuel
  rw [Path.up_zero hstart] at hlevels
  rw [find, hlevels, List.find?_map]
  cases hfound : (List.range' 0 (n + 1)).find?
      ((fun dir => (configurationIn? d dir).isSome) ∘ up start) with
  | some k =>
      obtain ⟨hholds, -, hnearer⟩ := List.find?_range'_eq_some.1 hfound
      refine .inl ⟨k, rfl, hholds, fun j hj => ?_⟩
      simpa using hnearer j (Nat.zero_le j) hj
  | none =>
      refine .inr ⟨fun k => ?_, rfl⟩
      have hnone := List.find?_range'_eq_none.1 hfound
      obtain hk | hk := Nat.lt_or_ge k (n + 1)
      · simpa using hnone k (Nat.zero_le k) (by omega)
      · have hlast := Path.up_add_of_up_succ hstart hend (k - (0 + n))
        rw [Nat.add_sub_cancel' (by omega)] at hlast
        rw [hlast]
        simpa using hnone (0 + n) (Nat.zero_le _) (by omega)

theorem configurationIn?_eq_some (hdirectory : isAbsolute directory = true)
    (h : configurationIn? d directory = some path) :
    isAbsolute path = true ∧ Path.clean path = path ∧
      Path.directory path = Path.clean directory := by
  have hnames : ∀ name ∈ configurationNames, Path.IsName name := by decide
  obtain ⟨name, hname, rfl⟩ := List.mem_map.1 (List.mem_of_find?_eq_some h)
  exact ⟨Path.isAbsolute_join hdirectory name, Path.clean_join_of_absolute hdirectory name,
    Path.directory_join_name hdirectory (hnames name hname)⟩

/-- A file that is decoded has a name. -/
theorem exists_onward_of_decodeFile {c c' : Settings} (h : decodeFile d path c = .ok c') :
    ∃ es name, onward path = es ++ [name] := by
  have hformat : lower (Path.extension path) ∈ [".toml", ".yaml", ".yml"] := by
    simp only [decodeFile] at h
    split at h
    · cases h
    · split at h
      · next hformat => simp [hformat]
      · split at h
        · next hformat => simpa using Or.inr hformat
        · cases h
  have hne (e : String) (hlast : (Path.elements path).getLastD "" = e)
      (hplain : lower (Path.extension e) ∉ [".toml", ".yaml", ".yml"])
      (hself : (Path.elements e).getLastD "" = e) : False := by
    rw [Path.extension, hself] at hplain
    rw [Path.extension, hlast] at hformat
    exact hplain hformat
  obtain ⟨es, hes⟩ := Path.exists_onward_of_last (p := path) rfl
    (fun hlast => hne "" hlast (by decide) (by decide))
    (fun hlast => hne "." hlast (by decide) (by decide))
    (fun hlast => hne ".." hlast (by decide) (by decide))
  exact ⟨es, _, hes⟩

/-- Loading reads nothing but the configuration file that is used and the variables beside it. -/
theorem Source.load_congr {s : Source} {d' : Disk} (hfile : s.fileUsed d' = s.fileUsed d)
    (hread : d'.read (s.fileUsed d) = d.read (s.fileUsed d))
    (hvariables : d'.read (Path.join [s.directory, ".env"]) =
      d.read (Path.join [s.directory, ".env"])) : s.load d' = s.load d := by
  have hoverlay (c : Settings) : s.overlay d' c = s.overlay d c := by
    rw [overlay, overlay, readVariables, readVariables, hvariables]
  simp only [load, hfile, hoverlay, decodeFile, hread]

end Project

namespace Command

open Project (configurationIn? decodeFile)

variable {d : Disk} {w : World} {p : Parsed} {start : String}

/-- The directory that relative paths are seen from. -/
def World.base (w : World) : String := w.working.toOption.getD "/"

/-- What the settings of a run are loaded from. -/
def sourceOf (d : Disk) (w : World) (p : Parsed) (start : String) : Project.Source :=
  ⟨projectDirectory d p start, p.text "config", w.environment⟩

section

variable (hworking : ∀ dir, w.working = .ok dir → isAbsolute dir = true)
include hworking

theorem World.isAbsolute_base : isAbsolute w.base = true := by
  rw [base]
  cases hdir : w.working with
  | ok dir => exact hworking dir hdir
  | error message => exact (by decide : isAbsolute "/" = true)

theorem absolute_of_startDirectory (hstart : startDirectory w p = .ok start) :
    isAbsolute start = true ∧ Path.clean start = start := by
  rw [startDirectory] at hstart
  split at hstart
  · next directory _ hdirectory =>
      cases hstart
      exact ⟨Project.isAbsolute_resolve (hworking directory hdirectory) _,
        Project.clean_resolve (hworking directory hdirectory) _⟩
  · split at hstart
    · next habsolute =>
        cases hstart
        exact ⟨(Path.isAbsolute_clean _).trans habsolute, Path.clean_clean _⟩
    · cases hstart
  · cases hstart
    exact ⟨Project.isAbsolute_resolve (by decide) _, Project.clean_resolve (by decide) _⟩
  · cases hstart

end

/-- The one directory that a run looks things up from. It is the nearest that holds a configuration
file, and then that of the file that is decoded, or the starting point if there is none; settings,
the variables beside them and the places that they name all go by it. It is the directory of a file
that was named, too, unless the name is relative and leads elsewhere from the working directory. -/
structure OneDirectory (d : Disk) (w : World) (p : Parsed) (start : String) : Prop where
  nearest : p.text "config" = "" →
    Project.Nearest d start (projectDirectory d p start) ∨
      (∀ k, configurationIn? d (up start k) = none) ∧ projectDirectory d p start = start ∧
        (sourceOf d w p start).fileUsed d = ""
  decoded : ∀ c c', (sourceOf d w p start).fileUsed d ≠ "" →
    decodeFile d ((sourceOf d w p start).fileUsed d) c = .ok c' →
      (Path.directory (Project.absolute w.base ((sourceOf d w p start).fileUsed d)) =
          projectDirectory d p start ↔
        p.text "config" = "" ∨ isAbsolute (p.text "config") = true ∨
          up (Project.find d start) (climbs (p.text "config")) =
            up w.base (climbs (p.text "config")))
  surroundings : ∀ d', (sourceOf d w p start).fileUsed d' = (sourceOf d w p start).fileUsed d →
    d'.read ((sourceOf d w p start).fileUsed d) = d.read ((sourceOf d w p start).fileUsed d) →
    d'.read (Path.join [projectDirectory d p start, ".env"]) =
      d.read (Path.join [projectDirectory d p start, ".env"]) →
    (sourceOf d w p start).load d' = (sourceOf d w p start).load d
  settled : ∀ s, settle d w p = .ok s → ∃ loaded, (sourceOf d w p start).load d = .ok loaded ∧
    s.directory = projectDirectory d p start ∧
    s.configuration = (sourceOf d w p start).fileUsed d ∧
    s.settings.root = Project.resolve (projectDirectory d p start)
      (applyLogFlags p (applyFlags p loaded)).root ∧
    s.settings.outDir = Project.resolve (projectDirectory d p start)
      (applyLogFlags p (applyFlags p loaded)).outDir

theorem settle_eq_ok {s : Setup} (hstart : startDirectory w p = .ok start)
    (h : settle d w p = .ok s) : ∃ loaded, (sourceOf d w p start).load d = .ok loaded ∧
      s.directory = projectDirectory d p start ∧
      s.configuration = (sourceOf d w p start).fileUsed d ∧
      s.settings.root = Project.resolve (projectDirectory d p start)
        (applyLogFlags p (applyFlags p loaded)).root ∧
      s.settings.outDir = Project.resolve (projectDirectory d p start)
        (applyLogFlags p (applyFlags p loaded)).outDir := by
  simp only [settle, hstart] at h
  cases hloaded : (sourceOf d w p start).load d with
  | error fault =>
      rw [sourceOf] at hloaded
      simp only [bind, Except.bind, hloaded] at h
      cases h
  | ok loaded =>
      refine ⟨loaded, rfl, ?_⟩
      rw [sourceOf] at hloaded
      simp only [bind, Except.bind, hloaded] at h
      split at h
      · cases h
      · cases hlogger : Logger.ofNames (applyLogFlags p (applyFlags p loaded)).logFormat
            (applyLogFlags p (applyFlags p loaded)).logLevel with
        | error fault => simp only [hlogger] at h; cases h
        | ok logger =>
            simp only [hlogger, pure, Except.pure] at h
            cases h
            exact ⟨rfl, rfl, rfl, rfl⟩

/-- Without a file that was named, the directory is the one that was found. -/
theorem projectDirectory_of_unnamed (h : p.text "config" = "") :
    projectDirectory d p start = Project.find d start ∧ (sourceOf d w p start).fileUsed d =
      (configurationIn? d (Project.find d start)).getD "" := by
  have hdirectory : projectDirectory d p start = Project.find d start := by
    rw [projectDirectory, if_pos h]
  exact ⟨hdirectory, by rw [Project.Source.fileUsed, sourceOf, if_pos h, hdirectory]⟩

theorem projectDirectory_of_named (h : p.text "config" ≠ "") :
    projectDirectory d p start =
        Path.directory (Project.resolve (Project.find d start) (p.text "config")) ∧
      (sourceOf d w p start).fileUsed d = p.text "config" := by
  constructor
  · rw [projectDirectory, if_neg h]
  · rw [Project.Source.fileUsed, sourceOf, if_neg h]

theorem isAbsolute_find (hstart : isAbsolute start = true) :
    isAbsolute (Project.find d start) = true ∧
      Path.clean (Project.find d start) = Project.find d start := by
  obtain ⟨k, hfind, -⟩ | ⟨-, hfind⟩ := Project.find_nearest d hstart <;> rw [hfind]
  · have habsolute : isAbsolute (up start k) = true := Path.isAbsolute_rooted _
    exact ⟨habsolute, by rw [Path.clean_eq_rooted habsolute, Path.cleanElements_up hstart, up]⟩
  · exact ⟨(Path.isAbsolute_clean start).trans hstart, Path.clean_clean start⟩

theorem oneDirectory (hworking : ∀ dir, w.working = .ok dir → isAbsolute dir = true)
    (hstart : startDirectory w p = .ok start) : OneDirectory d w p start := by
  obtain ⟨habsolute, hclean⟩ := absolute_of_startDirectory hworking hstart
  obtain ⟨hfound, hfoundClean⟩ := isAbsolute_find (d := d) habsolute
  refine ⟨fun hunnamed => ?_, fun c c' hused hdecoded => ?_,
    fun d' hfile hread hvariables => Project.Source.load_congr hfile hread hvariables,
    fun s hsettled => settle_eq_ok hstart hsettled⟩
  · obtain ⟨hdirectory, hused⟩ := @projectDirectory_of_unnamed d w p start hunnamed
    rw [hdirectory, hused]
    refine (Project.find_nearest d habsolute).imp_right fun ⟨hnone, hfind⟩ => ⟨hnone, ?_, ?_⟩
    · rw [hfind, hclean]
    · rw [hfind, ← Path.up_zero habsolute, hnone 0, Option.getD_none]
  · by_cases hunnamed : p.text "config" = ""
    · obtain ⟨hdirectory, hfile⟩ :=
        @projectDirectory_of_unnamed d w p start hunnamed
      rw [hfile] at hused
      obtain ⟨path, hpath⟩ : ∃ path, configurationIn? d (Project.find d start) = some path :=
        Option.ne_none_iff_exists'.1 fun hnone => hused (by rw [hnone, Option.getD_none])
      obtain ⟨hpathAbsolute, hpathClean, hpathDirectory⟩ :=
        Project.configurationIn?_eq_some hfound hpath
      refine iff_of_true ?_ (.inl hunnamed)
      rw [hfile, hpath, hdirectory, Option.getD_some, Project.absolute, if_pos hpathAbsolute,
        hpathClean, hpathDirectory, hfoundClean]
    · obtain ⟨hdirectory, hfile⟩ :=
        @projectDirectory_of_named d w p start hunnamed
      rw [hfile] at hdecoded
      rw [hfile, hdirectory]
      by_cases hnamed : isAbsolute (p.text "config") = true
      · refine iff_of_true ?_ (.inr (.inl hnamed))
        rw [Project.absolute, Project.resolve, if_pos hnamed, if_pos hnamed]
      · obtain ⟨es, name, hlast⟩ := Project.exists_onward_of_decodeFile hdecoded
        rw [Project.absolute, Project.resolve, if_neg hnamed, if_neg hnamed,
          Path.directory_join_eq_iff (World.isAbsolute_base hworking) hfound
            ((Bool.not_eq_true _).mp hnamed) hlast]
        exact ⟨fun h => .inr (.inr h.symm),
          fun h => ((h.resolve_left hunnamed).resolve_left hnamed).symm⟩

/-- A project that is worked on below its configuration file. -/
def configuredAbove : Disk := Disk.empty.put "/p/as2amd.yaml" "out_dir: o\n" 0

/-- A run in the directory `/p/src`. -/
def World.inSources : World := ⟨fun _ => none, .ok "/p/src", ⟨"", "", ""⟩⟩

theorem configuredAbove_oneDirectory :
    startDirectory .inSources .empty = .ok "/p/src" ∧
      OneDirectory configuredAbove .inSources .empty "/p/src" ∧
      projectDirectory configuredAbove .empty "/p/src" = "/p" ∧
      (sourceOf configuredAbove .inSources .empty "/p/src").fileUsed configuredAbove =
        "/p/as2amd.yaml" ∧
      (settle configuredAbove .inSources .empty).toOption.map (·.settings.outDir) =
        some "/p/o" := by
  have hworking (dir : String) (h : World.inSources.working = .ok dir) : isAbsolute dir = true := by
    cases h
    decide
  have hstart : startDirectory .inSources .empty = .ok "/p/src" :=
    congrArg Except.ok (by decide : Project.absolute "/" "/p/src" = "/p/src")
  exact ⟨hstart, oneDirectory hworking hstart, by decide +kernel⟩

/-- A configuration file that is seen from the working directory. -/
def configuredBeside : Disk := Disk.empty.put "c.yaml" "out_dir: o\n" 0

/-- A run in the directory `/w`. -/
def World.beside : World := ⟨fun _ => none, .ok "/w", ⟨"", "", ""⟩⟩

/-- What a run is told that is to convert the project `/p` by `c.yaml`. -/
def besideArguments : Parsed := ⟨[("config", "c.yaml")], ["/p"]⟩

/-- A file that is named by a relative path is read from the working directory, while everything
else is looked up from the directory that the name leads to from the project. -/
theorem configuredBeside_twoDirectories :
    startDirectory .beside besideArguments = .ok "/p" ∧
      (sourceOf configuredBeside .beside besideArguments "/p").fileUsed configuredBeside =
        "c.yaml" ∧
      (settle configuredBeside .beside besideArguments).toOption.map
        (fun s => (s.directory, s.configuration, s.settings.outDir)) =
          some ("/p", "c.yaml", "/p/o") ∧
      Path.directory (Project.absolute World.beside.base "c.yaml") = "/w" :=
  ⟨congrArg Except.ok (by decide : Project.absolute "/w" "/p" = "/p"), by decide +kernel⟩

end Command

end ScriptWeave
