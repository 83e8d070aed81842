import Mathlib
import ScriptWeave.Proofs.Build.Conversions
import ScriptWeave.Proofs.Web.History

/-!
What a server's past does to its answers. Texts of sources and builds are kept from one request to
the next; as long as a source of one time and size has one text, and hashes tell texts apart, a
server answers as one that was started just now.
-/

namespace ScriptWeave

/-- On the disks, a source of one time and size has one text. -/
def StampsTell (settings : Settings) (disks : List Disk) : Prop :=
  ∀ d ∈ disks, ∀ d' ∈ disks, ∀ path, Loader.SourceAt settings.loaderOptions settings.root d path →
    Loader.SourceAt settings.loaderOptions settings.root d' path → d.TellsApart d' path

/-- A text is hashed for the digest of the sources on one of the disks. -/
def HashedOn (settings : Settings) (disks : List Disk) (text : String) : Prop :=
  ∃ d ∈ disks, ∃ files, Loader.sources settings.loaderOptions d settings.root = .ok files ∧
    text ∈ Digest.hashedTexts files

/-- Disks whose sources are told apart by their times and sizes, and by their hashes. -/
structure Distinguished (settings : Settings) (disks : List Disk) : Prop where
  refusals : ∀ d ∈ disks, ∀ d' ∈ disks, d.refusals = d'.refusals
  stamps : StampsTell settings disks
  hashes : Digest.CollisionFree (HashedOn settings disks)

/-- A source of a project that was seen on some of the disks. -/
def SeenOn (settings : Settings) (disks : List Disk) (d : Disk) (path : String) : Prop :=
  d ∈ disks ∧ Loader.SourceAt settings.loaderOptions settings.root d path

namespace Distinguished

variable {settings : Settings} {disks : List Disk} {d d' : Disk}

theorem agreeAt (h : Distinguished settings disks) {path : String}
    (hseen : SeenOn settings disks d path) (hseen' : SeenOn settings disks d' path) :
    d.AgreeAt d' path :=
  (h.stamps d hseen.1 d' hseen'.1 path hseen.2 hseen'.2).agreeAt
    (h.refusals d hseen.1 d' hseen'.1)

/-- Sources with one digest are the same sources. -/
theorem digested_inj (h : Distinguished settings disks) {files files' : List SourceFile}
    {digest : String} (hd : d ∈ disks) (hd' : d' ∈ disks)
    (hfiles : settings.digested d = .ok (files, digest))
    (hfiles' : settings.digested d' = .ok (files', digest)) : files = files' := by
  obtain ⟨hsources, hdigest⟩ := Settings.sources_of_digested hfiles
  obtain ⟨hsources', hdigest'⟩ := Settings.sources_of_digested hfiles'
  refine Digest.ofSources?_inj (Loader.ordered_sources hsources) (Loader.ordered_sources hsources')
    hdigest hdigest' fun t t' ht ht' => h.hashes t t' ?_ ?_
  · exact ht.elim (fun ht => ⟨d, hd, files, hsources, ht⟩) fun ht =>
      ⟨d', hd', files', hsources', ht⟩
  · exact ht'.elim (fun ht => ⟨d, hd, files, hsources, ht⟩)
      fun ht => ⟨d', hd', files', hsources', ht⟩

end Distinguished

/-- What the sources on a disk are converted to if nothing disturbs that. -/
def Converter.plainBuild (c : Converter) (d : Disk) : Except Fault Build :=
  match c.settings.digested d with
  | .error fault => .error fault
  | .ok (files, digest) => c.plain files digest

namespace Server

/-- Sources that were found on one of the disks. -/
def FoundOn (fresh : Server) (disks : List Disk) (files : List SourceFile) (digest : String) :
    Prop :=
  ∃ d ∈ disks, fresh.converter.settings.digested d = .ok (files, digest)

/-- The build of sources that were found on one of the disks. -/
def BuildOn (fresh : Server) (disks : List Disk) (digest : String) (b : Build) : Prop :=
  ∃ files, FoundOn fresh disks files digest ∧ fresh.converter.plain files digest = .ok b

/-- A server that holds nothing but what it found on the disks. Its builds are those that a fresh
server makes if nothing disturbs it. -/
structure Honest (fresh : Server) (disks : List Disk) (s : Server) : Prop where
  engine : s.engine = fresh.engine
  converter : fresh.converter.Extends s.converter
  loads : s.converter.LoadsFrom (SeenOn fresh.converter.settings disks)
  builds : ∀ digest b, (digest, b) ∈ s.builds.items → BuildOn fresh disks digest b
  leftovers : ∀ l ∈ s.leftovers, FoundOn fresh disks l.files l.digest

/-- The build of the sources on the disk is kept. -/
def Keeps (s : Server) (d : Disk) : Prop :=
  ∀ files digest, s.converter.settings.digested d = .ok (files, digest) →
    (s.builds.get? digest).isSome = true

/-- The sources on the disk are being converted for a client that has left. -/
def Occupied (s : Server) (d : Disk) : Prop :=
  ∃ files digest, s.converter.settings.digested d = .ok (files, digest) ∧
    (s.leftover? digest).isSome = true

theorem not_occupied_of_nil {s : Server} (h : s.leftovers = []) (d : Disk) : ¬s.Occupied d := by
  rintro ⟨_, digest, _, hleft⟩
  rw [leftover?, h] at hleft
  cases hleft

section

variable {fresh s : Server} {disks : List Disk} {d : Disk} {c : Converter} {files : List SourceFile}
  {digest : String}

structure Fresh (s : Server) : Prop where
  cache : s.converter.loader.cache = .empty
  options : s.converter.loader.options = s.converter.settings.loaderOptions
  faulted : s.converter.faulted = false
  builds : s.builds.items = []
  leftovers : s.leftovers = []

theorem fresh_of_create {engine : Engine} {settings : Settings} {reporter : Reporter}
    {scripts : ScriptEngine} {cacheSize : Int}
    (h : create engine (.ofSettings settings reporter scripts) cacheSize = .ok s) : s.Fresh := by
  rw [create] at h
  split at h
  · cases h
  · cases h
    exact ⟨rfl, rfl, rfl, rfl, rfl⟩

theorem settings_of_create {engine : Engine} {cacheSize : Int}
    (h : create engine c cacheSize = .ok s) : s.engine = engine ∧ s.converter = c := by
  rw [create] at h
  split at h
  · cases h
  · cases h
    exact ⟨rfl, rfl⟩

theorem Fresh.quiet (h : s.Fresh) : s.converter.Quiet := by
  rw [Converter.Quiet, h.faulted, Bool.and_false]

theorem Fresh.honest (h : s.Fresh) (disks : List Disk) : Honest s disks s :=
  ⟨rfl, .refl _, ⟨h.cache ▸ ContentCache.from_empty, h.options⟩,
    fun _ _ hmem => absurd (h.builds ▸ hmem) List.not_mem_nil,
    fun _ hmem => absurd (h.leftovers ▸ hmem) List.not_mem_nil⟩

/-- What a server comes to know of the sources on a disk that it may see. -/
structure Seeks (fresh : Server) (disks : List Disk) (s : Server) (d : Disk) (i : Interruption)
    (sought : Except Fault Sought × Server) : Prop where
  honest : Honest fresh disks sought.2
  failed : ∀ fault, sought.1 = .error fault → (∀ n, i.reading n = false) →
    fresh.converter.settings.digested d = .error fault
  kept : ∀ b, sought.1 = .ok (.kept b) → ∃ files digest,
    fresh.converter.settings.digested d = .ok (files, digest) ∧
      (s.builds.get? digest).isSome = true ∧ fresh.converter.plain files digest = .ok b
  missing : ∀ files digest, sought.1 = .ok (.missing files digest) →
    fresh.converter.settings.digested d = .ok (files, digest) ∧ s.builds.get? digest = none ∧
      ∃ c, sought.2 = { s with converter := c } ∧ c.faulted = s.converter.faulted

theorem Honest.seek (hdisks : Distinguished fresh.converter.settings disks)
    (h : Honest fresh disks s) (hd : d ∈ disks) (i : Interruption) :
    Seeks fresh disks s d i (s.seek d i) := by
  have hseen (path : String) (hpath : Loader.SourceAt s.converter.settings.loaderOptions
      s.converter.settings.root d path) : SeenOn fresh.converter.settings disks d path :=
    ⟨hd, h.converter.settings ▸ hpath⟩
  obtain ⟨outcome, reports, c, hload, hextends, hloads, hfaulted, houtcome⟩ :=
    Converter.loadUnder_eq h.loads hseen
      (fun path d' hpath hseen' => hdisks.agreeAt hseen' (hseen path hpath)) i
  rw [h.converter.settings] at houtcome
  have hnext : Honest fresh disks { s with converter := c } :=
    ⟨h.engine, h.converter.trans hextends, hloads, h.builds, h.leftovers⟩
  rw [Server.seek, hload]
  cases outcome with
  | error fault =>
      refine ⟨hnext, fun _ hfault hgoing => ?_, nofun, nofun⟩
      cases hfault
      obtain hdigested | ⟨⟨n, hreading⟩, _⟩ := houtcome
      · exact hdigested.symm
      · rw [hgoing n] at hreading
        cases hreading
  | ok loaded =>
      obtain ⟨files, digest⟩ := loaded
      have hfiles : fresh.converter.settings.digested d = .ok (files, digest) := by
        obtain hdigested | ⟨_, hfault⟩ := houtcome
        · exact hdigested.symm
        · cases hfault
      dsimp only
      cases hkept : s.builds.get? digest with
      | none =>
          refine ⟨hnext, nofun, nofun, fun _ _ hmissing => ?_⟩
          cases hmissing
          exact ⟨hfiles, hkept, c, rfl, hfaulted _ rfl⟩
      | some kept =>
          obtain ⟨b, builds⟩ := kept
          have hbuilds : ∀ digest b, (digest, b) ∈ builds.items → BuildOn fresh disks digest b :=
            fun digest b hmem => h.builds digest b (Recent.items_of_get? hkept hmem)
          refine ⟨⟨hnext.engine, hnext.converter, hnext.loads, hbuilds, hnext.leftovers⟩, nofun,
            fun _ hb => ?_, nofun⟩
          cases hb
          obtain ⟨files', ⟨d', hd', hfiles'⟩, hplain⟩ :=
            h.builds digest b (Recent.mem_of_get? hkept)
          rw [← hdisks.digested_inj hd hd' hfiles hfiles'] at hplain
          exact ⟨files, digest, hfiles, by rw [hkept]; rfl, hplain⟩

theorem outcome_of_conclude (s : Server) (l : Leftover) :
    (s.conclude l).1 = (s.converter.convertAmid l.interruption
      (heardAt l.heard s.converter.faulted) l.files l.digest).1 := by
  rw [conclude]
  rcases s.converter.convertAmid l.interruption (heardAt l.heard s.converter.faulted) l.files
    l.digest with ⟨fault | b, reports⟩ <;> rfl

/-- What is left of a server whose sources could not be converted. -/
theorem conclude_of_fault {l : Leftover} {fault : Fault} {reports : List Report}
    (h : s.converter.convertAmid l.interruption (heardAt l.heard s.converter.faulted) l.files
      l.digest = (.error fault, reports)) :
    s.conclude l = (.error fault, [], { s with
      converter := s.converter.after reports
      leftovers := s.leftovers.filter (·.digest ≠ l.digest) }) := by
  rw [conclude, h]

/-- Whatever disturbs a conversion, the build that it ends with is the one of its sources. -/
theorem Honest.conclude (h : Honest fresh disks s) (l : Leftover)
    (hfound : FoundOn fresh disks l.files l.digest) : Honest fresh disks (s.conclude l).2.2 := by
  rw [Server.conclude]
  rcases hconverted : s.converter.convertAmid l.interruption (heardAt l.heard s.converter.faulted)
    l.files l.digest with ⟨outcome, reports⟩
  have hafter : fresh.converter.Extends (s.converter.after reports) :=
    h.converter.trans (s.converter.extends_after s.converter.loader reports)
  have hleft : ∀ l' ∈ s.leftovers.filter (·.digest ≠ l.digest),
      FoundOn fresh disks l'.files l'.digest :=
    fun l' hl' => h.leftovers l' (List.mem_of_mem_filter hl')
  cases outcome with
  | error fault => exact ⟨h.engine, hafter, ⟨h.loads.cache, h.loads.options⟩, h.builds, hleft⟩
  | ok b =>
      refine ⟨h.engine, hafter, ⟨h.loads.cache, h.loads.options⟩, fun digest b' hmem => ?_, hleft⟩
      obtain hnew | hold := Recent.mem_insert hmem
      · cases hnew
        have hplain := Converter.plain_of_convertAmid (congrArg Prod.fst hconverted)
        exact ⟨l.files, hfound, (Converter.plain_congr h.converter _ _).symm.trans hplain⟩
      · exact h.builds digest b' hold

theorem lasting_honest (hdisks : Distinguished fresh.converter.settings disks) :
    Lasting (· ∈ disks) (FoundOn fresh disks) (Honest fresh disks) where
  seek _ _ i hd hs := (hs.seek hdisks hd i).honest
  missing _ d i _ _ hd hs hmissing := ⟨d, hd, ((hs.seek hdisks hd i).missing _ _ hmissing).1⟩
  leftover _ _ hs hl := hs.leftovers _ hl
  conclude _ l hfound hs := hs.conclude l hfound
  ask s digest hs := by
    refine ⟨hs.engine, hs.converter, hs.loads, hs.builds, fun l hl => ?_⟩
    obtain ⟨old, hold, rfl⟩ := List.mem_map.1 hl
    split <;> exact hs.leftovers old hold

theorem outlasting_honest : Outlasting (FoundOn fresh disks) (Honest fresh disks) :=
  fun _ _ hfound hs => ⟨hs.engine, hs.converter, hs.loads, hs.builds,
    List.forall_mem_append.2 ⟨hs.leftovers, List.forall_mem_singleton.2 hfound⟩⟩

section

variable (hdisks : Distinguished fresh.converter.settings disks) (h : Honest fresh disks s)
  (hd : d ∈ disks)
include hdisks h hd

/-- A server finds out why there is no build of the sources, keeps it, or makes it if it is left to
itself. -/
theorem current_cases :
    (∃ fault, fresh.converter.settings.digested d = .error fault ∧
      (s.current d false).1 = .error fault) ∨
    (∃ files digest b, fresh.converter.settings.digested d = .ok (files, digest) ∧
      (s.builds.get? digest).isSome = true ∧ fresh.converter.plain files digest = .ok b ∧
      (s.current d false).1 = .ok b) ∨
    ∃ files digest c, fresh.converter.settings.digested d = .ok (files, digest) ∧
      s.builds.get? digest = none ∧ fresh.converter.Extends c ∧
      c.faulted = s.converter.faulted ∧ (¬s.Occupied d →
        s.current d false = { s with converter := c }.conclude ⟨files, digest, .never, []⟩) := by
  have hseeks := h.seek hdisks hd (.always false)
  rw [current]
  generalize s.seek d (.always false) = sought at hseeks ⊢
  obtain ⟨fault | b | ⟨files, digest⟩, s'⟩ := sought
  · exact .inl ⟨fault, hseeks.failed fault rfl fun _ => rfl, rfl⟩
  · obtain ⟨files, digest, hfiles, hkept, hplain⟩ := hseeks.kept b rfl
    exact .inr (.inl ⟨files, digest, b, hfiles, hkept, hplain, rfl⟩)
  · obtain ⟨hfiles, hmissing, c, rfl, hfaulted⟩ := hseeks.missing files digest rfl
    refine .inr (.inr ⟨files, digest, c, hfiles, hmissing, hseeks.honest.converter, hfaulted, ?_⟩)
    intro hfree
    have hnone : { s with converter := c }.leftover? digest = none := by
      rw [← Option.not_isSome_iff_eq_none]
      exact fun hleft => hfree ⟨files, digest, h.converter.settings ▸ hfiles, hleft⟩
    dsimp only
    rw [hnone]
    rfl

/-- A server that has the build, or makes it by itself and hears of no fault, gives the build that
the sources come to. -/
theorem current_eq_plainBuild (hready : s.Keeps d ∨ s.converter.Quiet ∧ ¬s.Occupied d) :
    (s.current d false).1 = fresh.converter.plainBuild d := by
  rw [Converter.plainBuild]
  obtain ⟨fault, hfault, hgiven⟩ | ⟨files, digest, b, hfiles, _, hplain, hgiven⟩ |
    ⟨files, digest, c, hfiles, hmissing, hextends, hfaulted, hgiven⟩ := current_cases hdisks h hd
  · rw [hgiven, hfault]
  · rw [hgiven, hfiles]
    exact hplain.symm
  · obtain hkeeps | ⟨hquiet, hfree⟩ := hready
    · have hkept := hkeeps files digest (h.converter.settings ▸ hfiles)
      rw [hmissing] at hkept
      cases hkept
    · have hquiet' : c.Quiet := by
        rw [Converter.Quiet, hextends.reporter, hfaulted, ← h.converter.reporter]
        exact hquiet
      rw [hgiven hfree, outcome_of_conclude, hfiles]
      exact (congrArg Prod.fst (Converter.convertAmid_of_quiet hquiet' files digest)).trans
        (Converter.plain_congr hextends files digest)

/-- A server that hears of a fault from before gives no build but those that it keeps. -/
theorem exists_fault_of_current (hheard : ¬s.converter.Quiet) (hempty : s.builds.items = [])
    (hfree : ¬s.Occupied d) : ∃ fault, (s.current d false).1 = .error fault := by
  obtain ⟨fault, _, hgiven⟩ | ⟨_, digest, _, _, hkept, _⟩ |
    ⟨files, digest, c, _, _, hextends, hfaulted, hgiven⟩ := current_cases hdisks h hd
  · exact ⟨fault, hgiven⟩
  · rw [Recent.get?, hempty] at hkept
    cases hkept
  · have hheard' : ¬c.Quiet := by
      rw [Converter.Quiet, hextends.reporter, hfaulted, ← h.converter.reporter]
      exact hheard
    rw [hgiven hfree, outcome_of_conclude]
    exact Converter.exists_fault_of_not_quiet hheard' _ files digest

/-- A conversion that fails leaves no build, and its faults to be heard. -/
theorem server_of_failed_current (hquiet : s.converter.Quiet) (hempty : s.builds.items = [])
    (hfree : ¬s.Occupied d) {fault : Fault} {reports : List Report}
    (hfiles : fresh.converter.settings.digested d = .ok (files, digest))
    (hfails : fresh.converter.convertAmid .never (fun _ => false) files digest =
      (.error fault, reports)) :
    (s.current d false).2.2.builds.items = [] ∧
      ((s.current d false).2.2.converter.Quiet →
        (fresh.converter.reporter.hears && reports.any (·.isFault)) = false) := by
  obtain ⟨_, hfault, _⟩ | ⟨_, _, _, _, hkept, _⟩ |
    ⟨files', digest', c, hfiles', _, hextends, hfaulted, hgiven⟩ := current_cases hdisks h hd
  · rw [hfiles] at hfault
    cases hfault
  · rw [Recent.get?, hempty] at hkept
    cases hkept
  · rw [hfiles] at hfiles'
    cases hfiles'
    have hquiet' : c.Quiet := by
      rw [Converter.Quiet, hextends.reporter, hfaulted, ← h.converter.reporter]
      exact hquiet
    rw [← Converter.convertAmid_congr hextends, ← Converter.convertAmid_of_quiet hquiet'] at hfails
    rw [hgiven hfree, conclude_of_fault hfails]
    refine ⟨hempty, fun hafter => ?_⟩
    rw [Converter.Quiet, Converter.after, hextends.reporter, Bool.and_or_distrib_left,
      Bool.or_eq_false_iff] at hafter
    exact hafter.2

end

/-- The answer to a request depends on a server only through the build that it gives. -/
theorem response_congr {s' : Server} {r : Request} (hengine : s.engine = s'.engine)
    (hcurrent : (s.current d (s.engine.noticesCancelled r)).1 =
      (s'.current d (s.engine.noticesCancelled r)).1)
    (hasked : ∀ values, Engine.dispatch (routing s.engine) r ≠ .ok (.health, values)) :
    (s.serve d r).1 = (s'.serve d r).1 := by
  rw [serve, serve, handle, handle, ← hengine]
  cases hfound : Engine.dispatch (routing s.engine) r with
  | error miss => rfl
  | ok found =>
      obtain ⟨resource, values⟩ := found
      have hresource : resource ≠ .health := by
        rintro rfl
        exact hasked values hfound
      dsimp only
      rw [respond, respond, if_neg hresource, if_neg hresource]
      generalize s.current d (s.engine.noticesCancelled r) = given at hcurrent ⊢
      generalize s'.current d (s.engine.noticesCancelled r) = given' at hcurrent ⊢
      obtain ⟨outcome, entries, s₁⟩ := given
      obtain ⟨outcome', entries', s₁'⟩ := given'
      cases hcurrent
      cases outcome with
      | error fault => rfl
      | ok b =>
          rw [present, present, ← hengine]
          cases buildResponse b (s.engine.parameter values "*") resource <;> rfl

/-- Without clients that leave there is nothing left over. -/
theorem lasting_leftovers : Lasting (fun _ => True) (fun _ _ => True) (·.leftovers = []) where
  seek s d i _ hs := by
    rw [seek]
    split
    · exact hs
    · split <;> exact hs
  missing _ _ _ _ _ _ _ _ := trivial
  leftover _ _ _ _ := trivial
  conclude s l _ hs := by
    rw [conclude]
    rcases s.converter.convertAmid l.interruption (heardAt l.heard s.converter.faulted) l.files
      l.digest with ⟨fault | b, reports⟩ <;> simp [hs]
  ask s digest hs := by simp [ask, hs]

end

end Server

namespace Served

section

variable {engine : Engine} {settings : Settings} {reporter : Reporter} {scripts : ScriptEngine}
  {cacheSize : Int} {v : Served} {events : List ProjectEvent}
  (hstart : Server.create engine (.ofSettings settings reporter scripts) cacheSize = .ok v.server)
include hstart

theorem settings_of_start : v.server.engine = engine ∧ v.server.converter.settings = settings ∧
    v.server.converter.reporter = reporter := by
  obtain ⟨hengine, hconverter⟩ := Server.settings_of_create hstart
  rw [hconverter]
  exact ⟨hengine, rfl, rfl⟩

/-- What is seen is told apart, as edits leave what a disk refuses alone. -/
theorem distinguished_of_start (hstamps : StampsTell settings (v.seen events))
    (hhashes : Digest.CollisionFree (HashedOn settings (v.seen events))) :
    Distinguished v.server.converter.settings (v.seen events) := by
  rw [(settings_of_start hstart).2.1]
  exact ⟨fun d hd d' hd' => (refusals_of_mem_seen d hd).trans (refusals_of_mem_seen d' hd').symm,
    hstamps, hhashes⟩

/-- A server that was started afresh stays honest, whatever happens to its project. -/
theorem honest_of_start (hstamps : StampsTell settings (v.seen events))
    (hhashes : Digest.CollisionFree (HashedOn settings (v.seen events))) :
    Server.Honest v.server (v.seen events) (v.run events).server :=
  lasting_run (Server.lasting_honest (distinguished_of_start hstart hstamps hhashes))
    (fun _ _ _ => Server.outlasting_honest) (fun _ hd => hd)
    ((Server.fresh_of_create hstart).honest _)

/-- A reporter that hears nothing signals no fault, whatever happened. -/
theorem quiet_run_of_deaf (hdeaf : reporter.hears = false)
    (hstamps : StampsTell settings (v.seen events))
    (hhashes : Digest.CollisionFree (HashedOn settings (v.seen events))) :
    (v.run events).server.converter.Quiet := by
  have hreporter := (honest_of_start hstart hstamps hhashes).converter.reporter
  exact Converter.quiet_of_deaf (by rw [hreporter, (settings_of_start hstart).2.2, hdeaf])

/-- If no client leaves, no conversion is under way between the requests. -/
theorem not_occupied_run (hstay : ∀ r i, .leave r i ∉ events) (d : Disk) :
    ¬(v.run events).server.Occupied d :=
  Server.not_occupied_of_nil (lasting_run Server.lasting_leftovers
    (fun r i hleave => absurd hleave (hstay r i)) (fun _ _ => trivial)
    (Server.fresh_of_create hstart).leftovers) d

/-- After any history of edits and requests, a server answers as one that was started just now, if
it keeps the build of the sources, or if its reporter signals no fault of an earlier conversion and
no client has left one of these sources under way. -/
theorem answer_run_eq (events : List ProjectEvent) {r : Request}
    (hasked : ∀ values, Engine.dispatch (Server.routing engine) r ≠ .ok (.health, values))
    (hcancelled : engine.noticesCancelled r = false)
    (hready : (v.run events).server.Keeps (v.run events).disk ∨
      (v.run events).server.converter.Quiet ∧ ¬(v.run events).server.Occupied (v.run events).disk)
    (hstamps : StampsTell settings (v.seen events))
    (hhashes : Digest.CollisionFree (HashedOn settings (v.seen events))) :
    (v.run events).answer r = answer { v.run events with server := v.server } r := by
  have hfresh := Server.fresh_of_create hstart
  rw [← (settings_of_start hstart).1] at hasked hcancelled
  have hdisks := distinguished_of_start hstart hstamps hhashes
  have hhonest := honest_of_start hstart hstamps hhashes
  have hlast := disk_run_mem_seen v events
  have hgiven := Server.current_eq_plainBuild hdisks hhonest hlast hready
  have hgivenFresh := Server.current_eq_plainBuild hdisks (hfresh.honest _) hlast
    (.inr ⟨hfresh.quiet, Server.not_occupied_of_nil hfresh.leftovers _⟩)
  refine Server.response_congr hhonest.engine ?_ (hhonest.engine ▸ hasked)
  rw [hhonest.engine, hcancelled, hgiven, hgivenFresh]

end

end Served

def Response.content (r : Response) : String :=
  match r.body with
  | .empty => ""
  | .text content => content
  | .json content => content.compact

namespace Server

section

variable {s : Server} {d : Disk} {paths : List String} {q : Loader.Progress} {digest : String}
  {fault : Fault}

theorem load_of_readAll {c : Converter} (hlist : c.loader.list d c.settings.root = .ok paths)
    (hread : Loader.readAll d c.settings.root (fun _ => false) 0 ⟨[], [], [], c.loader⟩ paths =
      (q, false))
    (hissues : q.issues.isEmpty = true) (hdigest : Digest.ofSources? q.files = some digest) :
    ∃ reports, c.loadUnder d (.always false) =
      (.ok (q.files, digest), reports, { c with loader := q.loader }.after reports) := by
  have hload : c.loader.loadUnder d c.settings.root (fun _ => false) =
      ⟨.ok q.files, q.reports ++ [Loader.finished c.loader.cache q.files.length q.loader.cache],
        q.loader⟩ := by
    rw [Loader.loadUnder, hlist]
    simp only [hread, hissues, if_pos]
  rw [Converter.loadUnder]
  simp only [Interruption.always, hload, hdigest]
  exact ⟨_, rfl⟩

/-- A server that has kept nothing converts the sources that it has read. -/
theorem current_of_load {c : Converter} {files : List SourceFile} {reports : List Report}
    (hload : s.converter.loadUnder d (.always false) = (.ok (files, digest), reports, c))
    (hbuilds : s.builds.items = []) (hfree : s.leftovers = []) :
    s.current d false = { s with converter := c }.conclude ⟨files, digest, .never, []⟩ := by
  have hkept : s.builds.get? digest = none := by rw [Recent.get?, hbuilds]; rfl
  have hnone : { s with converter := c }.leftover? digest = none := by rw [leftover?, hfree]; rfl
  rw [current, seek, hload]
  simp only [hkept, hnone]
  rfl

end

end Server

namespace Served

def plainSettings : Settings := { Settings.standard with root := "/p", noSubstitutions := true }

/-- A disk with one source of that project. -/
def oneSource (text : String) (modified : Int) : Disk := Disk.empty.put "/p/A.as" text modified

def plainServer : Server := ⟨.echo, .ofSettings plainSettings .discard, .empty 1, []⟩

def manifestRequest : Request :=
  ⟨"GET", ⟨"/manifest.json", "/manifest.json".toUTF8.toList, "", false⟩, [], false⟩

theorem dispatch_manifestRequest :
    Engine.dispatch (Server.routing .echo) manifestRequest = .ok (.manifest, []) := by
  decide +kernel

theorem serve_manifestRequest {s : Server} (h : s.engine = .echo) (d : Disk) :
    (s.serve d manifestRequest).1 =
        (s.present manifestRequest .manifest [] (s.current d false)).1 ∧
      (s.serve d manifestRequest).2.2 = (s.current d false).2.2 := by
  rw [Server.serve, Server.handle, h, dispatch_manifestRequest]
  dsimp only
  rw [Server.respond, if_neg (by decide)]
  exact ⟨rfl, Server.server_of_present _ _ _ _ _⟩

/-- How the conversion of a source alone ends. -/
def ends (c : Converter) (text : String) :
    Except Fault (Pipeline.Result Resolve.Module) × Pipeline.Journal :=
  Pipeline.run .actionScript (c.signals .never fun _ => false)
    (.sequential c.settings.conflictPolicy) [⟨"A.as", text⟩]

/-- Why a source alone cannot be converted. -/
def refusal? (c : Converter) (text : String) : Option Fault :=
  match (ends c text).1 with
  | .error fault => some fault
  | .ok _ => none

theorem ends_of_refusal? {c : Converter} {text : String} {fault : Fault}
    (h : refusal? c text = some fault) : ends c text = (.error fault, (ends c text).2) := by
  rw [refusal?] at h
  rcases hends : ends c text with ⟨fault' | result, journal⟩
  · rw [hends] at h
    cases h
    rfl
  · rw [hends] at h
    cases h

theorem paths_oneSource : Disk.locate "/p" = "/p" ∧ Disk.locate "/p/A.as" = "/p/A.as" ∧
    Disk.ancestors ("/p/A.as".length + 1) "/p/A.as" = ["/p", "/"] ∧
    Text.Path.join ["/p", "A.as"] = "/p/A.as" ∧ Text.Path.clean "/p/A.as" = "/p/A.as" ∧
    Text.Path.base "/p/A.as" = "A.as" ∧
    (Loader.walkOptions plainSettings.loaderOptions).file "A.as" = true := by
  decide

theorem oneSource_eq (text : String) (modified : Int) :
    oneSource text modified = ⟨[("/", ⟨"", 0, true, ["/p"]⟩), ("/p", ⟨"", 0, true, ["/p/A.as"]⟩),
      ("/p/A.as", ⟨text, modified, false, []⟩)], [], 2000000000⟩ := by
  obtain ⟨-, hsource, habove, -⟩ := paths_oneSource
  rw [oneSource, Disk.put, Disk.node?, hsource, Disk.place, habove]
  rfl

theorem put_oneSource (text text' : String) (modified modified' : Int) :
    (oneSource text modified).put "/p/A.as" text' modified' = oneSource text' modified' := by
  obtain ⟨-, hsource, -⟩ := paths_oneSource
  rw [oneSource_eq, oneSource_eq, Disk.put, Disk.node?, hsource]
  rfl

theorem stat_oneSource (text : String) (modified : Int) :
    (oneSource text modified).stat "/p/A.as" = .ok ⟨text, modified, false, []⟩ := by
  obtain ⟨-, hsource, -⟩ := paths_oneSource
  rw [Disk.stat, Disk.openDirect, Disk.node?, hsource, oneSource_eq]
  rfl

theorem read_oneSource (text : String) (modified : Int) :
    (oneSource text modified).read "/p/A.as" = .ok text := by
  obtain ⟨-, hsource, -⟩ := paths_oneSource
  rw [Disk.read, Disk.openNode, Disk.openDirect, Disk.node?, hsource, oneSource_eq]
  rfl

theorem walk_oneSource (text : String) (modified : Int) :
    (oneSource text modified).walk (Loader.walkOptions plainSettings.loaderOptions) "/p" =
      .ok ["A.as"] := by
  obtain ⟨hroot, hsource, -, hjoin, -, hbase, htaken⟩ := paths_oneSource
  simp [Disk.walk, Disk.visit, Disk.visitAll, Disk.stat, Disk.refusal?, Disk.openDirect, Disk.list,
    Disk.openNode, Disk.entriesOf, Disk.node?, oneSource_eq, hroot, hsource, hjoin, hbase, htaken,
    Disk.below, Except.map, List.lookup_cons]

/-- A loader that has read the source, and been asked for it again so many times. -/
def readBefore (text : String) (modified : Int) (hits : Nat) : Loader :=
  ⟨plainSettings.loaderOptions,
    [("/p/A.as", ⟨text, modified, text.utf8ByteSize⟩)], hits, 1⟩

theorem readText_oneSource (text : String) (modified : Int) :
    (Loader.ofOptions plainSettings.loaderOptions).readText (oneSource text modified) "/p" "A.as" =
      (.ok text, readBefore text modified 0) := by
  obtain ⟨-, -, -, hjoin, hclean, -⟩ := paths_oneSource
  rw [Loader.readText, show Loader.replacement?
    (Loader.ofOptions plainSettings.loaderOptions).options "A.as" = none from rfl]
  simp only [hjoin, ContentCache.read, hclean, ContentCache.readPath, FileCache.validate,
    stat_oneSource, read_oneSource, FileCache.recordIfPossible, FileCache.record]
  rfl

theorem sources_oneSource (text : String) (modified : Int) :
    Loader.sources plainSettings.loaderOptions (oneSource text modified) "/p" =
      .ok [⟨"A.as", text⟩] := by
  have hplain : Loader.plainText plainSettings.loaderOptions (oneSource text modified) "/p" "A.as" =
      .ok text := by
    rw [Loader.plainText, readText_oneSource]
  simp [Loader.sources, walk_oneSource, Loader.unreadable, Loader.readable, hplain]

theorem tellsApart_oneSource {text text' : String} {modified modified' : Int}
    (h : modified = modified' → text = text') (path : String) :
    (oneSource text modified).TellsApart (oneSource text' modified') path := by
  intro node node' hnode hnode' hmodified _
  rw [Disk.node?, oneSource_eq, List.lookup_cons, List.lookup_cons, List.lookup_cons]
    at hnode hnode'
  generalize (Disk.locate path == "/") = isTop at *
  generalize (Disk.locate path == "/p") = isRoot at *
  generalize (Disk.locate path == "/p/A.as") = isSource at *
  cases isTop with
  | true =>
      cases hnode
      cases hnode'
      rfl
  | false =>
      cases isRoot with
      | true =>
          cases hnode
          cases hnode'
          rfl
      | false =>
          cases isSource with
          | true =>
              cases hnode
              cases hnode'
              exact h hmodified
          | false => cases hnode

def hashedFor (text : String) : List String :=
  [String.ofList (Digest.sourceLine ⟨"A.as", text⟩ ++ ['\n']), text]

theorem hashedTexts_singleton (text : String) :
    Digest.hashedTexts [⟨"A.as", text⟩] = hashedFor text := by
  have hordered : Digest.Ordered [⟨"A.as", text⟩] := ⟨List.pairwise_singleton _ _, by simp⟩
  rw [Digest.hashedTexts, hashedFor, ← String.ofList_toList (s := Digest.lines _ _), hordered.lines]
  simp

/-- Texts of the source in the histories below. -/
def shownTexts : List String := ["package { }", "package {  }", "y", "z"]

theorem nodup_hashes : ((shownTexts.flatMap hashedFor).map fun t =>
    Digest.Sha256.hash (Digest.bytes t)).Nodup := by
  decide +kernel

section

variable {stages : List (String × Int)}

/-- Disks on which the source of a project stands as of different times. -/
def oneSources (stages : List (String × Int)) : List Disk :=
  stages.map fun stage => oneSource stage.1 stage.2

theorem stampsTell_oneSources
    (h : ∀ stage ∈ stages, ∀ stage' ∈ stages, stage.2 = stage'.2 → stage.1 = stage'.1) :
    StampsTell plainSettings (oneSources stages) := by
  intro d hd d' hd' path _ _
  obtain ⟨stage, hstage, rfl⟩ := List.mem_map.1 hd
  obtain ⟨stage', hstage', rfl⟩ := List.mem_map.1 hd'
  exact tellsApart_oneSource (h stage hstage stage' hstage') path

theorem collisionFree_oneSources (htexts : ∀ stage ∈ stages, stage.1 ∈ shownTexts) :
    Digest.CollisionFree (HashedOn plainSettings (oneSources stages)) := by
  have hmem {t : String} (ht : HashedOn plainSettings (oneSources stages) t) :
      t ∈ shownTexts.flatMap hashedFor := by
    obtain ⟨d, hd, files, hfiles, ht⟩ := ht
    obtain ⟨stage, hstage, rfl⟩ := List.mem_map.1 hd
    obtain rfl : [⟨"A.as", stage.1⟩] = files :=
      Except.ok.inj ((sources_oneSource stage.1 stage.2).symm.trans hfiles)
    rw [hashedTexts_singleton] at ht
    exact List.mem_flatMap.2 ⟨stage.1, htexts stage hstage, ht⟩
  exact fun t t' ht ht' hsame => List.inj_on_of_nodup_map nodup_hashes (hmem ht) (hmem ht') hsame

end

def reading (l : Loader) (d : Disk) : Loader.Progress :=
  (Loader.readAll d "/p" (fun _ => false) 0 ⟨[], [], [], l⟩ ["A.as"]).1

theorem reading_of_readText {l l' : Loader} {d : Disk} {text : String}
    (h : l.readText d "/p" "A.as" = (.ok text, l')) :
    reading l d = ⟨[⟨"A.as", text⟩], [], [Loader.announcement l.options "A.as"], l'⟩ := by
  simp [reading, Loader.readAll, Loader.readNext, h]

theorem reading_oneSource (text : String) (modified : Int) :
    reading (.ofOptions plainSettings.loaderOptions) (oneSource text modified) =
      ⟨[⟨"A.as", text⟩], [], [Loader.announcement plainSettings.loaderOptions "A.as"],
        readBefore text modified 0⟩ :=
  reading_of_readText (readText_oneSource text modified)

theorem readText_restamped :
    (readBefore "y" 1 0).readText (oneSource "z" 1) "/p" "A.as" =
      (.ok "y", readBefore "y" 1 1) := by
  obtain ⟨-, -, -, hjoin, hclean, -⟩ := paths_oneSource
  rw [Loader.readText, show Loader.replacement? (readBefore "y" 1 0).options "A.as" = none from rfl]
  simp only [hjoin, ContentCache.read, hclean, ContentCache.readPath, FileCache.validate,
    stat_oneSource]
  rfl

theorem reading_restamped : reading (readBefore "y" 1 0) (oneSource "z" 1) =
    ⟨[⟨"A.as", "y"⟩], [], [Loader.announcement plainSettings.loaderOptions "A.as"],
      readBefore "y" 1 1⟩ :=
  reading_of_readText readText_restamped

/-- A server of the project that has kept no build. -/
structure Unbuilt (s : Server) : Prop where
  engine : s.engine = .echo
  converter : plainServer.converter.Extends s.converter
  builds : s.builds.items = []
  leftovers : s.leftovers = []

/-- A server answers with the fault of what its loader reads. -/
theorem Unbuilt.serve {s : Server} {d : Disk} {q : Loader.Progress} {text : String} {fault : Fault}
    (h : Unbuilt s) (hwalk : s.converter.loader.list d "/p" = .ok ["A.as"])
    (hq : reading s.converter.loader d = q) (hfiles : q.files = [⟨"A.as", text⟩])
    (hissues : q.issues = []) (hfault : refusal? plainServer.converter text = some fault) :
    (s.serve d manifestRequest).1 = Server.failureResponse fault ∧
      Unbuilt (s.serve d manifestRequest).2.2 ∧
      (s.serve d manifestRequest).2.2.converter.loader = q.loader := by
  have hroot : s.converter.settings.root = "/p" := by rw [h.converter.settings]; rfl
  have hread : Loader.readAll d s.converter.settings.root (fun _ => false) 0
      ⟨[], [], [], s.converter.loader⟩ ["A.as"] = (q, false) := by
    rw [hroot]
    rcases hall : Loader.readAll d "/p" (fun _ => false) 0 ⟨[], [], [], s.converter.loader⟩
      ["A.as"] with ⟨q', _ | _⟩
    · rw [← hq, reading, hall]
    · obtain ⟨_, hcancelled⟩ := Loader.exists_cancelled_of_readAll hall
      cases hcancelled
  have hdigest : ∃ digest, Digest.ofSources? q.files = some digest := by
    rw [hfiles]
    exact ⟨_, if_neg (by simp)⟩
  obtain ⟨digest, hdigest⟩ := hdigest
  obtain ⟨reports, hload⟩ := Server.load_of_readAll (hroot ▸ hwalk) hread
    (List.isEmpty_iff.2 hissues) hdigest
  have hextends : plainServer.converter.Extends
      ({ s.converter with loader := q.loader }.after reports) :=
    h.converter.trans (s.converter.extends_after q.loader reports)
  have hconverted := Converter.convertAmid_of_run_error (ends_of_refusal? hfault) digest
  have hquiet := Converter.quiet_of_deaf (show _ = false by rw [hextends.reporter]; rfl)
  rw [← hfiles, ← Converter.convertAmid_congr hextends, ← Converter.convertAmid_of_quiet hquiet]
    at hconverted
  have hcurrent := Server.current_of_load hload h.builds h.leftovers
  rw [Server.conclude_of_fault hconverted] at hcurrent
  obtain ⟨hanswer, hserver⟩ := serve_manifestRequest h.engine d
  rw [hanswer, hserver, hcurrent]
  refine ⟨rfl, ⟨h.engine, hextends.trans (Converter.extends_after _ q.loader _), h.builds, ?_⟩, rfl⟩
  exact List.filter_eq_nil_iff.2 fun _ hmem => absurd (h.leftovers ▸ hmem) List.not_mem_nil

theorem unbuilt_plainServer : Unbuilt plainServer := ⟨rfl, .refl _, rfl, rfl⟩

/-- Two requests, with an edit of the source before the second, and one that takes the text back. -/
def revisiting : List ProjectEvent :=
  [.request manifestRequest, .write "/p/A.as" "package {  }" 2, .request manifestRequest,
    .write "/p/A.as" "package { }" 3]

theorem seen_revisiting : seen ⟨oneSource "package { }" 1, plainServer⟩ revisiting =
    oneSources [("package { }", 1), ("package {  }", 2), ("package { }", 3)] := by
  simp [revisiting, seen, found, step, put_oneSource, oneSources]

theorem not_health_manifestRequest (values : RouteValues) :
    Engine.dispatch (Server.routing .echo) manifestRequest ≠ .ok (.health, values) := by
  rw [dispatch_manifestRequest]
  nofun

theorem revisited_source_answered_afresh :
    (run ⟨oneSource "package { }" 1, plainServer⟩ revisiting).answer manifestRequest =
      answer { run ⟨oneSource "package { }" 1, plainServer⟩ revisiting with server := plainServer }
        manifestRequest := by
  have hstamps : StampsTell plainSettings
      (seen ⟨oneSource "package { }" 1, plainServer⟩ revisiting) := by
    rw [seen_revisiting]
    exact stampsTell_oneSources (by decide)
  have hhashes : Digest.CollisionFree (HashedOn plainSettings
      (seen ⟨oneSource "package { }" 1, plainServer⟩ revisiting)) := by
    rw [seen_revisiting]
    exact collisionFree_oneSources (by decide)
  have hstart : Server.create .echo (.ofSettings plainSettings .discard) 1 = .ok plainServer := rfl
  have hstay : ∀ r i, .leave r i ∉ revisiting := by simp [revisiting]
  exact answer_run_eq hstart revisiting not_health_manifestRequest rfl
    (.inr ⟨quiet_run_of_deaf hstart rfl hstamps hhashes, not_occupied_run hstart hstay _⟩) hstamps
    hhashes

/-- The server of the same project with a reporter that takes notice of faults. -/
def loggingServer : Server :=
  ⟨.echo, .ofSettings plainSettings (.log ⟨.json, .info⟩ []), .empty 1, []⟩

/-- A request before the source can be converted, and its repair. -/
def repairing : List ProjectEvent :=
  [.request manifestRequest, .write "/p/A.as" "package { }" 2]

theorem seen_repairing : seen ⟨oneSource "y" 1, loggingServer⟩ repairing =
    oneSources [("y", 1), ("package { }", 2)] := by
  simp [repairing, seen, found, step, put_oneSource, oneSources]

theorem run_repairing : run ⟨oneSource "y" 1, loggingServer⟩ repairing =
    ⟨oneSource "package { }" 2, (loggingServer.serve (oneSource "y" 1) manifestRequest).2.2⟩ := by
  simp [repairing, run, step, put_oneSource]

theorem digested_oneSource (text : String) (modified : Int) : ∃ digest,
    plainSettings.digested (oneSource text modified) = .ok ([⟨"A.as", text⟩], digest) := by
  have hsources : Loader.sources plainSettings.loaderOptions (oneSource text modified)
      plainSettings.root = .ok [⟨"A.as", text⟩] := sources_oneSource text modified
  have hdigest : Digest.ofSources? [⟨"A.as", text⟩] = some _ := if_neg (by simp)
  exact ⟨_, by rw [Settings.digested, hsources]; dsimp only; rw [hdigest]⟩

/-- The source fails with a fault that is reported. -/
theorem broken_source_fails (digest : String) : ∃ fault reports,
    loggingServer.converter.convertAmid .never (fun _ => false) [⟨"A.as", "y"⟩] digest =
      (.error fault, reports) ∧ reports.any (·.isFault) = true := by
  have hends : (refusal? loggingServer.converter "y").isSome = true ∧
      (ends loggingServer.converter "y").2.reports.any (·.isFault) = true := by
    decide +kernel
  obtain ⟨fault, hfault⟩ := Option.isSome_iff_exists.1 hends.1
  exact ⟨fault, _, Converter.convertAmid_of_run_error (ends_of_refusal? hfault) digest, hends.2⟩

/-- The repaired source has a build with a record. -/
theorem repaired_source_converts (digest : String) : ∃ b m,
    loggingServer.converter.plain [⟨"A.as", "package { }"⟩] digest = .ok b ∧
      Manifest.ofBuild b = .ok m := by
  have hplain : ((loggingServer.converter.plain [⟨"A.as", "package { }"⟩] "").toOption.any fun b =>
      (Digest.ofModules? b.modules).isSome) = true := by
    decide +kernel
  cases hmade : loggingServer.converter.plain [⟨"A.as", "package { }"⟩] "" with
  | error fault =>
      rw [hmade] at hplain
      cases hplain
  | ok b =>
      rw [hmade] at hplain
      obtain ⟨output, houtput⟩ := Option.isSome_iff_exists.1 hplain
      exact ⟨_, _, Converter.plain_of_digest hmade digest, by
        rw [Manifest.ofBuild]; dsimp only; rw [houtput]⟩

theorem stampsTell_repairing :
    StampsTell plainSettings (seen ⟨oneSource "y" 1, loggingServer⟩ repairing) := by
  rw [seen_repairing]
  exact stampsTell_oneSources (by decide)

theorem collisionFree_repairing : Digest.CollisionFree
    (HashedOn plainSettings (seen ⟨oneSource "y" 1, loggingServer⟩ repairing)) := by
  rw [seen_repairing]
  exact collisionFree_oneSources (by decide)

theorem create_loggingServer :
    Server.create .echo (.ofSettings plainSettings (.log ⟨.json, .info⟩ [])) 1 =
      .ok loggingServer := rfl

theorem not_leave_mem_repairing : ∀ r i, .leave r i ∉ repairing := by simp [repairing]

/-- The server has heard of the fault, and so the repaired source is refused. -/
theorem answer_repairing :
    ((run ⟨oneSource "y" 1, loggingServer⟩ repairing).answer manifestRequest).status = 500 := by
  have hfresh := Server.fresh_of_create create_loggingServer
  have hdisks := distinguished_of_start (v := ⟨_, loggingServer⟩) create_loggingServer
    stampsTell_repairing collisionFree_repairing
  have hhonest := honest_of_start (v := ⟨_, loggingServer⟩) create_loggingServer
    stampsTell_repairing collisionFree_repairing
  have hfree := not_occupied_run (v := ⟨oneSource "y" 1, loggingServer⟩) create_loggingServer
    not_leave_mem_repairing
  have hfirst : oneSource "y" 1 ∈ seen ⟨oneSource "y" 1, loggingServer⟩ repairing := by
    simp [seen_repairing, oneSources]
  have hlast : oneSource "package { }" 2 ∈ seen ⟨oneSource "y" 1, loggingServer⟩ repairing := by
    simp [seen_repairing, oneSources]
  obtain ⟨digest, hbroken⟩ := digested_oneSource "y" 1
  obtain ⟨fault, reports, hfails, hreported⟩ := broken_source_fails digest
  obtain ⟨hempty, hheard⟩ := Server.server_of_failed_current hdisks (hfresh.honest _) hfirst
    hfresh.quiet rfl (Server.not_occupied_of_nil rfl _) hbroken hfails
  obtain ⟨-, hserver⟩ := serve_manifestRequest (s := loggingServer) rfl (oneSource "y" 1)
  rw [run_repairing] at hhonest hfree ⊢
  rw [hserver] at hhonest hfree ⊢
  have hnoisy : ¬(loggingServer.current (oneSource "y" 1) false).2.2.converter.Quiet := by
    intro hquiet
    rw [hreported] at hheard
    cases hheard hquiet
  obtain ⟨fault', hfault⟩ :=
    Server.exists_fault_of_current hdisks hhonest hlast hnoisy hempty (hfree _)
  rw [answer, (serve_manifestRequest hhonest.engine _).1]
  rcases hgiven : Server.current _ (oneSource "package { }" 2) false with ⟨outcome, entries, s'⟩
  rw [hgiven] at hfault
  cases hfault
  rfl

/-- A server that is started now converts the repaired source. -/
theorem answer_repaired :
    (answer { run ⟨oneSource "y" 1, loggingServer⟩ repairing with server := loggingServer }
      manifestRequest).status = 200 := by
  have hfresh := Server.fresh_of_create create_loggingServer
  have hdisks := distinguished_of_start (v := ⟨_, loggingServer⟩) create_loggingServer
    stampsTell_repairing collisionFree_repairing
  have hlast : oneSource "package { }" 2 ∈ seen ⟨oneSource "y" 1, loggingServer⟩ repairing := by
    simp [seen_repairing, oneSources]
  obtain ⟨digest, hrepaired⟩ := digested_oneSource "package { }" 2
  obtain ⟨b, m, hplain, hmanifest⟩ := repaired_source_converts digest
  have hcurrent := Server.current_eq_plainBuild hdisks (hfresh.honest _) hlast
    (.inr ⟨hfresh.quiet, Server.not_occupied_of_nil rfl _⟩)
  rw [Converter.plainBuild, show loggingServer.converter.settings.digested _ = _ from hrepaired]
    at hcurrent
  rw [run_repairing, answer, (serve_manifestRequest (s := loggingServer) rfl _).1]
  rcases hgiven : loggingServer.current (oneSource "package { }" 2) false with
    ⟨outcome, entries, s'⟩
  rw [hgiven] at hcurrent
  cases hcurrent.trans hplain
  rw [Server.present, Server.buildResponse, hmanifest]
  rfl

/-- A server whose reporter has heard of a fault refuses a source that has been repaired since,
although one that is started then converts it. -/
theorem repaired_source_answered_stopped :
    Server.create .echo (.ofSettings plainSettings (.log ⟨.json, .info⟩ [])) 1 = .ok loggingServer ∧
      (∀ r i, .leave r i ∉ repairing) ∧
      StampsTell plainSettings (seen ⟨oneSource "y" 1, loggingServer⟩ repairing) ∧
      Digest.CollisionFree
        (HashedOn plainSettings (seen ⟨oneSource "y" 1, loggingServer⟩ repairing)) ∧
      ((run ⟨oneSource "y" 1, loggingServer⟩ repairing).answer manifestRequest).status = 500 ∧
      (answer { run ⟨oneSource "y" 1, loggingServer⟩ repairing with server := loggingServer }
        manifestRequest).status = 200 :=
  ⟨create_loggingServer, not_leave_mem_repairing, stampsTell_repairing, collisionFree_repairing,
    answer_repairing, answer_repaired⟩

/-- A request, an edit that shows in the time of the source, and one that takes the time back. -/
def restamping : List ProjectEvent :=
  [.request manifestRequest, .write "/p/A.as" "" 2, .write "/p/A.as" "z" 1]

theorem seen_restamping : seen ⟨oneSource "y" 1, plainServer⟩ restamping =
    oneSources [("y", 1), ("z", 1)] := by
  simp [restamping, seen, found, step, put_oneSource, oneSources]

theorem run_restamping : run ⟨oneSource "y" 1, plainServer⟩ restamping =
    ⟨oneSource "z" 1, (plainServer.serve (oneSource "y" 1) manifestRequest).2.2⟩ := by
  simp [restamping, run, step, put_oneSource]

theorem editsShow_restamping : EditsShow ⟨oneSource "y" 1, plainServer⟩ restamping := by
  simp only [restamping, EditsShow, step, put_oneSource]
  exact ⟨Disk.tellsApart_refl _, tellsApart_oneSource (by decide), tellsApart_oneSource (by decide),
    trivial⟩

/-- The answer is that about the text that has been replaced. -/
theorem answer_restamping {fault : Fault} (h : refusal? plainServer.converter "y" = some fault) :
    (run ⟨oneSource "y" 1, plainServer⟩ restamping).answer manifestRequest =
      Server.failureResponse fault := by
  obtain ⟨-, hunbuilt, hloader⟩ := unbuilt_plainServer.serve (walk_oneSource "y" 1)
    (reading_oneSource "y" 1) rfl rfl h
  rw [run_restamping, answer]
  generalize (plainServer.serve (oneSource "y" 1) manifestRequest).2.2 = s at *
  have hwalk : s.converter.loader.list (oneSource "z" 1) "/p" = .ok ["A.as"] := by
    rw [hloader]
    exact walk_oneSource "z" 1
  have hread := reading_restamped
  rw [show readBefore "y" 1 0 = s.converter.loader from hloader.symm] at hread
  exact (hunbuilt.serve hwalk hread rfl rfl h).1

/-- Neither text can be converted, and the answers say why. -/
theorem refusals_differ :
    (refusal? plainServer.converter "y").isSome ∧ (refusal? plainServer.converter "z").isSome ∧
      (refusal? plainServer.converter "y").map
          (fun fault => (Server.failureResponse fault).content) ≠
        (refusal? plainServer.converter "z").map
          (fun fault => (Server.failureResponse fault).content) := by
  decide +kernel

/-- It is not enough that every edit shows: a source whose time is taken back stays what it was. -/
theorem restamped_source_answered_stale :
    Server.create .echo (.ofSettings plainSettings .discard) 1 = .ok plainServer ∧
      Engine.dispatch (Server.routing .echo) manifestRequest = .ok (.manifest, []) ∧
      EditsShow ⟨oneSource "y" 1, plainServer⟩ restamping ∧
      Digest.CollisionFree
        (HashedOn plainSettings (seen ⟨oneSource "y" 1, plainServer⟩ restamping)) ∧
      (run ⟨oneSource "y" 1, plainServer⟩ restamping).answer manifestRequest ≠
        answer { run ⟨oneSource "y" 1, plainServer⟩ restamping with server := plainServer }
          manifestRequest := by
  refine ⟨rfl, dispatch_manifestRequest, editsShow_restamping, ?_, ?_⟩
  · rw [seen_restamping]
    exact collisionFree_oneSources (by decide)
  · obtain ⟨hold, hnew, hcontents⟩ := refusals_differ
    obtain ⟨old, hold⟩ := Option.isSome_iff_exists.1 hold
    obtain ⟨new, hnew⟩ := Option.isSome_iff_exists.1 hnew
    have hfresh : (plainServer.serve (oneSource "z" 1) manifestRequest).1 =
        Server.failureResponse new :=
      (unbuilt_plainServer.serve (walk_oneSource "z" 1) (reading_oneSource "z" 1) rfl rfl hnew).1
    rw [answer_restamping hold, run_restamping, answer, hfresh]
    rw [hold, hnew] at hcontents
    exact fun hsame => hcontents (congrArg (fun r : Response => some r.content) hsame)

end Served
end ScriptWeave
