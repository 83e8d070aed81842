import ScriptWeave.Proofs.Disk.Walk
import ScriptWeave.Proofs.Pipeline.DependencyLists
import ScriptWeave.Proofs.Web.Routing
import ScriptWeave.Proofs.Web.Transparency

/-!
Modules over requests. What a handler is given as the name of a module depends on the engine; it
finds the module by its id, and by its logical name where nobody can take that for an id. Whatever
happened before, the modules of a build that a server gives can be asked for.
-/

namespace ScriptWeave

open Text

variable {id : ModuleId} {r : Request} {e : Engine} {name handed : String}

theorem endsIn_append (tail stem : String) : endsIn tail (stem ++ tail) = true := by
  simp [endsIn, List.isSuffixOf_iff_suffix]

theorem dropFront_append (front s : String) : dropFront front (front ++ s) = s := by
  have hbegins : beginsWith front (front ++ s) = true := by
    simp [beginsWith, List.isPrefixOf_iff_prefix]
  rw [dropFront, if_pos hbegins]
  simp

namespace Server

/-- The handler looks for a module if it gets its id, or its logical name, unless the name itself
ends as an id does. -/
theorem moduleId_eq_iff (hid : id.Suffixed) : moduleId handed = id ↔
    handed = id.path ∨ handed = id.logicalName ∧ endsIn ".js" handed = false := by
  have hpath : id.path = id.logicalName ++ ".js" := hid.path_eq
  have hid' (path : String) : (⟨path⟩ : ModuleId) = id ↔ path = id.path := by
    cases id
    simp
  rw [moduleId, hid']
  cases hends : endsIn ".js" handed with
  | true => simp
  | false =>
      have hne : handed ≠ id.path := by
        rintro rfl
        rw [hpath, endsIn_append] at hends
        cases hends
      rw [if_neg Bool.false_ne_true, hpath, or_iff_right (hpath ▸ hne), and_iff_left rfl]
      exact ⟨fun h => (String.append_left_inj ".js").1 h, fun h => h ▸ rfl⟩

/-- The handler looks for the module with an id. -/
def Finds (e : Engine) (r : Request) (id : ModuleId) : Prop :=
  ∃ values, Engine.dispatch (routing e) r = .ok (.module, values) ∧
    moduleId (e.parameter values "*") = id

theorem finds_iff_of_dispatch {values : RouteValues}
    (h : Engine.dispatch (routing e) r = .ok (.module, values)) :
    Finds e r id ↔ moduleId (e.parameter values "*") = id := by
  rw [Finds, h]
  constructor
  · rintro ⟨values', heq, hid⟩
    cases heq
    exact hid
  · exact fun hid => ⟨values, rfl, hid⟩

theorem finds_iff_of_ne_fiber (he : e ≠ .fiber) (h : r.AsksFor name)
    (hrelative : beginsWith "/" name = false) : Finds e r id ↔ moduleId name = id := by
  cases e with
  | echo =>
      rw [finds_iff_of_dispatch (dispatch_echo h), Engine.parameter, if_pos rfl, List.lookup_cons,
        beq_self_eq_true, dropFront]
      simp [hrelative]
  | gin =>
      rw [finds_iff_of_dispatch (dispatch_gin h), Engine.parameter, if_pos rfl, List.lookup_cons,
        beq_self_eq_true]
      dsimp only
      rw [Option.getD_some, dropFront_append]
  | fiber => exact absurd rfl he

section

variable {sent : String}

/-- What is left of a name as it is sent. -/
def trimmed (sent : String) : String := String.ofList (Pattern.trimSlashes sent.toList)

theorem trimSlashes_eq_self_iff (s : String) :
    Pattern.trimSlashes s.toList = s.toList ↔ endsIn "/" s = false := by
  rw [endsIn]
  obtain hnil | ⟨init, c, hlast⟩ := List.eq_nil_or_concat' s.toList
  · rw [hnil]
    decide
  · rw [hlast]
    by_cases hc : c = '/'
    · subst hc
      refine iff_of_false (fun h => ?_) ?_
      · have hlength := congrArg List.length h
        rw [Pattern.trimSlashes_append, if_pos (by decide), List.length_append] at hlength
        have hle := (Pattern.trimSlashes_begins init).length_le
        rw [List.length_singleton] at hlength
        omega
      · rw [Bool.not_eq_false, List.isSuffixOf_iff_suffix]
        exact List.suffix_append init ['/']
    · refine iff_of_true (Pattern.trimSlashes_concat hc init) ?_
      rw [← Bool.not_eq_true, List.isSuffixOf_iff_suffix]
      rintro ⟨front, hfront⟩
      exact hc (List.cons.inj (List.append_inj_right' hfront rfl)).1.symm

theorem trimmed_eq_iff (h : SentAs name sent) :
    trimmed sent = name ↔ sent = name ∧ endsIn "/" name = false := by
  rw [← trimSlashes_eq_self_iff, trimmed]
  constructor
  · intro heq
    have hkept : Pattern.trimSlashes name.toList = name.toList := by
      rw [← heq, String.toList_ofList]
      exact List.rdropWhile_idempotent _ _
    obtain rfl | rfl := h
    · exact ⟨rfl, hkept⟩
    · rw [String.toList_ofList, Pattern.trimSlashes_escaped hkept] at heq
      exact ⟨heq, hkept⟩
  · rintro ⟨rfl, hkept⟩
    rw [hkept, String.ofList_toList]

/-- A suffix is sent as it is, and nothing is left out behind it. -/
theorem trimmed_of_suffix {stem : String} (h : SentAs (stem ++ ".js") sent) :
    trimmed sent = sent ∧ endsIn ".js" sent = true := by
  obtain ⟨front, rfl⟩ : ∃ front, sent = front ++ ".js" := by
    obtain rfl | rfl := h
    · exact ⟨stem, rfl⟩
    · refine ⟨String.ofList (stem.toList.flatMap Target.escapeChar), ?_⟩
      rw [String.toList_append, List.flatMap_append, String.ofList_append,
        show ".js".toList.flatMap Target.escapeChar = ".js".toList by decide,
        String.ofList_toList]
  refine ⟨?_, endsIn_append ".js" front⟩
  rw [trimmed, String.toList_append, show ".js".toList = ['.', 'j'] ++ ['s'] from rfl,
    ← List.append_assoc, Pattern.trimSlashes_concat (by decide), List.append_assoc,
    String.ofList_append, String.ofList_toList]
  rfl

/-- Escapes add no dots, so a name does not come to have a suffix. -/
theorem trimmed_ne_suffixed (h : SentAs name sent) : trimmed sent ≠ name ++ ".js" := by
  have hcount : sent.toList.count '.' = name.toList.count '.' := by
    obtain rfl | rfl := h
    · rfl
    · rw [String.toList_ofList, Target.count_escaped]
  intro heq
  have hdots := (Pattern.trimSlashes_begins sent.toList).sublist.count_le '.'
  rw [← String.toList_ofList (l := Pattern.trimSlashes sent.toList), ← trimmed, heq,
    String.toList_append, List.count_append, hcount] at hdots
  exact absurd hdots (by simp)

end

theorem finds_iff_of_fiber {sent : String} (h : r.AsksFor name)
    (hsent : r.target.sentPath = "/modules/" ++ sent) : Finds .fiber r id ↔
      moduleId (trimmed sent) = id := by
  have hparameter (value : String) : Engine.parameter .fiber [("*1", value)] "*" = value := by
    have hkey : decide ("*1".toLower = ("*" ++ "1").toLower) = true := by simp
    simp only [Engine.parameter, true_or, if_true, List.find?_cons, hkey]
    rfl
  rw [finds_iff_of_dispatch (dispatch_fiber h hsent), hparameter, trimmed]

section

variable (hid : id.Suffixed) (hrelative : Path.isAbsolute id.path = false)
include hid hrelative

theorem isAbsolute_logicalName : Path.isAbsolute id.logicalName = false := by
  by_cases hempty : id.logicalName = ""
  · rw [hempty]
    decide
  · rw [hid.path_eq] at hrelative
    exact (Path.isAbsolute_append hempty _).symm.trans hrelative

/-- A module is found by its id, unless an engine hands it on with escapes. -/
theorem finds_path_iff (h : r.AsksFor id.path) : Finds e r id ↔
    (e = .fiber → r.target.sentPath = "/modules/" ++ id.path) := by
  by_cases he : e = .fiber
  · subst he
    obtain ⟨sent, hsent, hshape⟩ := exists_sentPath h
    obtain ⟨hkept, hends⟩ := trimmed_of_suffix (hid.path_eq ▸ hshape)
    have hname : ¬(sent = id.logicalName ∧ endsIn ".js" sent = false) := by simp [hends]
    rw [finds_iff_of_fiber h hsent, hkept, moduleId_eq_iff hid, or_iff_left hname, hsent,
      String.append_right_inj]
    exact ⟨fun heq _ => heq, fun heq => heq rfl⟩
  · rw [finds_iff_of_ne_fiber he h hrelative, moduleId_eq_iff hid]
    exact iff_of_true (.inl rfl) fun heq => absurd heq he

/-- A module is found by its logical name, unless the name ends as an id does; an engine that trims
and escapes names does not find those that it changes. -/
theorem finds_logicalName_iff (h : r.AsksFor id.logicalName) : Finds e r id ↔
    endsIn ".js" id.logicalName = false ∧ (e = .fiber →
      r.target.sentPath = "/modules/" ++ id.logicalName ∧ endsIn "/" id.logicalName = false) := by
  have hpath : id.path = id.logicalName ++ ".js" := hid.path_eq
  by_cases he : e = .fiber
  · subst he
    obtain ⟨sent, hsent, hshape⟩ := exists_sentPath h
    have hne : trimmed sent ≠ id.path := hpath ▸ trimmed_ne_suffixed hshape
    rw [finds_iff_of_fiber h hsent, moduleId_eq_iff hid, or_iff_right hne, hsent,
      String.append_right_inj, ← trimmed_eq_iff hshape]
    constructor
    · rintro ⟨heq, hends⟩
      exact ⟨heq ▸ hends, fun _ => heq⟩
    · rintro ⟨hends, heq⟩
      exact ⟨heq rfl, (heq rfl).symm ▸ hends⟩
  · have hne : id.logicalName ≠ id.path := by
      intro heq
      have hlength := congrArg String.length (heq.trans hpath)
      rw [String.length_append, show ".js".length = 3 from rfl] at hlength
      omega
    rw [finds_iff_of_ne_fiber he h (isAbsolute_logicalName hid hrelative), moduleId_eq_iff hid,
      or_iff_right hne, and_iff_right rfl]
    exact ⟨fun hends => ⟨hends, fun heq => absurd heq he⟩, And.left⟩

end

end Server

/-- The modules of a build are known by ids that end in their suffix and stay below a path that they
are put after. -/
structure Build.Addressable (b : Build) : Prop where
  nodup : (b.modules.map (·.id)).Nodup
  suffixed : ∀ m ∈ b.modules, m.id.Suffixed
  relative : ∀ m ∈ b.modules, Path.isAbsolute m.id.path = false

theorem Build.Addressable.module?_eq {b : Build} (h : b.Addressable) {m : GeneratedModule}
    (hm : m ∈ b.modules) : b.module? m.id = some m := by
  rw [Build.module?]
  cases hfound : b.modules.find? (·.id = m.id) with
  | none => exact absurd (List.find?_eq_none.1 hfound m hm) (by simp)
  | some m' =>
      have hid : m'.id = m.id := by simpa using List.find?_some hfound
      rw [List.inj_on_of_nodup_map h.nodup (List.mem_of_find?_eq_some hfound) hm hid]

theorem ModuleId.isAbsolute_ofSource {path : String} (h : Path.isAbsolute path = false) :
    Path.isAbsolute (ofSource path).path = false := by
  have hfront : (dropTail sourceSuffix path).toList <+: path.toList := by
    rw [dropTail]
    split
    · rw [String.toList_ofList]
      exact List.take_prefix _ _
    · exact List.prefix_rfl
  rw [← Bool.not_eq_true, Path.isAbsolute_iff] at h ⊢
  rw [ofSource, String.toList_append]
  obtain ⟨rest, hrest⟩ := hfront
  cases hstem : (dropTail sourceSuffix path).toList with
  | nil => decide
  | cons c cs =>
      rw [hstem] at hrest
      rw [← hrest] at h
      exact h

theorem isAbsolute_mergedId (n : Int) : Path.isAbsolute (Cycle.mergedId n).path = false := by
  rw [Cycle.mergedId, String.append_assoc, Path.isAbsolute_append (by decide)]
  rfl

namespace Converter

variable {c : Converter} {d : Disk} {files : List SourceFile} {digest : String}

theorem addressable_of_convertAmid {i : Interruption} {heard : Nat → Bool} {b : Build}
    (h : (c.convertAmid i heard files digest).1 = .ok b)
    (hfiles : ∀ f ∈ files, Path.isAbsolute f.path = false) : b.Addressable := by
  obtain ⟨result, journal, modules, hrun, hrender, rfl⟩ := exists_of_convertAmid h
  obtain ⟨conversion⟩ := Pipeline.nonempty_conversion hrun
  have hids := Emit.ids_generate (generate_of_render hrender)
  have hmem {m : GeneratedModule} (hm : m ∈ modules) : m.id ∈ result.output.ids :=
    hids ▸ List.mem_map_of_mem hm
  refine ⟨hids ▸ result.output.nodup_ids, fun m hm => conversion.suffixed_of_mem (hmem hm),
    fun m hm => ?_⟩
  have hid := hmem hm
  rw [conversion.resolved.ids_eq, List.mem_append, conversion.mem_base_ids_iff] at hid
  obtain hsource | hmerged := hid
  · obtain ⟨f, hf, heq⟩ := List.mem_map.1 hsource
    rw [← heq]
    exact ModuleId.isAbsolute_ofSource (hfiles f hf)
  · obtain ⟨component, _, heq⟩ := List.mem_map.1 hmerged
    rw [← heq]
    exact isAbsolute_mergedId _

/-- Sources are loaded by relative paths. -/
theorem isAbsolute_of_load (hdisk : Disk.Grounded d.nodes) {i : Interruption}
    {reports : List Report} {c' : Converter}
    (h : c.loadUnder d i = (.ok (files, digest), reports, c')) :
    ∀ f ∈ files, Path.isAbsolute f.path = false := by
  rw [loadUnder] at h
  split at h
  · cases h
  · next files' houtcome =>
      split at h
      · cases h
      · cases h
        obtain ⟨hwalk, _⟩ := Loader.read_loadUnder houtcome
        exact fun f hf => (Disk.relative_walk hdisk hwalk _ (List.mem_map_of_mem hf)).2

end Converter

namespace Server

/-- A server of an engine that can be asked for the modules of every build that it keeps, or makes
of the sources that it still converts. -/
structure Addresses (engine : Engine) (s : Server) : Prop where
  engine : s.engine = engine
  builds : ∀ digest b, (digest, b) ∈ s.builds.items → b.Addressable
  leftovers : ∀ l ∈ s.leftovers, ∀ f ∈ l.files, Path.isAbsolute f.path = false

variable {engine : Engine} {s : Server} {d : Disk}

/-- What a server finds of the sources on a disk. -/
structure FindsAddressable (engine : Engine) (sought : Except Fault Sought × Server) : Prop where
  server : sought.2.Addresses engine
  kept : ∀ b, sought.1 = .ok (.kept b) → b.Addressable
  missing : ∀ files digest, sought.1 = .ok (.missing files digest) →
    ∀ f ∈ files, Path.isAbsolute f.path = false

theorem Addresses.seek (h : s.Addresses engine) (hdisk : Disk.Grounded d.nodes) (i : Interruption) :
    FindsAddressable engine (s.seek d i) := by
  rw [Server.seek]
  split
  · refine ⟨⟨h.engine, h.builds, h.leftovers⟩, fun _ hb => ?_, fun _ _ hmissing => ?_⟩
    · cases hb
    · cases hmissing
  · next hload =>
      split
      · next b builds hkept =>
          have hbuilds : ∀ digest b, (digest, b) ∈ builds.items → b.Addressable :=
            fun _ _ hmem => h.builds _ _ (Recent.items_of_get? hkept hmem)
          refine ⟨⟨h.engine, hbuilds, h.leftovers⟩, fun _ hb => ?_, fun _ _ hmissing => ?_⟩
          · cases hb
            exact h.builds _ b (Recent.mem_of_get? hkept)
          · cases hmissing
      · refine ⟨⟨h.engine, h.builds, h.leftovers⟩, fun _ hb => ?_, fun _ _ hmissing => ?_⟩
        · cases hb
        · cases hmissing
          exact Converter.isAbsolute_of_load hdisk hload

theorem addressable_of_conclude {l : Leftover}
    (hfiles : ∀ f ∈ l.files, Path.isAbsolute f.path = false) {b : Build}
    (hb : (s.conclude l).1 = .ok b) : b.Addressable := by
  rw [outcome_of_conclude] at hb
  exact Converter.addressable_of_convertAmid hb hfiles

theorem Addresses.conclude (h : s.Addresses engine) (l : Leftover)
    (hfiles : ∀ f ∈ l.files, Path.isAbsolute f.path = false) :
    (s.conclude l).2.2.Addresses engine := by
  rw [Server.conclude]
  have hleft : ∀ l' ∈ s.leftovers.filter (·.digest ≠ l.digest),
      ∀ f ∈ l'.files, Path.isAbsolute f.path = false :=
    fun l' hl' => h.leftovers l' (List.mem_of_mem_filter hl')
  rcases hconverted : s.converter.convertAmid l.interruption (heardAt l.heard s.converter.faulted)
    l.files l.digest with ⟨fault | b, reports⟩
  · exact ⟨h.engine, h.builds, hleft⟩
  · refine ⟨h.engine, fun digest b' hmem => ?_, hleft⟩
    obtain heq | hmem := Recent.mem_insert hmem
    · cases heq
      exact Converter.addressable_of_convertAmid (congrArg Prod.fst hconverted) hfiles
    · exact h.builds digest b' hmem

theorem lasting_addresses (engine : Engine) : Lasting (fun d => Disk.Grounded d.nodes)
    (fun files _ => ∀ f ∈ files, Path.isAbsolute f.path = false) (Addresses engine) where
  seek _ _ i hd hs := (hs.seek hd i).server
  missing _ _ i _ _ hd hs := (hs.seek hd i).missing _ _
  leftover _ _ hs hl := hs.leftovers _ hl
  conclude _ l hfiles hs := hs.conclude l hfiles
  ask s digest hs := by
    refine ⟨hs.engine, hs.builds, fun l hl => ?_⟩
    obtain ⟨old, hold, rfl⟩ := List.mem_map.1 hl
    split <;> exact hs.leftovers old hold

theorem outlasting_addresses (engine : Engine) : Outlasting
    (fun files _ => ∀ f ∈ files, Path.isAbsolute f.path = false) (Addresses engine) :=
  fun _ _ hfiles hs => ⟨hs.engine, hs.builds,
    List.forall_mem_append.2 ⟨hs.leftovers, List.forall_mem_singleton.2 hfiles⟩⟩

/-- The build that a server gives can be asked for its modules. -/
theorem Addresses.current (h : s.Addresses engine) (hdisk : Disk.Grounded d.nodes)
    (cancelled : Bool) {b : Build} (hb : (s.current d cancelled).1 = .ok b) : b.Addressable := by
  have hfinds := h.seek hdisk (.always cancelled)
  rw [Server.current] at hb
  generalize s.seek d (.always cancelled) = sought at hfinds hb
  obtain ⟨fault | b' | ⟨files, digest⟩, s'⟩ := sought
  · cases hb
  · cases hb
    exact hfinds.kept b rfl
  · dsimp only at hb
    split at hb
    · exact addressable_of_conclude (hfinds.missing files digest rfl) hb
    · next l hl =>
        split at hb
        · cases hb
        · exact addressable_of_conclude ((lasting_addresses engine).leftover? hfinds.server hl) hb

theorem current_of_converted {files : List SourceFile} {digest : String} {reports : List Report}
    {c : Converter} {b : Build}
    (hload : s.converter.loadUnder d (.always false) = (.ok (files, digest), reports, c))
    (hbuilds : s.builds.items = []) (hfree : s.leftovers = []) (hquiet : c.Quiet)
    (hconverted : c.plain files digest = .ok b) : (s.current d false).1 = .ok b := by
  rw [current_of_load hload hbuilds hfree, outcome_of_conclude, ← hconverted]
  exact congrArg Prod.fst (Converter.convertAmid_of_quiet hquiet files digest)

theorem answer_of_dispatch {b : Build} {r : Request} {values : RouteValues}
    (hcurrent : (s.current d false).1 = .ok b) (hstaying : r.cancelled = false)
    (hdispatch : Engine.dispatch (routing s.engine) r = .ok (.module, values)) :
    (s.serve d r).1 = moduleResponse b (s.engine.parameter values "*") := by
  have hcancelled : s.engine.noticesCancelled r = false := by
    cases hengine : s.engine with
    | echo | gin => exact hstaying
    | fiber => rfl
  rw [serve, handle, hdispatch]
  dsimp only
  rw [respond, if_neg (by decide), hcancelled]
  rcases hgiven : s.current d false with ⟨outcome, entries, s'⟩
  rw [hgiven] at hcurrent
  cases hcurrent
  rfl

end Server

namespace Served

variable {engine : Engine} {v : Served}

/-- Edits leave a disk whose walks give relative paths. -/
theorem grounded_step (v : Served) (event : ProjectEvent) (h : Disk.Grounded v.disk.nodes) :
    Disk.Grounded (v.step event).disk.nodes := by
  cases event with
  | write path text modified => exact h.put path text modified
  | remove path =>
      rw [Served.step]
      cases hremoved : v.disk.removeDirect path with
      | error e => exact h
      | ok d =>
          obtain ⟨rfl, _⟩ := Disk.removeDirect_eq_ok hremoved
          exact h.erase path
  | makeDirectory path => exact h.putDirectory path
  | request | leave | ask | settle => exact h

/-- A request is answered with a module: its id is looked for, and its text and kind are sent. -/
structure AnsweredWith (v : Served) (b : Build) (m : GeneratedModule) (r : Request) : Prop where
  finds : Server.Finds v.server.engine r m.id
  answer : v.answer r = ⟨200, "application/javascript",
    [("X-As2amd-Run", b.runId), ("X-As2amd-Kind", m.kind.name)], .text m.content⟩

/-- After any history, every module of the build can be asked for by its id and by its logical name.
It is answered under its id, and under its logical name if that does not end as an id does; one
engine takes names as they are sent, without slashes at their end, and so answers only for those
that are sent as they are. -/
theorem module_answered_iff {settings : Settings} {reporter : Reporter} {scripts : ScriptEngine}
    {cacheSize : Int} (hdisk : v.disk.IsTree)
    (hstart : Server.create engine (.ofSettings settings reporter scripts) cacheSize = .ok v.server)
    (events : List ProjectEvent) {b : Build}
    (hbuild : ((v.run events).server.current (v.run events).disk false).1 = .ok b)
    {m : GeneratedModule} (hm : m ∈ b.modules) :
    (∀ name ∈ [m.id.path, m.id.logicalName], ∃ r, Request.read "GET"
      (Target.escapePath (Digest.bytes ("/modules/" ++ name))) [] false = .ok r ∧ r.AsksFor name) ∧
    (∀ r : Request, r.AsksFor m.id.path → ((v.run events).AnsweredWith b m r ↔
      (engine = .fiber → r.target.sentPath = "/modules/" ++ m.id.path))) ∧
    (∀ r : Request, r.AsksFor m.id.logicalName → ((v.run events).AnsweredWith b m r ↔
      endsIn ".js" m.id.logicalName = false ∧ (engine = .fiber →
        r.target.sentPath = "/modules/" ++ m.id.logicalName ∧
          endsIn "/" m.id.logicalName = false))) := by
  have hgrounded := forall_seen (P := fun d => Disk.Grounded d.nodes) grounded_step
    (Disk.grounded_of_isTree hdisk) events
  have haddresses : (v.run events).server.Addresses engine := by
    have hfresh := Server.fresh_of_create hstart
    refine lasting_run (Server.lasting_addresses engine)
      (fun _ _ _ => Server.outlasting_addresses engine) hgrounded ⟨?_, ?_, ?_⟩
    · exact (Server.settings_of_create hstart).1
    · rw [hfresh.builds]
      nofun
    · rw [hfresh.leftovers]
      nofun
  have hb : b.Addressable :=
    haddresses.current (hgrounded _ (disk_run_mem_seen v events)) false hbuild
  have hanswered {r : Request} (hstaying : r.cancelled = false) :
      (v.run events).AnsweredWith b m r ↔ Server.Finds engine r m.id := by
    constructor
    · exact fun h => haddresses.engine ▸ h.finds
    · intro h
      rw [← haddresses.engine] at h
      obtain ⟨values, hdispatch, hid⟩ := id h
      refine ⟨h, ?_⟩
      rw [answer, Server.answer_of_dispatch hbuild hstaying hdispatch, Server.moduleResponse, hid,
        hb.module?_eq hm]
  have hsuffixed := hb.suffixed m hm
  have hrelative := hb.relative m hm
  refine ⟨fun name _ => Request.exists_asksFor name [], fun r h => ?_, fun r h => ?_⟩
  · rw [hanswered h.staying, Server.finds_path_iff hsuffixed hrelative h]
  · rw [hanswered h.staying, Server.finds_logicalName_iff hsuffixed hrelative h]

/-- Two sources, one of which has a name that ends as an id does. -/
def twoSources : List ProjectEvent :=
  [.write "/p/A.as" "package \x7b \x7d" 1, .write "/p/x.js.as" "package \x7b \x7d" 1]

def twoFiles : List SourceFile :=
  [⟨"A.as", "package \x7b \x7d"⟩, ⟨"x.js.as", "package \x7b \x7d"⟩]

/-- The project with these sources before any request. -/
def twoServed : Served := run ⟨.empty, plainServer⟩ twoSources

/-- The request for a name as it is. -/
def moduleRequest (name : String) : Request :=
  ⟨"GET", ⟨"/modules/" ++ name, Digest.bytes ("/modules/" ++ name), "", false⟩, [], false⟩

theorem asksFor_moduleRequest (name : String) : (moduleRequest name).AsksFor name :=
  ⟨rfl, rfl, .inr rfl, rfl⟩

theorem exists_plain (digest : String) : ∃ b,
    plainServer.converter.plain twoFiles digest = .ok b ∧
      b.modules.map (·.id) = [⟨"A.js"⟩, ⟨"x.js.js"⟩] := by
  have hids : ((plainServer.converter.plain twoFiles "").toOption.map fun b =>
      b.modules.map (·.id)) = some [⟨"A.js"⟩, ⟨"x.js.js"⟩] := by
    decide +kernel
  cases hplain : plainServer.converter.plain twoFiles "" with
  | error fault =>
      rw [hplain] at hids
      cases hids
  | ok b =>
      rw [hplain] at hids
      exact ⟨_, Converter.plain_of_digest hplain digest, Option.some.inj hids⟩

/-- What a loader without a past reads of these sources, and whether it is cancelled. -/
def twoRead : Loader.Progress × Bool :=
  Loader.readAll twoServed.disk plainServer.converter.settings.root (fun _ => false) 0
    ⟨[], [], [], plainServer.converter.loader⟩ ["A.as", "x.js.as"]

theorem exists_build_twoServed : ∃ b, (twoServed.server.current twoServed.disk false).1 = .ok b ∧
    b.modules.map (·.id) = [⟨"A.js"⟩, ⟨"x.js.js"⟩] := by
  have hlist : plainServer.converter.loader.list twoServed.disk
      plainServer.converter.settings.root = .ok ["A.as", "x.js.as"] := by
    cbv
  have hread : (twoRead.1.files, twoRead.1.issues.isEmpty, twoRead.2) =
      (twoFiles, true, false) := by
    cbv
  rcases hall : twoRead with ⟨q, stopped⟩
  rw [hall] at hread
  obtain ⟨hfiles, hread⟩ := Prod.mk.inj hread
  obtain ⟨hissues, rfl⟩ := Prod.mk.inj hread
  obtain ⟨digest, hdigest⟩ :=
    Option.isSome_iff_exists.1 (show (Digest.ofSources? twoFiles).isSome by decide)
  rw [← hfiles] at hdigest
  obtain ⟨reports, hload⟩ := Server.load_of_readAll hlist hall hissues hdigest
  rw [hfiles] at hload
  obtain ⟨b, hplain, hids⟩ := exists_plain digest
  rw [← Converter.plain_congr (plainServer.converter.extends_after q.loader reports)] at hplain
  exact ⟨b, Server.current_of_converted hload rfl rfl (Converter.quiet_of_deaf rfl) hplain, hids⟩

theorem exists_modules_twoServed : ∃ b A x,
    (twoServed.server.current twoServed.disk false).1 = .ok b ∧ b.modules = [A, x] ∧
      A.id = ⟨"A.js"⟩ ∧ x.id = ⟨"x.js.js"⟩ := by
  obtain ⟨b, hbuild, hids⟩ := exists_build_twoServed
  obtain ⟨A, rest, hmodules, hA, hrest⟩ := List.map_eq_cons_iff.1 hids
  obtain ⟨x, rest, rfl, hx, hnil⟩ := List.map_eq_cons_iff.1 hrest
  rw [List.map_eq_nil_iff.1 hnil] at hmodules
  exact ⟨b, A, x, hbuild, hmodules, hA, hx⟩

/-- One module is answered under both names, the other one only under its id. -/
theorem module_answered_twoServed : ∃ b A x, Disk.empty.IsTree ∧
    Server.create .echo (.ofSettings plainSettings .discard) 1 = .ok plainServer ∧
    (twoServed.server.current twoServed.disk false).1 = .ok b ∧ A ∈ b.modules ∧ x ∈ b.modules ∧
    A.id = ⟨"A.js"⟩ ∧ x.id = ⟨"x.js.js"⟩ ∧
    (∃ r, Request.read "GET" (Target.escapePath (Digest.bytes ("/modules/" ++ "A.js"))) [] false =
      .ok r ∧ r.AsksFor "A.js") ∧
    twoServed.AnsweredWith b A (moduleRequest "A.js") ∧
    twoServed.AnsweredWith b A (moduleRequest "A") ∧
    twoServed.AnsweredWith b x (moduleRequest "x.js.js") ∧
    ¬twoServed.AnsweredWith b x (moduleRequest "x.js") := by
  obtain ⟨b, A, x, hbuild, hmodules, hA, hx⟩ := exists_modules_twoServed
  have hAmem : A ∈ b.modules := by simp [hmodules]
  have hxmem : x ∈ b.modules := by simp [hmodules]
  have hstart : Server.create .echo (.ofSettings plainSettings .discard) 1 = .ok plainServer := rfl
  obtain ⟨hAasked, hApath, hAname⟩ :=
    module_answered_iff (v := ⟨.empty, plainServer⟩) Disk.isTree_empty hstart
      twoSources hbuild hAmem
  obtain ⟨-, hxpath, hxname⟩ := module_answered_iff (v := ⟨.empty, plainServer⟩) Disk.isTree_empty
    hstart twoSources hbuild hxmem
  rw [hA] at hAasked hApath hAname
  rw [hx] at hxpath hxname
  have hecho : Engine.echo ≠ .fiber := by decide
  have hlogicalA : ModuleId.logicalName ⟨"A.js"⟩ = "A" := by decide
  have hlogicalX : ModuleId.logicalName ⟨"x.js.js"⟩ = "x.js" := by decide
  rw [hlogicalA] at hAname
  rw [hlogicalX] at hxname
  refine ⟨b, A, x, Disk.isTree_empty, hstart, hbuild, hAmem, hxmem, hA, hx,
    hAasked _ List.mem_cons_self, ?_, ?_, ?_, ?_⟩
  · exact (hApath _ (asksFor_moduleRequest _)).2 (absurd · hecho)
  · exact (hAname _ (asksFor_moduleRequest _)).2 ⟨by decide, (absurd · hecho)⟩
  · exact (hxpath _ (asksFor_moduleRequest _)).2 (absurd · hecho)
  · intro hfound
    exact absurd ((hxname _ (asksFor_moduleRequest _)).1 hfound).1 (by decide)

/-- The suffix of an id cannot be left away where the name that remains ends in it once more. -/
theorem suffixed_name_not_found : ∃ b x,
    (twoServed.server.current twoServed.disk false).1 = .ok b ∧ x ∈ b.modules ∧
      (moduleRequest "x.js").AsksFor x.id.logicalName ∧
      twoServed.answer (moduleRequest "x.js") = .message 404 "error" "no module x.js" := by
  obtain ⟨b, A, x, hbuild, hmodules, hA, hx⟩ := exists_modules_twoServed
  have hname : x.id.logicalName = "x.js" := by rw [hx]; decide
  refine ⟨b, x, hbuild, by simp [hmodules], hname ▸ asksFor_moduleRequest _, ?_⟩
  have hnone : b.module? ⟨"x.js"⟩ = none := by simp [Build.module?, hmodules, hA, hx]
  have hparameter : twoServed.server.engine.parameter [("*", "x.js")] "*" = "x.js" := by
    decide
  have hid : Server.moduleId "x.js" = ⟨"x.js"⟩ := by decide
  rw [answer, Server.answer_of_dispatch hbuild rfl
    (Server.dispatch_echo (asksFor_moduleRequest "x.js")), hparameter, Server.moduleResponse, hid,
    hnone]
  rfl

end Served
end ScriptWeave
