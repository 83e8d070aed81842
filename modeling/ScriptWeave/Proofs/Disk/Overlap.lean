import Mathlib
import ScriptWeave.Disk.Overlap
import ScriptWeave.Proofs.Disk.Cache
import ScriptWeave.Proofs.Disk.Nodes

/-!
Reads of a file that overlap with each other and with writes. A file is read in one step, and the
time and size that vouch for its text are taken in a later one: a write that comes between them
vouches for the text from before it. From the last write of a file on, every read gives what stands
on the disk, exactly unless a read that holds an outdated text at that moment records it.
-/

namespace ScriptWeave

open Disk (locate)

namespace Disk

/-- What stands on a disk is read alike as long as the text is the same. -/
theorem text_congr {d d' : Disk} {path : String} {node node' : Node}
    (hnode : d.node? path = some node) (hnode' : d'.node? path = some node')
    (htext : node'.text = node.text) (hrefusals : d'.refusals = d.refusals) :
    d'.text path = d.text path := by
  rw [Disk.text, Disk.text, read_of_node? hnode, read_of_node? hnode', refusal?, refusal?,
    hrefusals, htext]

theorem refusal?_of_stat {d : Disk} {path : String} {node : Node} (h : d.stat path = .ok node) :
    d.refusal? .stat path = none := by
  rw [stat] at h
  split at h
  · cases h
  · next hallowed => exact hallowed

end Disk

namespace Reads

/-- Whether the next read of a file gives what stands on the disk. -/
def Current (s : Reads) (path : String) : Prop :=
  (s.cache.readPath s.disk path).1 = s.disk.text path

/-- A read under way holds a text of a file that no longer stands on the disk. -/
def Outdated (s : Reads) (path : String) (call : Nat) : Prop :=
  ∃ text, s.stage? call = some (.holding path text) ∧ s.disk.text path ≠ .ok text

variable {s t : Reads} {path : String}

theorem lookup_others (s : Reads) (call other : Nat) :
    (s.others call).lookup other = if other = call then none else s.stage? other :=
  lookup_filter_ne _ _ _

/-- What an event does. An event that finds no read to go on with does nothing. -/
inductive Goes (s : Reads) : ReadEvent → Reads → Prop where
  | wrote (path text : String) (modified : Int) :
      Goes s (.write path text modified) { s with disk := s.disk.put path text modified }
  | found {call : Nat} {path text : String} {cache : ContentCache} (hnew : s.stage? call = none)
      (hfound : s.cache.validate s.disk path path = (some text, cache)) :
      Goes s (.validate call path)
        { s with cache, answers := s.answers ++ [⟨call, path, .ok text⟩] }
  | missed {call : Nat} {path : String} {cache : ContentCache} (hnew : s.stage? call = none)
      (hmissed : s.cache.validate s.disk path path = (none, cache)) :
      Goes s (.validate call path) { s with cache, pending := (call, .missed path) :: s.pending }
  | failed {call : Nat} {path : String} {e : DiskError}
      (hstage : s.stage? call = some (.missed path)) (hread : s.disk.read path = .error e) :
      Goes s (.read call)
        { s with
          pending := s.others call
          answers := s.answers ++ [⟨call, path, .error e.toFault⟩] }
  | took {call : Nat} {path text : String} (hstage : s.stage? call = some (.missed path))
      (hread : s.disk.read path = .ok text) :
      Goes s (.read call) { s with pending := (call, .holding path text) :: s.others call }
  | recorded {call : Nat} {path text : String}
      (hstage : s.stage? call = some (.holding path text)) :
      Goes s (.record call)
        { s with
          cache := s.cache.recordIfPossible s.disk path text path
          pending := s.others call
          answers := s.answers ++ [⟨call, path, .ok text⟩] }
  | idle {event : ReadEvent} : Goes s event s

theorem goes_step (s : Reads) (event : ReadEvent) : s.Goes event (s.step event) := by
  cases event with
  | write path text modified => exact .wrote path text modified
  | validate call path =>
      rw [step, validate]
      split
      · exact .idle
      · next hnew =>
          split
          · next hfound => exact .found hnew hfound
          · next hmissed => exact .missed hnew hmissed
  | read call =>
      rw [step, read]
      split
      · next hstage =>
          split
          · next hread => exact .failed hstage hread
          · next hread => exact .took hstage hread
      · exact .idle
  | record call =>
      rw [step, record]
      split
      · next hstage => exact .recorded hstage
      · exact .idle

theorem run_append (s : Reads) (events events' : List ReadEvent) :
    s.run (events ++ events') = (s.run events).run events' :=
  List.foldl_append

theorem run_concat (s : Reads) (events : List ReadEvent) (event : ReadEvent) :
    s.run (events ++ [event]) = (s.run events).step event :=
  s.run_append events [event]

theorem record_of_holding {call : Nat} {text : String}
    (hstage : s.stage? call = some (.holding path text)) : s.record call =
      { s with
        cache := s.cache.recordIfPossible s.disk path text path
        pending := s.others call
        answers := s.answers ++ [⟨call, path, .ok text⟩] } := by
  rw [record, hstage]

/-- A read that holds a text holds it until it records it. -/
theorem stage?_of_goes {call : Nat} {text : String} {event : ReadEvent}
    (hstage : s.stage? call = some (.holding path text)) (hevent : event ≠ .record call)
    (h : s.Goes event t) : t.stage? call = some (.holding path text) := by
  have hne {call' : Nat} (hother : s.stage? call' ≠ some (.holding path text)) : call ≠ call' := by
    rintro rfl
    exact hother hstage
  cases h with
  | wrote => exact hstage
  | found => exact hstage
  | missed hnew =>
      rw [stage?, List.lookup_cons, beq_eq_false_iff_ne.2 (hne (by rw [hnew]; nofun))]
      exact hstage
  | failed hmissed =>
      rw [stage?, lookup_others, if_neg (hne (by rw [hmissed]; nofun)), hstage]
  | took hmissed =>
      rw [stage?, List.lookup_cons, beq_eq_false_iff_ne.2 (hne (by rw [hmissed]; nofun)),
        lookup_others, if_neg (hne (by rw [hmissed]; nofun)), hstage]
  | recorded =>
      rw [stage?, lookup_others, if_neg fun heq => hevent (by rw [heq]), hstage]
  | idle => exact hstage

theorem stage?_run {call : Nat} {text : String} {events : List ReadEvent}
    (hstage : s.stage? call = some (.holding path text)) (hevents : .record call ∉ events) :
    (s.run events).stage? call = some (.holding path text) := by
  induction events generalizing s with
  | nil => exact hstage
  | cons event events ih =>
      have hevent : event ≠ .record call := fun heq => hevents (heq ▸ List.mem_cons_self)
      exact ih (stage?_of_goes hstage hevent (goes_step s event))
        fun hmem => hevents (List.mem_cons_of_mem _ hmem)

/-- Every text of a file was recorded under a time that the file had. -/
def RecordedAt (s : Reads) (path : String) (seen : Int → Prop) : Prop :=
  ∀ item, s.cache.items.lookup path = some item → seen item.modified

theorem RecordedAt.of_goes {seen : Int → Prop} {event : ReadEvent} (hs : s.RecordedAt path seen)
    (hseen : ∀ node, s.disk.node? path = some node → seen node.modified) (h : s.Goes event t) :
    t.RecordedAt path seen := by
  cases h with
  | wrote => exact hs
  | found _ hfound | missed _ hfound =>
      intro item hitem
      exact hs item (FileCache.of_lookup_validate hfound hitem)
  | failed => exact hs
  | took => exact hs
  | recorded =>
      intro item hitem
      obtain ⟨node, rfl, hnode, rfl⟩ | hold := FileCache.of_lookup_recordIfPossible hitem
      · exact hseen node (Disk.node?_of_stat hnode)
      · exact hs item hold
  | idle => exact hs

/-- The times that a file had before or between events. -/
def TimeOf (s : Reads) (events : List ReadEvent) (path : String) (modified : Int) : Prop :=
  ∃ soon node, soon <+: events ∧ (s.run soon).disk.node? path = some node ∧
    node.modified = modified

theorem not_timeOf_iff {events : List ReadEvent} {modified : Int} :
    ¬s.TimeOf events path modified ↔ (events.inits.all fun soon =>
      ((s.run soon).disk.node? path).all (·.modified ≠ modified)) = true := by
  simp only [TimeOf, List.all_eq_true, List.mem_inits, Option.all_eq_true, decide_eq_true_eq,
    not_exists, not_and]
  exact ⟨fun h soon hsoon node => h soon node hsoon, fun h soon node hsoon => h soon hsoon node⟩

theorem recordedAt_run (d : Disk) (events : List ReadEvent) (path : String) :
    ((start d).run events).RecordedAt path ((start d).TimeOf events path) := by
  induction events using List.reverseRecOn with
  | nil =>
      intro item hitem
      cases hitem
  | append_singleton events event ih =>
      rw [run_concat]
      refine RecordedAt.of_goes (fun item hitem => ?_) (fun node hnode => ?_) (goes_step _ event)
      · obtain ⟨soon, node, hsoon, hnode, hmodified⟩ := ih item hitem
        exact ⟨soon, node, hsoon.trans (List.prefix_append _ _), hnode, hmodified⟩
      · exact ⟨events, node, List.prefix_append _ _, hnode, rfl⟩

/-- The last write of a file is the last of the events, and it gave the file a time that it never
had before; or there are no events yet, and the file stands on the disk. -/
inductive LastWritten (d : Disk) (path : String) : List ReadEvent → Prop where
  | initially {node : Node} (hnode : d.node? path = some node) : LastWritten d path []
  | written {earlier : List ReadEvent} {other text : String} {modified : Int}
      (hother : locate other = locate path)
      (hfresh : ¬(start d).TimeOf earlier path modified) :
      LastWritten d path (earlier ++ [.write other text modified])

/-- Nothing is written to the place of a path. -/
def Unwritten (path : String) (events : List ReadEvent) : Prop :=
  ∀ other text modified, .write other text modified ∈ events → locate other ≠ locate path

/-- No read that holds an outdated text of a file records it. Where the file may not be examined,
nothing is recorded. -/
def Dropped (s : Reads) (path : String) (events : List ReadEvent) : Prop :=
  s.disk.refusal? .stat path = none → ∀ call, s.Outdated path call → .record call ∉ events

/-- A file is as it was. -/
structure Kept (s t : Reads) (path : String) (old : Node) : Prop where
  node : ∃ node, t.disk.node? path = some node ∧ node.text = old.text ∧ node.modified = old.modified
  refusals : t.disk.refusals = s.disk.refusals

namespace Kept

variable {old : Node} {events : List ReadEvent} {event : ReadEvent}

theorem refl (hold : s.disk.node? path = some old) : Kept s s path old :=
  ⟨⟨old, hold, rfl, rfl⟩, rfl⟩

theorem text_eq (h : Kept s t path old) (hold : s.disk.node? path = some old) :
    t.disk.text path = s.disk.text path := by
  obtain ⟨node, hnode, htext, _⟩ := h.node
  exact Disk.text_congr hold hnode htext h.refusals

theorem refusal?_eq (h : Kept s t path old) (operation : DiskOperation) :
    t.disk.refusal? operation path = s.disk.refusal? operation path := by
  rw [Disk.refusal?, Disk.refusal?, h.refusals]

theorem of_goes {t' : Reads} (h : Kept s t path old) (hevent : event ∈ events)
    (hunwritten : Unwritten path events) (hgoes : t.Goes event t') : Kept s t' path old := by
  cases hgoes with
  | wrote other text modified =>
      obtain ⟨node, hnode, htext, hmodified⟩ := h.node
      have hput := t.disk.putUnder_put other text modified
      have hroom := hput.room (locate path) (hunwritten other text modified hevent).symm
      rw [← Disk.node?, hnode] at hroom
      obtain ⟨node', hnode', hgrows⟩ := hroom.of_some
      exact ⟨⟨node', hnode', hgrows.text.trans htext, hgrows.modified.trans hmodified⟩,
        hput.refusals.trans h.refusals⟩
  | found => exact ⟨h.node, h.refusals⟩
  | missed => exact ⟨h.node, h.refusals⟩
  | failed => exact ⟨h.node, h.refusals⟩
  | took => exact ⟨h.node, h.refusals⟩
  | recorded => exact ⟨h.node, h.refusals⟩
  | idle => exact h

theorem run (h : Kept s t path old) (hunwritten : Unwritten path events) :
    Kept s (t.run events) path old := by
  induction events generalizing t with
  | nil => exact h
  | cons event events ih =>
      refine ih (h.of_goes List.mem_cons_self hunwritten (goes_step t event)) ?_
      exact fun other text modified hmem => hunwritten other text modified (.tail _ hmem)

end Kept

/-- A state that came from another one without any write of a file and with nothing outdated
recorded: what is recorded under the time of the file is what stands on the disk, and so is what
reads hold and were answered unless they were under way before. -/
structure Since (s t : Reads) (path : String) (old : Node) : Prop extends Kept s t path old where
  recorded : ∀ item, t.cache.items.lookup path = some item → item.modified = old.modified →
    s.disk.text path = .ok item.value
  held : ∀ call text, t.stage? call = some (.holding path text) →
    s.disk.text path = .ok text ∨ s.stage? call = some (.holding path text)
  answered : ∃ answers, t.answers = s.answers ++ answers ∧
    ∀ a ∈ answers, a.path = path → s.stage? a.call = none → a.text = s.disk.text path

theorem LastWritten.since {d : Disk} {events : List ReadEvent} (h : LastWritten d path events) :
    ∃ old, ((start d).run events).disk.node? path = some old ∧
      Since ((start d).run events) ((start d).run events) path old := by
  suffices hold : ∃ old, ((start d).run events).disk.node? path = some old ∧
      ∀ item, ((start d).run events).cache.items.lookup path = some item →
        item.modified ≠ old.modified by
    obtain ⟨old, hnode, hrecorded⟩ := hold
    refine ⟨old, hnode, .refl hnode, fun item hitem hmodified => ?_, fun _ _ hheld => .inr hheld,
      [], (List.append_nil _).symm, fun a ha => absurd ha List.not_mem_nil⟩
    exact absurd hmodified (hrecorded item hitem)
  cases h with
  | @initially node hnode => exact ⟨node, hnode, fun item hitem => by cases hitem⟩
  | @written earlier other text modified hother hfresh =>
      rw [run_concat]
      have hnode := ((start d).run earlier).disk.node?_put other text modified
      refine ⟨_, by rw [Disk.node?, ← hother]; exact hnode, fun item hitem hmodified => hfresh ?_⟩
      have hseen := recordedAt_run d earlier path item hitem
      rwa [hmodified] at hseen

namespace Since

variable {old : Node} {events : List ReadEvent} {event : ReadEvent}

/-- What is found to be unchanged is what stands on the disk. -/
theorem found_eq {text : String} {cache : ContentCache} (h : Since s t path old)
    (hfound : t.cache.validate t.disk path path = (some text, cache)) :
    s.disk.text path = .ok text := by
  obtain ⟨item, node, hitem, hstat, hmatches, rfl⟩ := FileCache.exists_of_validate hfound
  obtain ⟨node', hnode', _, hmodified⟩ := h.node
  have heq := Disk.node?_of_stat hstat
  rw [hnode'] at heq
  cases heq
  exact h.recorded item hitem ((CacheItem.matchesNode_iff.1 hmatches).1.trans hmodified)

/-- The next read gives what stands on the disk. -/
theorem current (h : Since s t path old) (hold : s.disk.node? path = some old) :
    t.Current path := by
  rw [Current, ContentCache.readPath_fst]
  rcases hvalidate : t.cache.validate t.disk path path with ⟨_ | text, cache⟩
  · rfl
  · rw [h.text_eq hold, h.found_eq hvalidate]

/-- One more answer that is right unless its read was under way before. -/
theorem answered_concat (h : Since s t path old) (a : ReadAnswer)
    (ha : a.path = path → s.stage? a.call = none → a.text = s.disk.text path) :
    ∃ answers, t.answers ++ [a] = s.answers ++ answers ∧
      ∀ a ∈ answers, a.path = path → s.stage? a.call = none → a.text = s.disk.text path := by
  obtain ⟨answers, heq, hanswers⟩ := h.answered
  refine ⟨answers ++ [a], by rw [heq, List.append_assoc], fun a' ha' => ?_⟩
  obtain hmem | hmem := List.mem_append.1 ha'
  · exact hanswers a' hmem
  · rwa [List.mem_singleton.1 hmem]

theorem held_others (h : Since s t path old) (done : Nat) (call : Nat) (text : String)
    (hstage : (t.others done).lookup call = some (.holding path text)) :
    s.disk.text path = .ok text ∨ s.stage? call = some (.holding path text) := by
  rw [lookup_others] at hstage
  split at hstage
  · cases hstage
  · exact h.held call text hstage

theorem of_goes {t' : Reads} (h : Since s t path old) (hold : s.disk.node? path = some old)
    (hevent : event ∈ events) (hunwritten : Unwritten path events)
    (hdropped : Dropped s path events) (hgoes : t.Goes event t') : Since s t' path old := by
  refine ⟨h.toKept.of_goes hevent hunwritten hgoes, ?recorded, ?held, ?answered⟩
  case recorded =>
    cases hgoes with
    | wrote => exact h.recorded
    | found _ hfound | missed _ hfound =>
        intro item hitem
        exact h.recorded item (FileCache.of_lookup_validate hfound hitem)
    | failed => exact h.recorded
    | took => exact h.recorded
    | @recorded call other text hstage =>
        intro item hitem hmodified
        obtain ⟨node, rfl, hstat, rfl⟩ | hbefore := FileCache.of_lookup_recordIfPossible hitem
        · have hallowed := (h.refusal?_eq .stat).symm.trans (Disk.refusal?_of_stat hstat)
          refine (h.held call text hstage).elim id fun hstage' => ?_
          by_contra houtdated
          exact hdropped hallowed call ⟨text, hstage', houtdated⟩ hevent
        · exact h.recorded item hbefore hmodified
    | idle => exact h.recorded
  case held =>
    cases hgoes with
    | wrote => exact h.held
    | found => exact h.held
    | missed hnew hmissed =>
        intro call text hstage
        rw [stage?, List.lookup_cons] at hstage
        split at hstage
        · cases hstage
        · exact h.held call text hstage
    | failed => exact h.held_others _
    | took hstage hread =>
        intro call text hstage'
        rw [stage?, List.lookup_cons] at hstage'
        split at hstage'
        · cases hstage'
          rw [← h.text_eq hold, Disk.text, hread]
          exact .inl rfl
        · exact h.held_others _ call text hstage'
    | recorded => exact h.held_others _
    | idle => exact h.held
  case answered =>
    cases hgoes with
    | wrote => exact h.answered
    | found hnew hfound =>
        refine h.answered_concat _ fun hpath _ => ?_
        subst hpath
        exact (h.found_eq hfound).symm
    | missed => exact h.answered
    | failed hstage hread =>
        refine h.answered_concat _ fun hpath _ => ?_
        subst hpath
        rw [← h.text_eq hold, Disk.text, hread]
    | took => exact h.answered
    | recorded hstage =>
        refine h.answered_concat _ fun hpath hnew => ?_
        subst hpath
        obtain hcurrent | hstage' := h.held _ _ hstage
        · exact hcurrent.symm
        · rw [hnew] at hstage'
          cases hstage'
    | idle => exact h.answered

theorem run (h : Since s t path old) (hold : s.disk.node? path = some old)
    (hunwritten : Unwritten path events) (hdropped : Dropped s path events) :
    Since s (t.run events) path old := by
  induction events generalizing t with
  | nil => exact h
  | cons event events ih =>
      refine ih (h.of_goes hold List.mem_cons_self hunwritten hdropped (goes_step t event)) ?_ ?_
      · exact fun other text modified hmem => hunwritten other text modified (.tail _ hmem)
      · exact fun hallowed call houtdated hmem => hdropped hallowed call houtdated (.tail _ hmem)

end Since

theorem Dropped.of_prefix {soon events : List ReadEvent} (h : Dropped s path events)
    (hsoon : soon <+: events) : Dropped s path soon :=
  fun hallowed call houtdated hmem => h hallowed call houtdated (hsoon.subset hmem)

theorem Unwritten.of_prefix {soon events : List ReadEvent} (h : Unwritten path events)
    (hsoon : soon <+: events) : Unwritten path soon :=
  fun other text modified hmem => h other text modified (hsoon.subset hmem)

/-- Once a text that is not on the disk is recorded, it is what is read. -/
theorem not_current_record {call : Nat} {text : String} {node : Node}
    (hstage : s.stage? call = some (.holding path text)) (hnode : s.disk.node? path = some node)
    (hallowed : s.disk.refusal? .stat path = none) (houtdated : s.disk.text path ≠ .ok text) :
    ¬(s.record call).Current path := by
  have hstat := Disk.stat_of_node? hnode hallowed
  rw [record_of_holding hstage]
  intro hcurrent
  rw [Current, ContentCache.readPath_fst, FileCache.validate,
    FileCache.lookup_recordIfPossible, hstat] at hcurrent
  simp [CacheItem.matchesNode] at hcurrent
  exact houtdated hcurrent.symm

/-- An outdated text that is held when a file is written last, and recorded later, is read from then
on. -/
theorem Outdated.exists_not_current {call : Nat} {old : Node} {events : List ReadEvent}
    (h : s.Outdated path call) (hold : s.disk.node? path = some old)
    (hunwritten : Unwritten path events) (hallowed : s.disk.refusal? .stat path = none)
    (hrecord : .record call ∈ events) : ∃ soon, soon <+: events ∧ ¬(s.run soon).Current path := by
  obtain ⟨text, hstage, houtdated⟩ := h
  obtain ⟨soon, later, rfl, hfirst⟩ := List.eq_append_cons_of_mem hrecord
  have hsoon : soon ++ [ReadEvent.record call] <+: soon ++ ReadEvent.record call :: later := by simp
  have hkept := (Kept.refl hold).run (hunwritten.of_prefix (List.prefix_append soon _))
  obtain ⟨node, hnode, _, _⟩ := hkept.node
  refine ⟨soon ++ [ReadEvent.record call], hsoon, ?_⟩
  rw [run_concat]
  exact not_current_record (stage?_run hstage hfirst) hnode ((hkept.refusal?_eq _).trans hallowed)
    (by rwa [hkept.text_eq hold])

/-- From the last write of a file on, every read of it gives what stands on the disk, exactly if no
read records an outdated text that it held at that moment; and then every read that begins later is
answered with what stands on the disk, also if others overlap with it. -/
theorem current_since_lastWritten_iff {d : Disk} {before after : List ReadEvent}
    (hlast : LastWritten d path before) (hunwritten : Unwritten path after) :
    ((∀ soon, soon <+: after → (((start d).run before).run soon).Current path) ↔
      ((start d).run before).Dropped path after) ∧
    (((start d).run before).Dropped path after →
      ∃ answers, (((start d).run before).run after).answers =
          ((start d).run before).answers ++ answers ∧
        ∀ a ∈ answers, a.path = path → ((start d).run before).stage? a.call = none →
          a.text = ((start d).run before).disk.text path) := by
  obtain ⟨old, hold, hsince⟩ := hlast.since
  constructor
  case left =>
    constructor
    case mp =>
      intro hcurrent hallowed call houtdated hrecord
      obtain ⟨soon, hsoon, hnot⟩ :=
        houtdated.exists_not_current hold hunwritten hallowed hrecord
      exact hnot (hcurrent soon hsoon)
    case mpr =>
      intro hdropped soon hsoon
      exact (hsince.run hold (hunwritten.of_prefix hsoon) (hdropped.of_prefix hsoon)).current hold
  case right => exact fun hdropped => (hsince.run hold hunwritten hdropped).answered

/-- A write between the first two steps of a read does no harm: the read takes the new text. -/
theorem overtaken_validation_current :
    LastWritten .empty "/a.as"
      [.write "/a.as" "old" 1, .validate 0 "/a.as", .write "/a.as" "new" 2] ∧
    Unwritten "/a.as" [.read 0, .record 0] ∧
    Dropped ((start .empty).run
      [.write "/a.as" "old" 1, .validate 0 "/a.as", .write "/a.as" "new" 2])
      "/a.as" [.read 0, .record 0] ∧
    (((start .empty).run [.write "/a.as" "old" 1, .validate 0 "/a.as", .write "/a.as" "new" 2]).run
      [.read 0, .record 0]).Current "/a.as" := by
  have hlast : LastWritten .empty "/a.as"
      ([ReadEvent.write "/a.as" "old" 1, ReadEvent.validate 0 "/a.as"] ++
        [ReadEvent.write "/a.as" "new" 2]) := by
    refine .written rfl ?_
    rw [not_timeOf_iff]
    cbv
  have hunwritten : Unwritten "/a.as" [.read 0, .record 0] := by
    intro other text modified hmem
    simp at hmem
  have hdropped : Dropped ((start .empty).run
      [.write "/a.as" "old" 1, .validate 0 "/a.as", .write "/a.as" "new" 2])
      "/a.as" [.read 0, .record 0] := by
    rintro _ call ⟨text, hstage, _⟩ hrecord
    have hcall : call = 0 := by simpa using hrecord
    subst hcall
    have hmissed : ((start .empty).run [.write "/a.as" "old" 1, .validate 0 "/a.as",
      .write "/a.as" "new" 2]).stage? 0 = some (.missed "/a.as") := by cbv
    rw [hmissed] at hstage
    cases hstage
  exact ⟨hlast, hunwritten, hdropped,
    (current_since_lastWritten_iff hlast hunwritten).1.2 hdropped _ (List.prefix_refl _)⟩

/-- A write between the last two steps of a read vouches for the text from before it, which every
later read is then given. -/
theorem overtaken_recording_not_current :
    LastWritten .empty "/a.as"
      [.write "/a.as" "old" 1, .validate 0 "/a.as", .read 0, .write "/a.as" "new" 2] ∧
    Unwritten "/a.as" [.record 0] ∧
    (((start .empty).run [.write "/a.as" "old" 1, .validate 0 "/a.as", .read 0,
      .write "/a.as" "new" 2]).run [.record 0]).disk.text "/a.as" = .ok "new" ∧
    (((start .empty).run [.write "/a.as" "old" 1, .validate 0 "/a.as", .read 0,
      .write "/a.as" "new" 2]).run [.record 0, .validate 1 "/a.as"]).answers.getLast? =
        some ⟨1, "/a.as", .ok "old"⟩ := by
  have hlast : LastWritten .empty "/a.as"
      ([ReadEvent.write "/a.as" "old" 1, ReadEvent.validate 0 "/a.as", ReadEvent.read 0] ++
        [ReadEvent.write "/a.as" "new" 2]) := by
    refine .written rfl ?_
    rw [not_timeOf_iff]
    cbv
  have hunwritten : Unwritten "/a.as" [.record 0] := by
    intro other text modified hmem
    simp at hmem
  exact ⟨hlast, hunwritten, by cbv, by cbv⟩

end Reads
end ScriptWeave
