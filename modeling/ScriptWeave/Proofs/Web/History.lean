import ScriptWeave.Proofs.Association
import ScriptWeave.Proofs.Disk.Cache
import ScriptWeave.Proofs.Disk.Nodes
import ScriptWeave.Web.Server

/-!
Histories of a project that is served: edits of its files, and requests to its server, one at a
time. What a server keeps of them is bounded, and nothing is kept that was not put there.
-/

namespace ScriptWeave

namespace Recent

variable {α : Type} {r r' : Recent α} {key : String} {value : α} {item : String × α}

theorem mem_others (h : item ∈ r.others key) : item ∈ r.items := List.mem_of_mem_filter h

theorem mem_of_get? (h : r.get? key = some (value, r')) : (key, value) ∈ r.items := by
  obtain ⟨_, hlookup, heq⟩ := Option.map_eq_some_iff.1 h
  cases heq
  exact mem_of_lookup hlookup

theorem items_of_get? (h : r.get? key = some (value, r')) (hitem : item ∈ r'.items) :
    item ∈ r.items := by
  have hmem := mem_of_get? h
  obtain ⟨_, -, heq⟩ := Option.map_eq_some_iff.1 h
  cases heq
  obtain rfl | hother := List.mem_cons.1 hitem
  · exact hmem
  · exact mem_others hother

theorem mem_insert (h : item ∈ (r.insert key value).items) :
    item = (key, value) ∨ item ∈ r.items := by
  obtain rfl | hother := List.mem_cons.1 (List.mem_of_mem_take h)
  · exact .inl rfl
  · exact .inr (mem_others hother)

end Recent

/-- What happens to a project that is served. -/
inductive ProjectEvent where
  | write (path text : String) (modified : Int)
  | remove (path : String)
  | makeDirectory (path : String)
  | request (r : Request)
  /-- A request whose client leaves before it has a build. -/
  | leave (r : Request) (i : Interruption)
  /-- A conversion whose client has left asks the reporter for faults. -/
  | ask (digest : String)
  /-- A conversion whose client has left ends. -/
  | settle (digest : String)

structure Served where
  disk : Disk
  server : Server

namespace Server

/-- What a server keeps through whatever happens to it, but for clients that leave. The disks that
requests find are among those that it may see; what its conversions are given comes from them. -/
structure Lasting (Sees : Disk → Prop) (From : List SourceFile → String → Prop)
    (Holds : Server → Prop) : Prop where
  seek : ∀ s d i, Sees d → Holds s → Holds (s.seek d i).2
  missing : ∀ s d i files digest, Sees d → Holds s →
    (s.seek d i).1 = .ok (.missing files digest) → From files digest
  leftover : ∀ s l, Holds s → l ∈ s.leftovers → From l.files l.digest
  conclude : ∀ s l, From l.files l.digest → Holds s → Holds (s.conclude l).2.2
  ask : ∀ s digest, Holds s → Holds (s.ask digest)

/-- What a server keeps when a client leaves its conversion alone. -/
def Outlasting (From : List SourceFile → String → Prop) (Holds : Server → Prop) : Prop :=
  ∀ s l, From l.files l.digest → Holds s → Holds { s with leftovers := s.leftovers ++ [l] }

namespace Lasting

variable {Sees : Disk → Prop} {From : List SourceFile → String → Prop} {Holds : Server → Prop}
  (h : Lasting Sees From Holds) {s : Server} (hs : Holds s)
include h hs

theorem leftover? {digest : String} {l : Leftover} (hl : s.leftover? digest = some l) :
    From l.files l.digest :=
  h.leftover s l hs (List.mem_of_find?_eq_some hl)

theorem settle (digest : String) : Holds (s.settle digest).2 := by
  rw [Server.settle]
  split
  · exact hs
  · next l hl => exact h.conclude s l (h.leftover? hs hl) hs

variable {d : Disk} (hd : Sees d)
include hd

theorem current (cancelled : Bool) : Holds (s.current d cancelled).2.2 := by
  have hsought := h.seek s d (.always cancelled) hd hs
  have hmissing := fun files digest => h.missing s d (.always cancelled) files digest hd hs
  rw [Server.current]
  generalize s.seek d (.always cancelled) = sought at hsought hmissing ⊢
  obtain ⟨fault | b | ⟨files, digest⟩, s'⟩ := sought
  · exact hsought
  · exact hsought
  · have hfrom := hmissing files digest rfl
    dsimp only
    split
    · exact h.conclude s' _ hfrom hsought
    · next l hl =>
        split
        · exact hsought
        · exact h.conclude s' l (h.leftover? hsought hl) hsought

theorem currentLeft (hleave : Outlasting From Holds) (i : Interruption) :
    Holds (s.currentLeft d i).2.2 := by
  have hsought := h.seek s d i hd hs
  have hmissing := fun files digest => h.missing s d i files digest hd hs
  rw [Server.currentLeft]
  generalize s.seek d i = sought at hsought hmissing ⊢
  obtain ⟨fault | b | ⟨files, digest⟩, s'⟩ := sought
  · exact hsought
  · exact hsought
  · dsimp only
    split
    · exact hsought
    · exact hleave s' ⟨files, digest, i, []⟩ (hmissing files digest rfl) hsought

end Lasting

/-- Presenting a build leaves the server that gave it. -/
theorem server_of_present (s : Server) (r : Request) (resource : Resource) (values : RouteValues)
    (given : Given) : (s.present r resource values given).2.2 = given.2.2 := by
  obtain ⟨fault | b, entries, s'⟩ := given
  · rfl
  · rw [present]
    split <;> rfl

/-- Handling a request leaves the server as it was, or the one that gave the build. -/
theorem server_of_handle (s : Server) (current : Server → Given) (r : Request) :
    (s.handle current r).2.2 = s ∨ (s.handle current r).2.2 = (current s).2.2 := by
  rw [handle]
  cases Engine.dispatch (routing s.engine) r with
  | error miss => exact .inl rfl
  | ok found =>
      dsimp only
      rw [respond]
      split
      · exact .inl rfl
      · exact .inr (server_of_present s r found.1 found.2 (current s))

namespace Lasting

variable {Sees : Disk → Prop} {From : List SourceFile → String → Prop} {Holds : Server → Prop}
  (h : Lasting Sees From Holds) {s : Server} (hs : Holds s) {d : Disk} (hd : Sees d)
include h hs hd

theorem serve (r : Request) : Holds (s.serve d r).2.2 := by
  obtain hsame | hcurrent := s.server_of_handle (·.current d (s.engine.noticesCancelled r)) r
  · rw [Server.serve, hsame]
    exact hs
  · rw [Server.serve, hcurrent]
    exact h.current hs hd _

theorem serveLeft (hleave : Outlasting From Holds) (r : Request) (i : Interruption) :
    Holds (s.serveLeft d r i).2.2 := by
  rw [Server.serveLeft]
  split
  · obtain hsame | hcurrent := s.server_of_handle (·.currentLeft d i) r
    · rw [hsame]
      exact hs
    · rw [hcurrent]
      exact h.currentLeft hs hd hleave i
  · exact h.serve hs hd r

end Lasting

end Server

namespace Served

/-- What an event leaves. Removing what is not there changes nothing. -/
def step (v : Served) : ProjectEvent → Served
  | .write path text modified => { v with disk := v.disk.put path text modified }
  | .remove path => { v with disk := (v.disk.removeDirect path).toOption.getD v.disk }
  | .makeDirectory path => { v with disk := v.disk.putDirectory path }
  | .request r => { v with server := (v.server.serve v.disk r).2.2 }
  | .leave r i => { v with server := (v.server.serveLeft v.disk r i).2.2 }
  | .ask digest => { v with server := v.server.ask digest }
  | .settle digest => { v with server := (v.server.settle digest).2 }

def answer (v : Served) (r : Request) : Response := (v.server.serve v.disk r).1

def run : Served → List ProjectEvent → Served
  | v, [] => v
  | v, event :: events => run (v.step event) events

/-- Every edit of the text of a node shows in its time or size. -/
def EditsShow : Served → List ProjectEvent → Prop
  | _, [] => True
  | v, event :: events =>
      (∀ path, v.disk.TellsApart (v.step event).disk path) ∧ EditsShow (v.step event) events

/-- The disk that a request finds. -/
def found (v : Served) : ProjectEvent → List Disk
  | .request _ | .leave _ _ => [v.disk]
  | _ => []

/-- The disks that requests find, and the one that is there in the end. -/
def seen : Served → List ProjectEvent → List Disk
  | v, [] => [v.disk]
  | v, event :: events => v.found event ++ seen (v.step event) events

theorem disk_run_mem_seen (v : Served) (events : List ProjectEvent) :
    (v.run events).disk ∈ v.seen events := by
  induction events generalizing v with
  | nil => exact List.mem_singleton_self _
  | cons event events ih => exact List.mem_append_right _ (ih _)

/-- What holds of a disk and is kept by every edit holds of all that are seen. -/
theorem forall_seen {P : Disk → Prop}
    (hstep : ∀ (v : Served) event, P v.disk → P (v.step event).disk) {v : Served} (h : P v.disk)
    (events : List ProjectEvent) : ∀ d ∈ v.seen events, P d := by
  induction events generalizing v with
  | nil => exact List.forall_mem_singleton.2 h
  | cons event events ih =>
      intro d hd
      obtain hfound | hlater := List.mem_append.1 hd
      · cases event with
        | request | leave => exact List.mem_singleton.1 hfound ▸ h
        | write | remove | makeDirectory | ask | settle => cases hfound
      · exact ih (hstep v event h) d hlater

/-- Edits change nothing about what a disk refuses. -/
theorem refusals_step (v : Served) (event : ProjectEvent) :
    (v.step event).disk.refusals = v.disk.refusals := by
  cases event with
  | write path text modified => exact (Disk.putUnder_put ..).refusals
  | remove path =>
      rw [step]
      cases hremoved : v.disk.removeDirect path with
      | error e => rfl
      | ok d' =>
          obtain ⟨rfl, _⟩ := Disk.removeDirect_eq_ok hremoved
          exact (Disk.takenFrom_erase ..).refusals
  | makeDirectory path => exact (Disk.putUnder_putDirectory ..).refusals
  | request | leave | ask | settle => rfl

theorem refusals_of_mem_seen {v : Served} {events : List ProjectEvent} :
    ∀ d ∈ v.seen events, d.refusals = v.disk.refusals :=
  forall_seen (P := fun d => d.refusals = v.disk.refusals)
    (fun v event h => (refusals_step v event).trans h) rfl events

/-- What lasts through each request and each end of a conversion lasts through a history of them. -/
theorem lasting_run {Sees : Disk → Prop} {From : List SourceFile → String → Prop}
    {Holds : Server → Prop} (h : Server.Lasting Sees From Holds) {v : Served}
    {events : List ProjectEvent}
    (hleave : ∀ r i, .leave r i ∈ events → Server.Outlasting From Holds)
    (hseen : ∀ d ∈ v.seen events, Sees d) (hv : Holds v.server) : Holds (v.run events).server := by
  induction events generalizing v with
  | nil => exact hv
  | cons event events ih =>
      obtain ⟨hfound, hlater⟩ := List.forall_mem_append.1 hseen
      refine ih (fun r i hmem => hleave r i (List.mem_cons_of_mem _ hmem)) hlater ?_
      cases event with
      | request r => exact h.serve hv (hfound _ List.mem_cons_self) r
      | leave r i =>
          exact h.serveLeft hv (hfound _ List.mem_cons_self) (hleave r i List.mem_cons_self) r i
      | ask digest => exact h.ask _ digest hv
      | settle digest => exact h.settle hv digest
      | write | remove | makeDirectory => exact hv

end Served
end ScriptWeave
