import ScriptWeave.Proofs.Build.Removal

/-!
What a list of changes leaves on a disk. Changes that remove take away what they lead to. Changes
that add leave every other file as it is, unless it stands above what they add and becomes a
directory; made once more, they change nothing but the times of the files they write.
-/

namespace ScriptWeave

open Text

/-- A node apart from what it knows to be in it. -/
def Node.bare (n : Node) : Node := { n with entries := [] }

/-- A node apart from its time. -/
def Node.untimed (n : Node) : Node := { n with modified := 0 }

/-- The text and the time of a node that is a file. -/
def Node.file? (n : Node) : Option (String × Int) :=
  if n.isDirectory then none else some (n.text, n.modified)

theorem Node.Grows.trans {n n' n'' : Node} (h : n.Grows n') (h' : n'.Grows n'') : n.Grows n'' := by
  induction h' with
  | same => exact h
  | holding key _ ih => exact .holding key ih

/-- A file that grows is the same file, or a directory. -/
theorem Node.Grows.file? {n n' : Node} (h : n.Grows n') : n'.file? = n.file? ∨ n'.file? = none := by
  by_cases hdirectory : n'.isDirectory = true
  · exact .inr (if_pos hdirectory)
  · have hfile : ¬n.isDirectory = true := fun hn => hdirectory (h.isDirectory hn)
    rw [Node.file?, Node.file?, if_neg hdirectory, if_neg hfile, h.text, h.modified]
    exact .inl rfl

namespace Disk

namespace Change

def operation : Change → DiskOperation
  | .remove _ => .remove
  | .makeDirectory _ => .makeDirectory
  | .write _ _ => .write

def path : Change → String
  | .remove path | .makeDirectory path | .write path _ => path

/-- The key under which a change writes. -/
def written? : Change → Option String
  | .write path _ => some (locate path)
  | _ => none

end Change

/-- The file that is kept under a key. -/
def fileUnder? (d : Disk) (k : String) : Option (String × Int) := (d.nodes.lookup k).bind Node.file?

/-- The text and the time of the file at a path; a directory is no file. -/
def file? (d : Disk) (path : String) : Option (String × Int) := d.fileUnder? (locate path)

variable {d d' : Disk} {c : Change} {cs more : List Change} {k path text : String}

theorem MadeRoom.trans {o o' o'' : Option Node} (h : MadeRoom o o') (h' : MadeRoom o' o'') :
    MadeRoom o o'' := by
  cases h with
  | absent => exact h'
  | grew h =>
      cases h' with
      | grew h' => exact .grew (h.trans h')
  | made h hdirectory =>
      cases h' with
      | grew h' => exact .made (h.trans h') (h'.isDirectory hdirectory)

/-- Where room is made, a file stays as it is or becomes a directory. -/
theorem MadeRoom.file? {o o' : Option Node} (h : MadeRoom o o') :
    o'.bind Node.file? = o.bind Node.file? ∨ o'.bind Node.file? = none := by
  cases h with
  | absent => exact .inl rfl
  | grew h => exact h.file?
  | made h hdirectory => exact .inr (if_pos hdirectory)

theorem carryOut_cons_eq_none : d.carryOut (c :: cs) = (none, d') ↔
    ∃ d₁, d.change c = .ok d₁ ∧ d₁.carryOut cs = (none, d') := by
  rw [carryOut]
  cases d.change c with
  | error e => simp
  | ok d₁ => simp

theorem carryOut_append_eq_none : d.carryOut (cs ++ more) = (none, d') ↔
    ∃ d₁, d.carryOut cs = (none, d₁) ∧ d₁.carryOut more = (none, d') := by
  rw [carryOut_append]
  rcases d.carryOut cs with ⟨_ | e, d₁⟩
  · simp
  · simp

theorem EndsLike.eq_of_ok {α : Type} {a : α} {r : Option DiskError × Disk}
    (h : EndsLike (.ok a, d) r) : r = (none, d) := by
  cases h
  rfl

theorem EndsLike.exists_ok {α : Type} {ended : Except Fault α × Disk}
    (h : EndsLike ended (none, d)) : ∃ a, ended = (.ok a, d) := by
  cases h with
  | done a => exact ⟨a, rfl⟩

/-- A change is not refused. -/
def Allows (d : Disk) (c : Change) : Prop := d.refusal? c.operation c.path = none

theorem Allows.of_refusals (hrefusals : d'.refusals = d.refusals) (h : d.Allows c) :
    d'.Allows c := by
  rwa [Allows, refusal?, hrefusals]

/-- A removal takes away a node, or finds none. -/
theorem change_remove_eq_ok (h : d.change (.remove path) = .ok d') :
    d' = d.erase path ∨ d' = d ∧ d.node? path = none := by
  rw [change] at h
  split at h
  · next hremove =>
      cases h
      exact .inl (removeDirect_eq_ok (remove_eq_ok hremove)).1
  · next e hremove =>
      split at h
      · next hmissing =>
          cases h
          refine .inr ⟨rfl, ?_⟩
          by_contra hnode
          rw [remove] at hremove
          split at hremove
          · next hrefused =>
              rw [refusal?, Option.map_eq_some_iff] at hrefused
              obtain ⟨r, _, rfl⟩ := hrefused
              cases hremove
              exact Bool.false_ne_true hmissing
          · rw [removeDirect, if_neg (by simpa using hnode)] at hremove
            split at hremove
            · cases hremove
              exact Bool.false_ne_true hmissing
            · split at hremove
              · cases hremove
              · cases hremove
                exact Bool.false_ne_true hmissing
      · cases h

theorem refusals_change (h : d.change c = .ok d') : d'.refusals = d.refusals := by
  cases c with
  | remove path =>
      obtain rfl | ⟨rfl, _⟩ := change_remove_eq_ok h
      · exact (takenFrom_erase d path).refusals
      · rfl
  | makeDirectory path =>
      rw [makeDirectory_eq_ok h]
      exact (putUnder_putDirectory d path).refusals
  | write path text =>
      rw [write_eq_ok h]
      exact (putUnder_put d path text d.clock).refusals

theorem allows_of_change (h : d.change c = .ok d') : d.Allows c := by
  cases hrefused : d.refusal? c.operation c.path with
  | none => exact hrefused
  | some e =>
      have hnot : e.isMissing = false := by
        rw [refusal?, Option.map_eq_some_iff] at hrefused
        obtain ⟨r, _, rfl⟩ := hrefused
        rfl
      cases c with
      | remove path =>
          have hremove : d.remove path = .error e := by
            rw [remove]
            simp only [Change.operation, Change.path] at hrefused
            rw [hrefused]
          simp [change, hremove, hnot] at h
      | makeDirectory path =>
          simp only [Change.operation, Change.path] at hrefused
          simp [change, makeDirectory, hrefused] at h
      | write path text =>
          simp only [Change.operation, Change.path] at hrefused
          simp [change, write, hrefused] at h

theorem refusals_carryOut (h : d.carryOut cs = (none, d')) : d'.refusals = d.refusals := by
  induction cs generalizing d with
  | nil =>
      cases h
      rfl
  | cons c cs ih =>
      obtain ⟨d₁, hchange, hrest⟩ := carryOut_cons_eq_none.1 h
      exact (ih hrest).trans (refusals_change hchange)

theorem allows_of_carryOut (h : d.carryOut cs = (none, d')) (hc : c ∈ cs) : d.Allows c := by
  induction cs generalizing d with
  | nil => cases hc
  | cons first cs ih =>
      obtain ⟨d₁, hchange, hrest⟩ := carryOut_cons_eq_none.1 h
      obtain rfl | hmem := List.mem_cons.1 hc
      · exact allows_of_change hchange
      · exact (ih hrest hmem).of_refusals (refusals_change hchange).symm

theorem TakenFrom.bare {key : String} (h : TakenFrom d d' key) (hk : k ≠ key) :
    (d'.nodes.lookup k).map Node.bare = (d.nodes.lookup k).map Node.bare := by
  rw [h.elsewhere k hk]
  cases d.nodes.lookup k with
  | none => rfl
  | some node =>
      simp only [Option.map_some]
      split <;> rfl

theorem fileUnder?_of_bare
    (h : (d'.nodes.lookup k).map Node.bare = (d.nodes.lookup k).map Node.bare) :
    d'.fileUnder? k = d.fileUnder? k := by
  have hbind (o : Option Node) : o.bind Node.file? = (o.map Node.bare).bind Node.file? := by
    cases o <;> rfl
  rw [fileUnder?, fileUnder?, hbind, h, ← hbind]

/-- Removals leave everything else as it is, but for what directories know. -/
theorem bare_carryOut_remove (d : Disk) (paths : List String) (hk : k ∉ paths.map locate) :
    ((d.carryOut (paths.map .remove)).2.nodes.lookup k).map Node.bare =
      (d.nodes.lookup k).map Node.bare := by
  induction paths generalizing d with
  | nil => rfl
  | cons path paths ih =>
      rw [List.map_cons, List.mem_cons, not_or] at hk
      rw [List.map_cons, carryOut]
      cases hchange : d.change (.remove path) with
      | error e => rfl
      | ok d' =>
          refine (ih d' hk.2).trans ?_
          obtain rfl | ⟨rfl, _⟩ := change_remove_eq_ok hchange
          · exact (takenFrom_erase d path).bare hk.1
          · rfl

theorem none_of_change_remove (h : d.change (.remove path) = .ok d') :
    d'.nodes.lookup (locate path) = none := by
  obtain rfl | ⟨rfl, hnone⟩ := change_remove_eq_ok h
  · exact (takenFrom_erase d path).gone
  · exact hnone

/-- What removals lead to is gone. -/
theorem none_of_carryOut_remove {paths : List String}
    (h : d.carryOut (paths.map .remove) = (none, d')) (hk : k ∈ paths.map locate) :
    d'.nodes.lookup k = none := by
  induction paths generalizing d with
  | nil => cases hk
  | cons path paths ih =>
      obtain ⟨d₁, hchange, hrest⟩ := carryOut_cons_eq_none.1 h
      by_cases hlater : k ∈ paths.map locate
      · exact ih hrest hlater
      · obtain rfl := (List.mem_cons.1 hk).resolve_right hlater
        have hsame := bare_carryOut_remove d₁ paths hlater
        rw [hrest, none_of_change_remove hchange] at hsame
        simpa using hsame

/-- What is there after removals was there before. -/
theorem exists_of_carryOut_remove {paths : List String} {node : Node}
    (h : d.carryOut (paths.map .remove) = (none, d')) (hnode : d'.nodes.lookup k = some node) :
    ∃ old, d.nodes.lookup k = some old ∧ old.isDirectory = node.isDirectory := by
  have hk : k ∉ paths.map locate := by
    intro hmem
    rw [none_of_carryOut_remove h hmem] at hnode
    cases hnode
  have hbare := bare_carryOut_remove d paths hk
  rw [h, hnode, Option.map_some] at hbare
  obtain ⟨old, hold, heq⟩ := Option.map_eq_some_iff.1 hbare.symm
  have hdirectory := congrArg Node.isDirectory heq
  exact ⟨old, hold, hdirectory⟩

/-- The keys under which changes write, in their order. -/
def writtenKeys (cs : List Change) : List String := cs.filterMap Change.written?

/-- Nothing is removed. -/
def Adding (cs : List Change) : Prop := ∀ path, .remove path ∉ cs

theorem Adding.tail (h : Adding (c :: cs)) : Adding cs :=
  fun path hmem => h path (List.mem_cons_of_mem _ hmem)

theorem not_mem_writtenKeys_cons (h : k ∉ writtenKeys (c :: cs)) :
    (∀ path text, c = .write path text → k ≠ locate path) ∧ k ∉ writtenKeys cs := by
  constructor
  · rintro path text rfl rfl
    exact h List.mem_cons_self
  · intro hmem
    obtain ⟨c', hc', hkey⟩ := List.mem_filterMap.1 hmem
    exact h (List.mem_filterMap.2 ⟨c', List.mem_cons_of_mem _ hc', hkey⟩)

/-- What a change that adds makes of what it does not write. -/
theorem madeRoom_change (h : d.change c = .ok d') (hc : ∀ path, c ≠ .remove path)
    (hk : ∀ path text, c = .write path text → k ≠ locate path) :
    MadeRoom (d.nodes.lookup k) (d'.nodes.lookup k) ∧
      (k ≠ locate c.path → ¬StandsAbove k (locate c.path) →
        d'.nodes.lookup k = d.nodes.lookup k) := by
  cases c with
  | remove path => exact absurd rfl (hc path)
  | makeDirectory path =>
      rw [makeDirectory_eq_ok h]
      refine ⟨?_, (putUnder_putDirectory d path).elsewhere k⟩
      by_cases heq : k = locate path
      · have hmade := node?_putDirectory d path
        rw [node?, node?] at hmade
        rw [heq, hmade]
        cases d.nodes.lookup (locate path) with
        | some node => exact .grew (.same node)
        | none => exact .made (.same _) rfl
      · exact (putUnder_putDirectory d path).room k heq
  | write path text =>
      rw [write_eq_ok h]
      exact ⟨(putUnder_put d path text d.clock).room k (hk path text rfl),
        (putUnder_put d path text d.clock).elsewhere k⟩

theorem madeRoom_carryOut (h : d.carryOut cs = (none, d')) (hcs : Adding cs)
    (hk : k ∉ writtenKeys cs) : MadeRoom (d.nodes.lookup k) (d'.nodes.lookup k) := by
  induction cs generalizing d with
  | nil =>
      cases h
      exact .refl _
  | cons c cs ih =>
      obtain ⟨d₁, hchange, hrest⟩ := carryOut_cons_eq_none.1 h
      obtain ⟨hfirst, hlater⟩ := not_mem_writtenKeys_cons hk
      have hroom := (madeRoom_change hchange (fun path heq => hcs path (heq ▸ List.mem_cons_self))
        hfirst).1
      exact hroom.trans (ih hrest hcs.tail hlater)

/-- What stands neither at nor above a place where something is added stays as it is. -/
theorem lookup_carryOut (h : d.carryOut cs = (none, d')) (hcs : Adding cs)
    (hk : ∀ c ∈ cs, k ≠ locate c.path ∧ ¬StandsAbove k (locate c.path)) :
    d'.nodes.lookup k = d.nodes.lookup k := by
  induction cs generalizing d with
  | nil =>
      cases h
      rfl
  | cons c cs ih =>
      obtain ⟨d₁, hchange, hrest⟩ := carryOut_cons_eq_none.1 h
      obtain ⟨hne, habove⟩ := hk c List.mem_cons_self
      have hsame := (madeRoom_change hchange (fun path heq => hcs path (heq ▸ List.mem_cons_self))
        (fun path text heq => by rwa [heq] at hne)).2 hne habove
      exact (ih hrest hcs.tail fun c' hc' => hk c' (List.mem_cons_of_mem _ hc')).trans hsame

/-- A file that is not written stays as it is, unless it becomes a directory for something below. -/
theorem fileUnder?_carryOut (h : d.carryOut cs = (none, d')) (hcs : Adding cs)
    (hk : k ∉ writtenKeys cs) : d'.fileUnder? k = d.fileUnder? k ∨
      d'.fileUnder? k = none ∧ ∃ c ∈ cs, StandsAbove k (locate c.path) := by
  by_cases habove : ∃ c ∈ cs, StandsAbove k (locate c.path)
  · exact (madeRoom_carryOut h hcs hk).file?.imp_right fun hnone => ⟨hnone, habove⟩
  · left
    induction cs generalizing d with
    | nil =>
        cases h
        rfl
    | cons c cs ih =>
        obtain ⟨d₁, hchange, hrest⟩ := carryOut_cons_eq_none.1 h
        obtain ⟨hfirst, hlater⟩ := not_mem_writtenKeys_cons hk
        have hrest := ih hrest hcs.tail hlater fun ⟨c', hc', h'⟩ =>
          habove ⟨c', List.mem_cons_of_mem _ hc', h'⟩
        refine hrest.trans ?_
        by_cases heq : k = locate c.path
        · cases c with
          | remove path => exact absurd List.mem_cons_self (hcs path)
          | write path text => exact absurd heq (hfirst path text rfl)
          | makeDirectory path =>
              have hmade := node?_putDirectory d path
              rw [node?, node?] at hmade
              rw [makeDirectory_eq_ok hchange, heq, fileUnder?, fileUnder?, Change.path, hmade]
              cases d.nodes.lookup (locate path) <;> rfl
        · have hsame := (madeRoom_change hchange
            (fun path heq => hcs path (heq ▸ List.mem_cons_self)) hfirst).2 heq
            fun h' => habove ⟨c, List.mem_cons_self, h'⟩
          rw [fileUnder?, fileUnder?, hsame]

/-- A change brings about what is so already. -/
def Settled (d : Disk) : Change → Prop
  | .remove path => d.node? path = none
  | .makeDirectory path => (d.node? path).isSome
  | .write path text => ∃ node, d.node? path = some node ∧ node.text = text

theorem settled_carryOut (h : d.carryOut cs = (none, d')) (hcs : Adding cs)
    (hkeys : (writtenKeys cs).Nodup) (hc : c ∈ cs) : d'.Settled c := by
  induction cs generalizing d with
  | nil => cases hc
  | cons first cs ih =>
      obtain ⟨d₁, hchange, hrest⟩ := carryOut_cons_eq_none.1 h
      have hlater : (writtenKeys cs).Nodup :=
        hkeys.sublist ((List.sublist_cons_self first cs).filterMap _)
      obtain rfl | hmem := List.mem_cons.1 hc
      · cases c with
        | remove path => exact absurd List.mem_cons_self (hcs path)
        | makeDirectory path =>
            have hsome : (d₁.node? path).isSome := by
              rw [makeDirectory_eq_ok hchange, node?_putDirectory]
              rfl
            have hkept : ((d₁.carryOut cs).2.nodes.lookup (locate path)).isSome :=
              isSome_carryOut hsome fun path hmem => absurd hmem (hcs.tail path)
            rwa [hrest] at hkept
        | write path text =>
            have hnode := node?_put d path text d.clock
            have hfresh : locate path ∉ writtenKeys cs := (List.nodup_cons.1 hkeys).1
            have hroom := madeRoom_carryOut hrest hcs.tail hfresh
            rw [write_eq_ok hchange] at hroom
            change MadeRoom ((d.put path text d.clock).node? path) _ at hroom
            rw [hnode] at hroom
            obtain ⟨node, hfound, hgrows⟩ := hroom.of_some
            exact ⟨node, hfound, hgrows.text⟩
      · exact ih hrest hcs.tail hlater hmem

/-- Every node is as it was but for its time, and what changes do not write is wholly as it was. -/
structure Refreshed (d d' : Disk) (cs : List Change) : Prop where
  untimed : ∀ k, (d'.nodes.lookup k).map Node.untimed = (d.nodes.lookup k).map Node.untimed
  unwritten : ∀ k, k ∉ writtenKeys cs → d'.nodes.lookup k = d.nodes.lookup k
  refusals : d'.refusals = d.refusals

theorem Settled.of_untimed
    (huntimed : ∀ k, (d'.nodes.lookup k).map Node.untimed = (d.nodes.lookup k).map Node.untimed)
    (h : d.Settled c) : d'.Settled c := by
  cases c with
  | remove path =>
      have hnone := huntimed (locate path)
      have hmissing : d.nodes.lookup (locate path) = none := h
      rw [hmissing] at hnone
      exact Option.map_eq_none_iff.1 hnone
  | makeDirectory path =>
      have hsome := congrArg Option.isSome (huntimed (locate path))
      rw [Option.isSome_map, Option.isSome_map] at hsome
      exact hsome.trans h
  | write path text =>
      obtain ⟨node, hnode, rfl⟩ := h
      have hsame := huntimed (locate path)
      rw [← node?, ← node?, hnode, Option.map_some, Option.map_eq_some_iff] at hsame
      obtain ⟨node', hnode', heq⟩ := hsame
      have htext := congrArg Node.text heq
      exact ⟨node', hnode', htext⟩

theorem exists_change_of_settled (h : d.Settled c) (hallowed : d.Allows c) :
    ∃ d', d.change c = .ok d' ∧ Refreshed d d' [c] := by
  rw [Allows] at hallowed
  cases c with
  | remove path =>
      simp only [Change.operation, Change.path] at hallowed
      have hmissing : d.node? path = none := h
      refine ⟨d, ?_, fun _ => rfl, fun _ _ => rfl, rfl⟩
      simp [change, remove, hallowed, removeDirect, hmissing, DiskError.isMissing]
  | makeDirectory path =>
      simp only [Change.operation, Change.path] at hallowed
      have hthere : d.putDirectory path = d := if_pos h
      refine ⟨d, ?_, fun _ => rfl, fun _ _ => rfl, rfl⟩
      rw [change, makeDirectory, hallowed, hthere]
  | write path text =>
      simp only [Change.operation, Change.path] at hallowed
      obtain ⟨node, hnode, rfl⟩ := h
      have hput := putUnder_put d path node.text d.clock
      have hknown : (d.nodes.lookup (locate path)).isSome := by rw [← node?, hnode]; rfl
      have hwrite : d.change (.write path node.text) =
          .ok { d.put path node.text d.clock with clock := d.clock + 1 } := by
        simp only [change, write, hallowed]
      refine ⟨_, hwrite, fun k => ?_, fun k hk => ?_, hput.refusals⟩
      · by_cases heq : k = locate path
        · have hwritten := node?_put d path node.text d.clock
          rw [hnode, node?] at hwritten
          rw [heq, hwritten, ← node?, hnode]
          rfl
        · rw [hput.known hknown k heq]
      · exact hput.known hknown k fun heq => hk (heq ▸ List.mem_cons_self)

/-- Changes that are so already are made once more without any effect but on times. -/
theorem exists_carryOut_of_settled (h : ∀ c ∈ cs, d.Settled c) (hallowed : ∀ c ∈ cs, d.Allows c) :
    ∃ d', d.carryOut cs = (none, d') ∧ Refreshed d d' cs := by
  induction cs generalizing d with
  | nil => exact ⟨d, rfl, fun _ => rfl, fun _ _ => rfl, rfl⟩
  | cons c cs ih =>
      obtain ⟨d₁, hchange, hfirst⟩ :=
        exists_change_of_settled (h c List.mem_cons_self) (hallowed c List.mem_cons_self)
      obtain ⟨d', hrest, hlater⟩ := ih (d := d₁)
        (fun c' hmem => (h c' (List.mem_cons_of_mem _ hmem)).of_untimed hfirst.untimed)
        (fun c' hmem => (hallowed c' (List.mem_cons_of_mem _ hmem)).of_refusals hfirst.refusals)
      refine ⟨d', carryOut_cons_eq_none.2 ⟨d₁, hchange, hrest⟩, ?_⟩
      constructor
      case untimed => exact fun k => (hlater.untimed k).trans (hfirst.untimed k)
      case unwritten =>
        intro k hk
        obtain ⟨hwritten, hkeys⟩ := not_mem_writtenKeys_cons hk
        refine (hlater.unwritten k hkeys).trans (hfirst.unwritten k fun hmem => ?_)
        obtain ⟨c', hc', hkey⟩ := List.mem_filterMap.1 hmem
        rw [List.mem_singleton.1 hc'] at hkey
        cases c with
        | remove path | makeDirectory path => cases hkey
        | write path text => exact hwritten path text rfl (Option.some.inj hkey).symm
      case refusals => exact hlater.refusals.trans hfirst.refusals

/-- A directory stands where the node under a key belongs. -/
def Housed (d : Disk) (k : String) : Prop :=
  ∃ node, d.nodes.lookup (parentOf k) = some node ∧ node.isDirectory = true

/-- Nothing but a directory stands where the node under a key belongs. -/
def Unblocked (d : Disk) (k : String) : Prop :=
  ∀ node, d.nodes.lookup (parentOf k) = some node → node.isDirectory = true

theorem Housed.of_madeRoom (h : d.Housed k)
    (hroom : MadeRoom (d.nodes.lookup (parentOf k)) (d'.nodes.lookup (parentOf k))) :
    d'.Housed k := by
  obtain ⟨node, hnode, hdirectory⟩ := h
  rw [hnode] at hroom
  obtain ⟨node', hnode', hgrows⟩ := hroom.of_some
  exact ⟨node', hnode', hgrows.isDirectory hdirectory⟩

theorem Unblocked.of_madeRoom (h : d.Unblocked k)
    (hroom : MadeRoom (d.nodes.lookup (parentOf k)) (d'.nodes.lookup (parentOf k))) :
    d'.Unblocked k := by
  intro node' hnode'
  rw [hnode'] at hroom
  cases hnode : d.nodes.lookup (parentOf k) with
  | none =>
      rw [hnode] at hroom
      cases hroom with
      | made _ hdirectory => exact hdirectory
  | some node =>
      rw [hnode] at hroom
      cases hroom with
      | grew hgrows => exact hgrows.isDirectory (h node hnode)

theorem Housed.carryOut (h : d.Housed k) (hrun : d.carryOut cs = (none, d')) (hcs : Adding cs)
    (hparent : parentOf k ∉ writtenKeys cs) : d'.Housed k :=
  h.of_madeRoom (madeRoom_carryOut hrun hcs hparent)

/-- A directory that is not removed goes on to hold what it holds. -/
theorem Housed.carryOut_remove (h : d.Housed k) (paths : List String)
    (hparent : parentOf k ∉ paths.map locate) :
    Housed (d.carryOut (paths.map .remove)).2 k := by
  obtain ⟨node, hnode, hdirectory⟩ := h
  have hbare := bare_carryOut_remove d paths hparent
  rw [hnode, Option.map_some] at hbare
  obtain ⟨node', hnode', heq⟩ := Option.map_eq_some_iff.1 hbare
  have hsame := congrArg Node.isDirectory heq
  exact ⟨node', hnode', hsame.trans hdirectory⟩

/-- Where a file is written anew, a directory comes to hold it. -/
theorem housed_of_write (hwrite : d.change (.write path text) = .ok d')
    (hparent : parentOf (locate path) ≠ locate path)
    (h : (d.node? path).isSome → d.Housed (locate path)) : d'.Housed (locate path) := by
  have hput := putUnder_put d path text d.clock
  rw [write_eq_ok hwrite]
  cases hnode : d.node? path with
  | none => exact hput.parent hnode hparent
  | some node => exact (h (by rw [hnode]; rfl)).of_madeRoom (hput.room _ hparent)

/-- Where the directory is made first, one holds the file unless another file was in its way. -/
theorem housed_of_makeDirectory {d₁ : Disk}
    (hmake : d.change (.makeDirectory (Path.directory path)) = .ok d₁)
    (hwrite : d₁.change (.write path text) = .ok d')
    (hdirectory : locate (Path.directory path) = parentOf (locate path))
    (hparent : parentOf (locate path) ≠ locate path)
    (h : (d.node? path).isSome → d.Unblocked (locate path)) : d'.Housed (locate path) := by
  refine housed_of_write hwrite hparent fun hsome => ?_
  have hmade := node?_putDirectory d (Path.directory path)
  rw [← makeDirectory_eq_ok hmake, node?, hdirectory] at hmade
  refine ⟨_, hmade, ?_⟩
  cases hold : d.node? (Path.directory path) with
  | none => rfl
  | some node =>
      have hsame : d₁ = d := by
        rw [makeDirectory_eq_ok hmake, putDirectory, if_pos (by rw [hold]; rfl)]
      rw [hsame] at hsome
      rw [node?, hdirectory] at hold
      exact h hsome node hold

/-- A node that can be removed. -/
structure Removable (d : Disk) (path : String) : Prop where
  allowed : d.refusal? .remove path = none
  found : (d.node? path).isSome
  housed : d.Housed (locate path)

theorem Removable.remove_eq (h : d.Removable path) : d.remove path = .ok (d.erase path) := by
  obtain ⟨node, hnode, hdirectory⟩ := h.housed
  have hfound : ¬(d.node? path).isNone = true := by simp [← Option.not_isSome, h.found]
  rw [remove, h.allowed]
  simp only [removeDirect, if_neg hfound, hnode, hdirectory, if_true]

/-- What can be removed still can be when something else was that does not hold it. -/
theorem Removable.erase {other : String} (h : d.Removable path) (hne : locate path ≠ locate other)
    (hparent : parentOf (locate path) ≠ locate other) : (d.erase other).Removable path := by
  have htaken := takenFrom_erase d other
  obtain ⟨node, hnode, hdirectory⟩ := h.housed
  constructor
  case allowed =>
    rw [refusal?, htaken.refusals]
    exact h.allowed
  case found =>
    rw [node?, htaken.elsewhere _ hne, Option.isSome_map]
    exact h.found
  case housed =>
    refine ⟨_, (htaken.elsewhere _ hparent).trans (by rw [hnode]; rfl), ?_⟩
    split <;> exact hdirectory

/-- Files that do not hold each other are all removed. -/
theorem removeFiles_of_removable {directory : String} {files : List String}
    (hfiles : ∀ file ∈ files, d.Removable (Path.join [directory, file]))
    (hkeys : (files.map fun file => locate (Path.join [directory, file])).Nodup)
    (hparents : ∀ file ∈ files, ∀ other ∈ files,
      parentOf (locate (Path.join [directory, file])) ≠ locate (Path.join [directory, other])) :
    ∃ d', d.removeFiles directory files = ⟨files, none, d'⟩ ∧ ∀ path, d.Removable path →
      (∀ file ∈ files, locate path ≠ locate (Path.join [directory, file]) ∧
        parentOf (locate path) ≠ locate (Path.join [directory, file])) → d'.Removable path := by
  induction files generalizing d with
  | nil => exact ⟨d, rfl, fun _ h _ => h⟩
  | cons file files ih =>
      have hremove := (hfiles file List.mem_cons_self).remove_eq
      obtain ⟨hfresh, hkeys⟩ := List.nodup_cons.1 hkeys
      have hlater (other : String) (hmem : other ∈ files) :
          (d.erase (Path.join [directory, file])).Removable (Path.join [directory, other]) := by
        refine (hfiles other (List.mem_cons_of_mem _ hmem)).erase (fun heq => hfresh ?_)
          (hparents other (List.mem_cons_of_mem _ hmem) file List.mem_cons_self)
        exact List.mem_map.2 ⟨other, hmem, heq⟩
      obtain ⟨d', hrest, hkept⟩ := ih hlater hkeys fun other hmem other' hmem' =>
        hparents other (List.mem_cons_of_mem _ hmem) other' (List.mem_cons_of_mem _ hmem')
      refine ⟨d', by simp only [removeFiles, hremove, hrest], fun path hpath hapart => ?_⟩
      obtain ⟨hne, hparent⟩ := hapart file List.mem_cons_self
      exact hkept path (hpath.erase hne hparent) fun other hmem =>
        hapart other (List.mem_cons_of_mem _ hmem)

end Disk
end ScriptWeave
