import ScriptWeave.Disk.Basic
import ScriptWeave.Proofs.Association

/-!
What the operations of a disk leave at every path. Putting something in its place may make
directories of what stands above it and changes nothing else; taking something away leaves
everything else where it is, though the directory above no longer knows it.
-/

namespace ScriptWeave

/-- A node that came to hold something more: it is a directory now and is otherwise as it was. -/
inductive Node.Grows : Node → Node → Prop where
  | same (n : Node) : n.Grows n
  | holding {n n' : Node} (key : String) (h : n.Grows n') : n.Grows (n'.holding key)

namespace Node.Grows

variable {n n' : Node}

theorem text (h : n.Grows n') : n'.text = n.text := by
  induction h with
  | same => rfl
  | holding key _ ih => exact ih

theorem modified (h : n.Grows n') : n'.modified = n.modified := by
  induction h with
  | same => rfl
  | holding key _ ih => exact ih

theorem isDirectory (h : n.Grows n') (hdirectory : n.isDirectory = true) :
    n'.isDirectory = true := by
  cases h with
  | same => exact hdirectory
  | holding key _ => rfl

end Node.Grows

namespace Disk

theorem stat_of_node? {d : Disk} {path : String} {node : Node} (hnode : d.node? path = some node)
    (hallowed : d.refusal? .stat path = none) : d.stat path = .ok node := by
  rw [stat, hallowed, openDirect, hnode]

/-- A key is that of a directory above what is kept under another key. -/
inductive StandsAbove : String → String → Prop where
  | parent {k key : String} (hk : k = parentOf key) (h : k ≠ key) : StandsAbove k key
  | further {k parent key : String} (hparent : parent = parentOf key) (h : parent ≠ key)
      (habove : StandsAbove k parent) : StandsAbove k key

theorem standsAbove_iff {k key : String} :
    StandsAbove k key ↔ parentOf key ≠ key ∧ (k = parentOf key ∨ StandsAbove k (parentOf key)) := by
  constructor
  · intro h
    cases h with
    | parent hk h => exact ⟨hk ▸ h, .inl hk⟩
    | further hparent h habove => exact ⟨hparent ▸ h, .inr (hparent ▸ habove)⟩
  · rintro ⟨h, hk | habove⟩
    · exact .parent hk (hk ▸ h)
    · exact .further rfl h habove

theorem standsAbove_of_mem_ancestors {fuel : Nat} {k key : String}
    (h : k ∈ ancestors fuel key) : StandsAbove k key := by
  induction fuel generalizing key with
  | zero => cases h
  | succ fuel ih =>
      rw [ancestors] at h
      split at h
      · cases h
      · next hparent =>
          obtain heq | hmem := List.mem_cons.1 h
          · exact .parent heq (heq ▸ hparent)
          · exact .further rfl hparent (ih hmem)

section

variable {nodes : List (String × Node)} {key k : String} {node : Node}

theorem isSome_lookup (nodes : List (String × Node)) (k : String) :
    (nodes.lookup k).isSome = nodes.any (·.1 = k) := by
  rw [Bool.eq_iff_iff, List.lookup_isSome_iff, List.any_eq_true]
  simp only [beq_iff_eq, decide_eq_true_eq, @eq_comm _ k]

theorem lookup_setNode (nodes : List (String × Node)) (key k : String) (node : Node) :
    (setNode nodes key node).lookup k = if k = key then some node else nodes.lookup k := by
  rw [setNode, ← isSome_lookup]
  cases hkey : nodes.lookup key with
  | none =>
      simp only [Option.isSome_none, Bool.false_eq_true, if_false, List.lookup_append]
      by_cases hk : k = key
      · simp [hk, hkey]
      · simp [hk, List.lookup_cons, beq_eq_false_iff_ne.2 hk]
  | some old =>
      have hname (entry : String × Node) :
          (if entry.1 = key then (key, node) else entry).1 = entry.1 := by
        split
        · next h => exact h.symm
        · rfl
      simp only [Option.isSome_some, if_true, lookup_map nodes hname]
      by_cases hk : k = key
      · simp [hk, hkey]
      · simp [hk]

/-- What putting something in its place leaves under a key above it. -/
inductive MadeRoom : Option Node → Option Node → Prop where
  | absent : MadeRoom none none
  | grew {n n' : Node} (h : n.Grows n') : MadeRoom (some n) (some n')
  | made {n : Node} (h : Node.emptyDirectory.Grows n) (hdirectory : n.isDirectory = true) :
      MadeRoom none (some n)

theorem MadeRoom.refl (o : Option Node) : MadeRoom o o := by
  cases o with
  | none => exact .absent
  | some n => exact .grew (.same n)

theorem MadeRoom.of_some {n : Node} {o : Option Node} (h : MadeRoom (some n) o) :
    ∃ n', o = some n' ∧ n.Grows n' := by
  cases h with
  | grew h => exact ⟨_, rfl, h⟩

theorem lookup_enrol (nodes : List (String × Node)) (key : String) (parents : List String)
    (k : String) : MadeRoom (nodes.lookup k) ((enrol nodes key parents).lookup k) ∧
      (k ∉ parents → (enrol nodes key parents).lookup k = nodes.lookup k) := by
  induction parents generalizing key with
  | nil => exact ⟨.refl _, fun _ => rfl⟩
  | cons parent parents ih =>
      rw [enrol]
      cases hparent : nodes.lookup parent with
      | some node =>
          simp only [lookup_setNode]
          by_cases hk : k = parent
          · rw [if_pos hk, hk, hparent]
            exact ⟨.grew (.holding key (.same node)), fun h => absurd List.mem_cons_self h⟩
          · rw [if_neg hk]
            exact ⟨.refl _, fun _ => rfl⟩
      | none =>
          simp only [lookup_setNode]
          by_cases hk : k = parent
          · rw [if_pos hk, hk, hparent]
            exact ⟨.made (.holding key (.same _)) rfl, fun h => absurd List.mem_cons_self h⟩
          · rw [if_neg hk]
            obtain ⟨hroom, hsame⟩ := ih parent
            exact ⟨hroom, fun h => hsame fun hmem => h (List.mem_cons_of_mem _ hmem)⟩

/-- The nearest directory above is there afterwards. -/
theorem isDirectory_enrol (nodes : List (String × Node)) (key parent : String)
    (parents : List String) :
    ∃ node, (enrol nodes key (parent :: parents)).lookup parent = some node ∧
      node.isDirectory = true := by
  rw [enrol]
  cases nodes.lookup parent with
  | some node => exact ⟨node.holding key, by simp [lookup_setNode], rfl⟩
  | none => exact ⟨Node.emptyDirectory.holding key, by simp [lookup_setNode], rfl⟩

end

/-- Something was put under a key: room was made for it above, if it was not there before, and all
else is as it was. -/
structure PutUnder (d d' : Disk) (key : String) : Prop where
  room : ∀ k, k ≠ key → MadeRoom (d.nodes.lookup k) (d'.nodes.lookup k)
  elsewhere : ∀ k, k ≠ key → ¬StandsAbove k key → d'.nodes.lookup k = d.nodes.lookup k
  known : (d.nodes.lookup key).isSome → ∀ k, k ≠ key → d'.nodes.lookup k = d.nodes.lookup k
  parent : d.nodes.lookup key = none → parentOf key ≠ key →
    ∃ node, d'.nodes.lookup (parentOf key) = some node ∧ node.isDirectory = true
  refusals : d'.refusals = d.refusals

section

variable {d d' : Disk} {key path : String}

/-- What stands on a disk stays there. -/
theorem PutUnder.isSome (h : PutUnder d d' key) (hkey : (d'.nodes.lookup key).isSome) {k : String}
    (hk : (d.nodes.lookup k).isSome) : (d'.nodes.lookup k).isSome := by
  by_cases heq : k = key
  · rwa [heq]
  · obtain ⟨node, hnode⟩ := Option.isSome_iff_exists.1 hk
    have hroom := h.room k heq
    rw [hnode] at hroom
    obtain ⟨node', hnode', _⟩ := hroom.of_some
    rw [hnode']
    rfl

theorem place_of_some {old : Node} (h : d.nodes.lookup key = some old) (node : Node) :
    d.place key node = { d with nodes := setNode d.nodes key node } := by
  have hany : d.nodes.any (·.1 = key) = true := by rw [← isSome_lookup, h]; rfl
  rw [place, if_pos hany]

theorem place_of_none (h : d.nodes.lookup key = none) (node : Node) :
    d.place key node =
      { d with nodes :=
          setNode (enrol d.nodes key (ancestors (key.length + 1) key)) key node } := by
  have hany : ¬d.nodes.any (·.1 = key) = true := by rw [← isSome_lookup, h]; simp
  rw [place, if_neg hany]

theorem lookup_place (d : Disk) (key : String) (node : Node) :
    (d.place key node).nodes.lookup key = some node := by
  cases hkey : d.nodes.lookup key with
  | some old => rw [place_of_some hkey, lookup_setNode, if_pos rfl]
  | none => rw [place_of_none hkey, lookup_setNode, if_pos rfl]

theorem putUnder_place (d : Disk) (key : String) (node : Node) :
    PutUnder d (d.place key node) key := by
  cases hkey : d.nodes.lookup key with
  | some old =>
      rw [place_of_some hkey]
      have hsame (k : String) (hk : k ≠ key) :
          (setNode d.nodes key node).lookup k = d.nodes.lookup k := by
        rw [lookup_setNode, if_neg hk]
      constructor
      case room =>
        intro k hk
        rw [hsame k hk]
        exact .refl _
      case elsewhere => exact fun k hk _ => hsame k hk
      case known => exact fun _ => hsame
      case parent =>
        intro hnone
        rw [hkey] at hnone
        cases hnone
      case refusals => rfl
  | none =>
      rw [place_of_none hkey]
      have hsame (k : String) (hk : k ≠ key) :
          (setNode (enrol d.nodes key (ancestors (key.length + 1) key)) key node).lookup k =
            (enrol d.nodes key (ancestors (key.length + 1) key)).lookup k := by
        rw [lookup_setNode, if_neg hk]
      constructor
      case room =>
        intro k hk
        rw [hsame k hk]
        exact (lookup_enrol _ _ _ _).1
      case elsewhere =>
        intro k hk hnot
        rw [hsame k hk]
        exact (lookup_enrol _ _ _ _).2 fun hmem => hnot (standsAbove_of_mem_ancestors hmem)
      case known =>
        intro hsome
        rw [hkey] at hsome
        cases hsome
      case parent =>
        intro _ hparent
        rw [hsame _ hparent, ancestors, if_neg hparent]
        exact isDirectory_enrol _ _ _ _
      case refusals => rfl

theorem node?_put (d : Disk) (path text : String) (modified : Int) :
    (d.put path text modified).node? path =
      some { (d.node? path).getD ⟨"", 0, false, []⟩ with text := text, modified := modified } :=
  lookup_place _ _ _

theorem putUnder_put (d : Disk) (path text : String) (modified : Int) :
    PutUnder d (d.put path text modified) (locate path) := putUnder_place _ _ _

theorem node?_putDirectory (d : Disk) (path : String) :
    (d.putDirectory path).node? path = some ((d.node? path).getD .emptyDirectory) := by
  rw [putDirectory]
  cases h : d.node? path with
  | some node => exact h
  | none => exact lookup_place _ _ _

theorem putUnder_putDirectory (d : Disk) (path : String) :
    PutUnder d (d.putDirectory path) (locate path) := by
  rw [putDirectory]
  split
  · next hsome =>
      exact ⟨fun _ _ => .refl _, fun _ _ _ => rfl, fun _ _ _ => rfl,
        fun hnone => by simp [node?, hnone] at hsome, rfl⟩
  · exact putUnder_place _ _ _

theorem write_eq_ok {text : String} (h : d.write path text = .ok d') :
    d' = { d.put path text d.clock with clock := d.clock + 1 } := by
  rw [write] at h
  split at h
  · cases h
  · cases h
    rfl

theorem makeDirectory_eq_ok (h : d.makeDirectory path = .ok d') : d' = d.putDirectory path := by
  rw [makeDirectory] at h
  split at h
  · cases h
  · cases h
    rfl

/-- What stood under a key was taken away: at most a directory no longer knows it. -/
structure TakenFrom (d d' : Disk) (key : String) : Prop where
  gone : d'.nodes.lookup key = none
  elsewhere : ∀ k, k ≠ key → d'.nodes.lookup k = (d.nodes.lookup k).map fun node =>
    if k = parentOf key then { node with entries := node.entries.filter (· ≠ key) } else node
  refusals : d'.refusals = d.refusals

theorem takenFrom_erase (d : Disk) (path : String) : TakenFrom d (d.erase path) (locate path) := by
  have hname (entry : String × Node) : (if entry.1 = parentOf (locate path) then
      (entry.1, { entry.2 with entries := entry.2.entries.filter (· ≠ locate path) })
      else entry).1 = entry.1 := by
    split <;> rfl
  constructor
  case gone =>
    rw [erase, lookup_map _ hname, lookup_filter_ne, if_pos rfl]
    rfl
  case elsewhere =>
    intro k hk
    rw [erase, lookup_map _ hname, lookup_filter_ne, if_neg hk]
    split <;> rfl
  case refusals => rfl

theorem removeDirect_eq_ok (h : d.removeDirect path = .ok d') :
    d' = d.erase path ∧ (∃ node, d.node? path = some node) ∧
      ∃ parent, d.nodes.lookup (parentOf (locate path)) = some parent ∧
          parent.isDirectory = true := by
  rw [removeDirect] at h
  split at h
  · cases h
  · next hsome =>
      split at h
      · cases h
      · next parent hparent =>
          split at h
          · next hdirectory =>
              cases h
              refine ⟨rfl, ?_, parent, hparent, hdirectory⟩
              cases hnode : d.node? path with
              | none => simp [hnode] at hsome
              | some node => exact ⟨node, rfl⟩
          · cases h

end
end Disk
end ScriptWeave
