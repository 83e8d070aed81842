import Mathlib.Data.List.Nodup
import ScriptWeave.Proofs.Disk.Nodes
import ScriptWeave.Proofs.Text.Path

/-!
Trees of directories. On a disk that only ever had files put on it and removed again, every node is
known to the directory above it, and a directory knows only nodes that are there. A path that is
joined with a name leads to a node that the directory at the path holds.
-/

namespace ScriptWeave

open Text

namespace Disk

open Text.Path (IsName cleanElements isAbsolute)

theorem locate_eq (path : String) : locate path = "/" ∨
    locate path = Path.clean path ∧ Path.clean path ≠ "." ∧ Path.clean path ≠ ".." := by
  rw [locate]
  split
  · exact Or.inl rfl
  · next hne => exact Or.inr ⟨rfl, not_or.1 hne⟩

theorem locate_congr {p q : String} (h : Path.clean p = Path.clean q) : locate p = locate q := by
  rw [locate, locate, h]

theorem locate_locate (path : String) : locate (locate path) = locate path := by
  obtain h | ⟨h, hdot, hup⟩ := locate_eq path
  · rw [h]
    decide
  · rw [h, locate, Path.clean_clean]
    exact if_neg (not_or.2 ⟨hdot, hup⟩)

/-- How many elements the path of a node has. -/
def depth (key : String) : Nat := (cleanElements key).length

theorem depth_locate_le (path : String) : depth (locate path) ≤ (cleanElements path).length := by
  obtain h | ⟨h, _⟩ := locate_eq path
  · rw [h]
    exact Nat.zero_le _
  · exact Nat.le_of_eq (by rw [h, depth, Path.cleanElements_clean])

section

variable {path name key : String} {es : List String}

theorem locate_of_last (h : cleanElements path = es ++ [name]) (hname : name ≠ "..") :
    locate path = Path.clean path := by
  have helements := Path.cleanElements_clean path
  rw [locate, if_neg]
  rintro (hdot | hup)
  · rw [hdot, h] at helements
    exact List.concat_ne_nil name es helements.symm
  · rw [hup, h] at helements
    have hlast := congrArg List.getLast? helements
    rw [List.getLast?_concat] at hlast
    exact hname (Option.some.inj hlast).symm

theorem locate_join_name (path : String) (h : IsName name) :
    locate (Path.join [path, name]) = Path.clean (Path.join [path, name]) :=
  locate_of_last (Path.join_name path h).2 h.not_up

theorem base_locate_join (path : String) (h : IsName name) :
    Path.base (locate (Path.join [path, name])) = name := by
  rw [locate_join_name path h]
  exact Path.base_clean (Path.join_name path h).2

/-- An entry is held by the directory that its path was joined to. -/
theorem parentOf_locate_join (path : String) (h : IsName name) :
    parentOf (locate (Path.join [path, name])) = locate path := by
  obtain ⟨habsolute, helements⟩ := Path.join_name path h
  obtain ⟨habsolute', helements'⟩ := Path.directory_clean helements
  have hclean := Path.clean_eq_clean_iff.2 ⟨habsolute'.trans habsolute, helements'⟩
  rw [locate_join_name path h, parentOf, locate, hclean]
  rfl

/-- A node below the top directory has a last element. -/
theorem exists_last (hkey : locate key = key) (htop : key ≠ "/") :
    ∃ es name, cleanElements key = es ++ [name] ∧ Path.clean key = key := by
  obtain h | ⟨h, hdot, _⟩ := locate_eq key
  · exact absurd (hkey.symm.trans h) htop
  · have hclean : Path.clean key = key := h.symm.trans hkey
    obtain helements | ⟨es, name, helements⟩ := List.eq_nil_or_concat' (cleanElements key)
    · cases habsolute : isAbsolute key with
      | true =>
          rw [Path.clean_of_absolute habsolute, helements] at hclean
          exact absurd hclean.symm htop
      | false =>
          rw [Path.clean_of_relative habsolute, if_pos helements] at hdot
          exact absurd rfl hdot
    · exact ⟨es, name, helements, hclean⟩

theorem depth_parentOf_lt (hkey : locate key = key) (htop : key ≠ "/") :
    depth (parentOf key) < depth key := by
  obtain ⟨es, name, helements, hclean⟩ := exists_last hkey htop
  have hdirectory := (Path.directory_clean helements).2
  rw [hclean] at hdirectory
  have hle := depth_locate_le (Path.directory key)
  rw [hdirectory] at hle
  rw [parentOf, depth, depth, helements, List.length_append, List.length_singleton]
  exact Nat.lt_succ_of_le hle

theorem parentOf_ne (hkey : locate key = key) (htop : key ≠ "/") : parentOf key ≠ key := by
  intro heq
  have hlt := depth_parentOf_lt hkey htop
  rw [heq] at hlt
  exact Nat.lt_irrefl _ hlt

theorem parentOf_top : parentOf "/" = "/" := by decide

theorem depth_lt_of_mem_ancestors {fuel : Nat} {k : String} (hkey : locate key = key)
    (h : k ∈ ancestors fuel key) : depth k < depth key := by
  induction fuel generalizing key with
  | zero => cases h
  | succ fuel ih =>
      rw [ancestors] at h
      split at h
      · cases h
      · next hne =>
          have htop : key ≠ "/" := by
            intro heq
            rw [heq] at hne
            exact hne parentOf_top
          have hlt := depth_parentOf_lt hkey htop
          obtain heq | hmem := List.mem_cons.1 h
          · rw [heq]
            exact hlt
          · exact Nat.lt_trans (ih (locate_locate _) hmem) hlt

end

/-- A directory among the nodes knows an entry. -/
def Knows (nodes : List (String × Node)) (parent key : String) : Prop :=
  ∃ node, nodes.lookup parent = some node ∧ node.isDirectory = true ∧ key ∈ node.entries

/-- The nodes make a tree but for some entries that are still missing: all others are there, under
the paths where they are looked for, and below the top every node is known to the directory above
it. -/
structure TreeBut (missing : List String) (nodes : List (String × Node)) : Prop where
  top : ∃ node, nodes.lookup "/" = some node ∧ node.isDirectory = true
  located : ∀ key, (nodes.lookup key).isSome → locate key = key
  known : ∀ key, key ≠ "/" → (nodes.lookup key).isSome → Knows nodes (parentOf key) key
  entries : ∀ key node, nodes.lookup key = some node → ∀ e ∈ node.entries,
    parentOf e = key ∧ e ≠ "/" ∧ ((nodes.lookup e).isSome ∨ e ∈ missing)
  nodup : ∀ key node, nodes.lookup key = some node → node.entries.Nodup

/-- The nodes of the disk make a tree. -/
def IsTree (d : Disk) : Prop := TreeBut [] d.nodes

section

variable {missing missing' : List String} {nodes : List (String × Node)} {key parent : String}
  {node node' : Node}

theorem isTree_empty : IsTree .empty := by
  have htop : (empty.nodes.lookup "/") = some .emptyDirectory := rfl
  have honly {k : String} {n : Node} (h : empty.nodes.lookup k = some n) :
      k = "/" ∧ n = .emptyDirectory := by
    by_cases hk : k = "/"
    · rw [hk, htop] at h
      exact ⟨hk, (Option.some.inj h).symm⟩
    · simp [empty, List.lookup_cons, beq_eq_false_iff_ne.2 hk] at h
  constructor
  case top => exact ⟨_, htop, rfl⟩
  case located =>
    intro k hk
    obtain ⟨n, hn⟩ := Option.isSome_iff_exists.1 hk
    rw [(honly hn).1]
    decide
  case known =>
    intro k hne hk
    obtain ⟨n, hn⟩ := Option.isSome_iff_exists.1 hk
    exact absurd (honly hn).1 hne
  case entries =>
    intro k n hn e he
    rw [(honly hn).2] at he
    cases he
  case nodup =>
    intro k n hn
    rw [(honly hn).2]
    exact List.nodup_nil

/-- A node may come to know more, as long as it stays a directory. -/
theorem TreeBut.replace (h : TreeBut missing nodes) (hnode : nodes.lookup key = some node)
    (hdirectory : node.isDirectory = true → node'.isDirectory = true)
    (hsubset : node.entries ⊆ node'.entries) (hnodup : node'.entries.Nodup)
    (hmissing : missing ⊆ missing')
    (hentries : ∀ e ∈ node'.entries, parentOf e = key ∧ e ≠ "/" ∧
      ((nodes.lookup e).isSome ∨ e ∈ missing')) :
    TreeBut missing' (setNode nodes key node') := by
  have hsome (k : String) : ((setNode nodes key node').lookup k).isSome =
      (nodes.lookup k).isSome := by
    rw [lookup_setNode]
    split
    · next hk => rw [hk, hnode]; rfl
    · rfl
  constructor
  case top =>
    obtain ⟨top, htop, hdirectory'⟩ := h.top
    rw [lookup_setNode]
    split
    · next hk =>
        rw [hk, hnode] at htop
        cases htop
        exact ⟨node', rfl, hdirectory hdirectory'⟩
    · exact ⟨top, htop, hdirectory'⟩
  case located =>
    intro k hk
    exact h.located k (hsome k ▸ hk)
  case known =>
    intro k htop hk
    obtain ⟨above, habove, hdirectory', hmem⟩ := h.known k htop (hsome k ▸ hk)
    rw [Knows, lookup_setNode]
    split
    · next hparent =>
        rw [hparent, hnode] at habove
        cases habove
        exact ⟨node', rfl, hdirectory hdirectory', hsubset hmem⟩
    · exact ⟨above, habove, hdirectory', hmem⟩
  case entries =>
    intro k n hn e he
    rw [hsome]
    rw [lookup_setNode] at hn
    split at hn
    · next hk =>
        cases hn
        exact hk ▸ hentries e he
    · obtain ⟨hparent, htop, hthere⟩ := h.entries k n hn e he
      exact ⟨hparent, htop, hthere.imp_right (hmissing ·)⟩
  case nodup =>
    intro k n hn
    rw [lookup_setNode] at hn
    split at hn
    · cases hn
      exact hnodup
    · exact h.nodup k n hn

/-- A missing node that its directory already knows may be put in place, with entries that are
missing in turn. -/
theorem TreeBut.fill (h : TreeBut [key] nodes) (hlocated : locate key = key) (htop : key ≠ "/")
    (hnone : nodes.lookup key = none) (hknown : Knows nodes (parentOf key) key)
    (hnodup : node.entries.Nodup) (hentries : ∀ e ∈ node.entries, parentOf e = key ∧ e ≠ "/") :
    TreeBut node.entries (setNode nodes key node) := by
  have hother {k : String} (hk : k ≠ key) :
      (setNode nodes key node).lookup k = nodes.lookup k := by
    rw [lookup_setNode, if_neg hk]
  have hself : (setNode nodes key node).lookup key = some node := by
    rw [lookup_setNode, if_pos rfl]
  constructor
  case top => rw [hother htop.symm]; exact h.top
  case located =>
    intro k hk
    by_cases heq : k = key
    · rw [heq, hlocated]
    · exact h.located k (hother heq ▸ hk)
  case known =>
    intro k hktop hk
    have hknown' : Knows nodes (parentOf k) k := by
      by_cases heq : k = key
      · exact heq ▸ hknown
      · exact h.known k hktop (hother heq ▸ hk)
    obtain ⟨above, habove, hfacts⟩ := hknown'
    have hne : parentOf k ≠ key := by
      intro heq
      rw [heq, hnone] at habove
      cases habove
    exact ⟨above, (hother hne).trans habove, hfacts⟩
  case entries =>
    intro k n hn e he
    by_cases heq : k = key
    · rw [heq, hself] at hn
      cases hn
      obtain ⟨hparent, hetop⟩ := hentries e he
      exact ⟨hparent.trans heq.symm, hetop, .inr he⟩
    · rw [hother heq] at hn
      obtain ⟨hparent, hetop, hthere⟩ := h.entries k n hn e he
      refine ⟨hparent, hetop, .inl ?_⟩
      by_cases hself' : e = key
      · rw [hself', hself]
        rfl
      · rw [hother hself']
        exact hthere.resolve_right fun hmem => hself' (List.mem_singleton.1 hmem)
  case nodup =>
    intro k n hn
    by_cases heq : k = key
    · rw [heq, hself] at hn
      cases hn
      exact hnodup
    · exact h.nodup k n (hother heq ▸ hn)

theorem mem_entries_holding (node : Node) (key e : String) :
    e ∈ (node.holding key).entries ↔ e ∈ node.entries ∨ e = key := by
  rw [Node.holding]
  dsimp only
  split
  · next hmem =>
      constructor
      · exact Or.inl
      · rintro (he | rfl)
        · exact he
        · exact List.contains_iff_mem.1 hmem
  · simp

theorem nodup_entries_holding (h : node.entries.Nodup) (key : String) :
    (node.holding key).entries.Nodup := by
  rw [Node.holding]
  dsimp only
  split
  · exact h
  · next hmem =>
      rw [List.nodup_append]
      refine ⟨h, List.nodup_singleton key, ?_⟩
      rintro e he _ hkey rfl
      exact hmem (List.contains_iff_mem.2 (List.mem_singleton.1 hkey ▸ he))

theorem knows_setNode_holding (nodes : List (String × Node)) (parent key : String) (node : Node) :
    Knows (setNode nodes parent (node.holding key)) parent key :=
  ⟨node.holding key, by rw [lookup_setNode, if_pos rfl], rfl,
    (mem_entries_holding _ _ _).2 (.inr rfl)⟩

/-- A directory that is there may come to know a missing node. -/
theorem TreeBut.hold (h : TreeBut [] nodes) (hparent : nodes.lookup (parentOf key) = some node)
    (htop : key ≠ "/") : TreeBut [key] (setNode nodes (parentOf key) (node.holding key)) := by
  refine h.replace hparent (fun _ => rfl) (fun e he => (mem_entries_holding _ _ _).2 (.inl he))
    (nodup_entries_holding (h.nodup _ _ hparent) key) (List.nil_subset _) fun e he => ?_
  obtain he | rfl := (mem_entries_holding _ _ _).1 he
  · obtain ⟨hplace, hetop, hthere⟩ := h.entries _ _ hparent e he
    exact ⟨hplace, hetop, .inl (hthere.resolve_right List.not_mem_nil)⟩
  · exact ⟨rfl, htop, .inr List.mem_cons_self⟩

/-- A missing directory may be made for a missing node. -/
theorem TreeBut.make (h : TreeBut [parent] nodes) (hlocated : locate parent = parent)
    (hparentTop : parent ≠ "/") (hnone : nodes.lookup parent = none)
    (hknown : Knows nodes (parentOf parent) parent) (hparent : parentOf key = parent)
    (htop : key ≠ "/") :
    TreeBut [key] (setNode nodes parent (Node.emptyDirectory.holding key)) := by
  have hone : (Node.emptyDirectory.holding key).entries = [key] := rfl
  rw [← hone]
  refine h.fill hlocated hparentTop hnone hknown (hone ▸ List.nodup_singleton key) fun e he => ?_
  rw [List.mem_singleton.1 he]
  exact ⟨hparent, htop⟩

/-- Nothing is put under the path of a missing node when the directories above it are made. -/
theorem lookup_enrol_ancestors (hlocated : locate key = key) (nodes : List (String × Node))
    (fuel : Nat) : (enrol nodes key (ancestors fuel key)).lookup key = nodes.lookup key :=
  (lookup_enrol _ _ _ _).2 fun hmem => Nat.lt_irrefl _ (depth_lt_of_mem_ancestors hlocated hmem)

/-- The directories above a missing node are made, and the nearest one knows it. -/
theorem treeBut_enrol (h : TreeBut [] nodes) (fuel : Nat) (hlocated : locate key = key)
    (htop : key ≠ "/") (hfuel : depth key ≤ fuel) :
    TreeBut [key] (enrol nodes key (ancestors fuel key)) ∧
      Knows (enrol nodes key (ancestors fuel key)) (parentOf key) key := by
  have hlt := depth_parentOf_lt hlocated htop
  induction fuel generalizing key with
  | zero => omega
  | succ fuel ih =>
      rw [ancestors, if_neg (parentOf_ne hlocated htop), enrol]
      cases hparent : nodes.lookup (parentOf key) with
      | some node => exact ⟨h.hold hparent htop, knows_setNode_holding _ _ _ _⟩
      | none =>
          have hparentTop : parentOf key ≠ "/" := by
            obtain ⟨top, hnode, _⟩ := h.top
            intro heq
            rw [heq, hnode] at hparent
            cases hparent
          have hparentLocated : locate (parentOf key) = parentOf key := locate_locate _
          obtain ⟨htree, hknown⟩ := ih hparentLocated hparentTop (by omega)
            (depth_parentOf_lt hparentLocated hparentTop)
          have habsent := (lookup_enrol_ancestors hparentLocated nodes fuel).trans hparent
          exact ⟨htree.make hparentLocated hparentTop habsent hknown rfl htop,
            knows_setNode_holding _ _ _ _⟩

end

section

variable {d : Disk} {key path : String} {node old : Node}

theorem isTree_place_of_some (h : d.IsTree) (hold : d.nodes.lookup key = some old)
    (hdirectory : old.isDirectory = true → node.isDirectory = true)
    (hentries : node.entries = old.entries) : (d.place key node).IsTree := by
  rw [place_of_some hold]
  refine TreeBut.replace h hold hdirectory (hentries ▸ List.Subset.refl _) ?_ (List.nil_subset _) ?_
  · exact hentries ▸ h.nodup _ _ hold
  · exact hentries ▸ h.entries _ _ hold

theorem isTree_place_of_none (h : d.IsTree) (hlocated : locate key = key)
    (hnone : d.nodes.lookup key = none) (hentries : node.entries = []) :
    (d.place key node).IsTree := by
  have htop : key ≠ "/" := by
    obtain ⟨top, hnode, _⟩ := h.top
    intro heq
    rw [← heq, hnone] at hnode
    cases hnode
  have hfuel : depth key ≤ key.length + 1 := Path.length_cleanElements_le key
  obtain ⟨htree, hknown⟩ := treeBut_enrol h (key.length + 1) hlocated htop hfuel
  have habsent := (lookup_enrol_ancestors hlocated d.nodes (key.length + 1)).trans hnone
  have hnodup : node.entries.Nodup := by
    rw [hentries]
    exact List.nodup_nil
  have hplaced := htree.fill hlocated htop habsent hknown hnodup (by simp [hentries])
  have hnodes : (d.place key node).nodes =
      setNode (enrol d.nodes key (ancestors (key.length + 1) key)) key node := by
    rw [place_of_none hnone]
  rw [hentries, ← hnodes] at hplaced
  exact hplaced

theorem isTree_put (h : d.IsTree) (path text : String) (modified : Int) :
    (d.put path text modified).IsTree := by
  rw [put]
  cases hnode : d.node? path with
  | some old => exact isTree_place_of_some h hnode id rfl
  | none => exact isTree_place_of_none h (locate_locate path) hnode rfl

/-- What a directory in a tree holds. -/
theorem entry_of_mem (h : d.IsTree) (hnode : d.nodes.lookup key = some node) {e : String}
    (he : e ∈ node.entries) :
    parentOf e = key ∧ e ≠ "/" ∧ locate e = e ∧ (d.nodes.lookup e).isSome := by
  obtain ⟨hparent, htop, hthere⟩ := h.entries key node hnode e he
  have hsome := hthere.resolve_right List.not_mem_nil
  exact ⟨hparent, htop, h.located e hsome, hsome⟩

variable {d' : Disk} {k : String}

theorem TakenFrom.ne (h : TakenFrom d d' key) (hk : (d'.nodes.lookup k).isSome) : k ≠ key := by
  rintro rfl
  rw [h.gone] at hk
  cases hk

theorem TakenFrom.isSome_eq (h : TakenFrom d d' key) (hk : k ≠ key) :
    (d'.nodes.lookup k).isSome = (d.nodes.lookup k).isSome := by
  rw [h.elsewhere k hk, Option.isSome_map]

theorem TakenFrom.isSome (h : TakenFrom d d' key) (hk : (d'.nodes.lookup k).isSome) :
    (d.nodes.lookup k).isSome := h.isSome_eq (h.ne hk) ▸ hk

/-- A directory that is still there holds what it held, but for what is gone. -/
theorem TakenFrom.exists_entries (h : TakenFrom d d' key) (hnode : d'.nodes.lookup k = some node) :
    ∃ before, d.nodes.lookup k = some before ∧ node.entries = if k = parentOf key then
      before.entries.filter (· ≠ key) else before.entries := by
  rw [h.elsewhere k (h.ne (by rw [hnode]; rfl))] at hnode
  obtain ⟨before, hbefore, rfl⟩ := Option.map_eq_some_iff.1 hnode
  refine ⟨before, hbefore, ?_⟩
  split <;> rfl

end

end Disk
end ScriptWeave
