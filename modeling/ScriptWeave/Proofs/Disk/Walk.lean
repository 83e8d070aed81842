import Mathlib.Data.List.Induction
import Mathlib.Data.List.Sort
import Mathlib.Data.String.Basic
import ScriptWeave.Disk.Walk
import ScriptWeave.Proofs.Disk.Tree

/-!
What a walk finds. In a tree, a walk finds exactly the files below its root that it takes and that
are in directories which it enters, however deep they are: every one of them once, in order of their
paths.
-/

namespace ScriptWeave

open Text

namespace Disk

open Text.Path (IsName spell cleanElements isAbsolute)

/-- Nothing is refused that a walk has to do. -/
def Readable (d : Disk) : Prop :=
  ∀ path, d.refusal? .stat path = none ∧ d.refusal? .openFile path = none

/-- A directory that can be the root of a walk: what it holds lies below the path by which it is
reached. Every directory is one under a path that ends in a name. No path at all, one dot and two
dots are other words for the top directory, and what that holds under absolute paths is not below
them. -/
def IsRoot (d : Disk) (path : String) : Prop :=
  ∃ node, d.node? path = some node ∧ node.isDirectory = true ∧
    ∀ key ∈ node.entries, Path.Below path key

/-- A file is reached from a directory by names. -/
def FileBelow (d : Disk) (path : String) (names : List String) : Prop :=
  (∀ name ∈ names, IsName name) ∧
    ∃ node, d.node? (Path.join [path, spell names]) = some node ∧ node.isDirectory = false

section

variable {d : Disk} {path name key : String} {es names : List String} {node : Node}

theorem readable_of_refusals (h : d.refusals = []) : d.Readable := by
  intro path
  rw [refusal?, refusal?, h]
  exact ⟨rfl, rfl⟩

theorem list_of_node? (hnode : d.node? path = some node)
    (hallowed : d.refusal? .openFile path = none) : d.list path = .ok (d.entriesOf path) := by
  rw [list, openNode, hallowed, openDirect, hnode]
  rfl

/-- Names lead on from where other names have led. -/
theorem node?_join_spell (d : Disk) (path : String) {names' : List String}
    (hnames : ∀ name ∈ names, IsName name) (hnames' : ∀ name ∈ names', IsName name) :
    d.node? (Path.join [Path.join [path, spell names], spell names']) =
      d.node? (Path.join [path, spell (names ++ names')]) := by
  obtain ⟨habsolute, helements⟩ := Path.join_spell path hnames
  obtain ⟨habsolute', helements'⟩ := Path.join_spell (Path.join [path, spell names]) hnames'
  obtain ⟨habsolute'', helements''⟩ :=
    Path.join_spell path (List.forall_mem_append.2 ⟨hnames, hnames'⟩)
  rw [node?, node?, locate_congr]
  rw [Path.clean_eq_clean_iff, habsolute', habsolute, habsolute'', helements', helements,
    helements'', List.append_assoc]
  exact ⟨rfl, rfl⟩

theorem locate_join_name_ne (path : String) (h : IsName name) :
    locate (Path.join [path, name]) ≠ "/" := by
  intro heq
  have hbase := base_locate_join path h
  rw [heq] at hbase
  exact h.no_slash (hbase ▸ by decide)

theorem knows_of_node? (hd : d.IsTree) (hname : IsName name)
    (hsome : (d.node? (Path.join [path, name])).isSome) :
    Knows d.nodes (locate path) (locate (Path.join [path, name])) := by
  have hknown := hd.known _ (locate_join_name_ne path hname) hsome
  rwa [parentOf_locate_join path hname] at hknown

/-- What lies below a directory that holds it is found there under its name. -/
theorem locate_join_base (hlocated : locate key = key) (htop : key ≠ "/")
    (hparent : parentOf key = locate path) (hbelow : Path.Below path key) :
    IsName (Path.base key) ∧ locate (Path.join [path, Path.base key]) = key := by
  obtain ⟨es, name, helements, hclean⟩ := exists_last hlocated htop
  obtain ⟨hdirectory, hdirectoryElements⟩ := Path.directory_clean helements
  have hbase := Path.base_clean helements
  rw [hclean] at hdirectory hdirectoryElements hbase
  have hmem : name ∈ cleanElements key := helements ▸ List.mem_append_right es List.mem_cons_self
  obtain ⟨habsolute, inner, hinner, hup, hbelowElements⟩ := hbelow
  obtain rfl | ⟨init, last, rfl⟩ := List.eq_nil_or_concat' inner
  · exact absurd rfl hinner
  rw [helements, ← List.append_assoc] at hbelowElements
  obtain ⟨rfl, hlast⟩ := List.append_inj' hbelowElements rfl
  obtain rfl := List.singleton_inj.1 hlast
  have hinit : init = [] := by
    by_contra hne
    have habove : Path.Below path (Path.directory key) :=
      ⟨hdirectory.trans habsolute, init, hne, fun h => hup (List.mem_append_left _ h),
        hdirectoryElements⟩
    obtain ⟨hdot, hdots⟩ := habove.clean_ne
    have hdepth := depth_locate_le path
    rw [← hparent, parentOf, locate, if_neg (not_or.2 ⟨hdot, hdots⟩), depth,
      Path.cleanElements_clean, hdirectoryElements, List.length_append] at hdepth
    have hlength := List.length_pos_iff.2 hne
    omega
  have hname : IsName name := by
    obtain ⟨hempty, hdot⟩ := Path.ne_of_mem_cleanElements hmem
    refine ⟨hempty, hdot, ?_, Path.not_mem_of_mem_cleanElements hmem⟩
    rintro rfl
    exact hup (List.mem_append_right init List.mem_cons_self)
  obtain ⟨hjoinAbsolute, hjoinElements⟩ := Path.join_name path hname
  rw [hbase]
  refine ⟨hname, ?_⟩
  rw [locate_join_name path hname]
  refine Eq.trans (Path.clean_eq_clean_iff.2 ?_) hclean
  rw [hjoinAbsolute, hjoinElements, habsolute, helements, hinit, List.append_nil]
  exact ⟨rfl, rfl⟩

theorem mem_entriesOf (hd : d.IsTree) (hroot : d.IsRoot path) :
    name ∈ d.entriesOf path ↔ IsName name ∧ (d.node? (Path.join [path, name])).isSome := by
  obtain ⟨node, hnode, _, hbelow⟩ := hroot
  rw [entriesOf, hnode, List.mem_mergeSort, Option.map_some, Option.getD_some, List.mem_map]
  constructor
  · rintro ⟨key, hkey, rfl⟩
    obtain ⟨hparent, htop, hlocated, hsome⟩ := entry_of_mem hd hnode hkey
    obtain ⟨hname, hlocate⟩ := locate_join_base hlocated htop hparent (hbelow key hkey)
    rw [node?, hlocate]
    exact ⟨hname, hsome⟩
  · rintro ⟨hname, hsome⟩
    obtain ⟨above, habove, _, hmem⟩ := knows_of_node? hd hname hsome
    obtain rfl := Option.some.inj (hnode.symm.trans habove)
    exact ⟨_, hmem, base_locate_join path hname⟩

theorem nodup_entriesOf (hd : d.IsTree) (hroot : d.IsRoot path) : (d.entriesOf path).Nodup := by
  obtain ⟨node, hnode, _, hbelow⟩ := hroot
  rw [entriesOf, hnode, (List.mergeSort_perm _ _).nodup_iff, Option.map_some, Option.getD_some]
  refine (hd.nodup _ node hnode).map_on fun key hkey key' hkey' hbase => ?_
  have hlocate {k : String} (hk : k ∈ node.entries) :
      locate (Path.join [path, Path.base k]) = k := by
    obtain ⟨hparent, htop, hlocated, _⟩ := entry_of_mem hd hnode hk
    exact (locate_join_base hlocated htop hparent (hbelow k hk)).2
  rw [← hlocate hkey, ← hlocate hkey', hbase]

theorem below_of_directory (hlocated : locate key = key) (htop : key ≠ "/")
    (hdirectory : Path.clean (Path.directory key) = Path.clean path)
    (hup : ∀ name, cleanElements key = cleanElements path ++ [name] → name ≠ "..") :
    Path.Below path key := by
  obtain ⟨es, name, helements, hclean⟩ := exists_last hlocated htop
  obtain ⟨habsolute, hdirectoryElements⟩ := Path.directory_clean helements
  rw [hclean] at habsolute hdirectoryElements
  obtain ⟨hsame, hsameElements⟩ := Path.clean_eq_clean_iff.1 hdirectory
  rw [hdirectoryElements] at hsameElements
  rw [hsameElements] at helements
  exact ⟨habsolute.symm.trans hsame, [name], List.cons_ne_nil name [],
    fun h => hup name helements (List.mem_singleton.1 h).symm, helements⟩

theorem isRoot_of_last (hd : d.IsTree) (hnode : d.node? path = some node)
    (hdirectory : node.isDirectory = true) (helements : cleanElements path = es ++ [name])
    (hname : name ≠ "..") : d.IsRoot path := by
  refine ⟨node, hnode, hdirectory, fun key hkey => ?_⟩
  obtain ⟨hparent, htop, hlocated, _⟩ := entry_of_mem hd hnode hkey
  rw [locate_of_last helements hname] at hparent
  have hclean : Path.clean (Path.directory key) = Path.clean path := by
    obtain h | ⟨h, _⟩ := locate_eq (Path.directory key)
    · have hnil := congrArg cleanElements (h.symm.trans hparent)
      rw [Path.cleanElements_clean, helements] at hnil
      exact absurd hnil.symm (List.concat_ne_nil name es)
    · exact h.symm.trans hparent
  refine below_of_directory hlocated htop hclean fun last hlast => ?_
  have hcleaned := Path.cleaned_cleanElements key
  rw [hlast, helements, List.reverse_concat, List.reverse_concat] at hcleaned
  cases hcleaned with
  | climb _ hdone _ => exact absurd (hdone name rfl) hname
  | name _ _ hup _ => exact hup

theorem isRoot_join (hd : d.IsTree) (hname : IsName name)
    (hnode : d.node? (Path.join [path, name]) = some node) (hdirectory : node.isDirectory = true) :
    d.IsRoot (Path.join [path, name]) :=
  isRoot_of_last hd hnode hdirectory (Path.join_name path hname).2 hname.not_up

/-- Where all paths are absolute, every absolute path of a directory is that of a root. -/
theorem isRoot_of_absolute (hd : d.IsTree)
    (habsolute : ∀ key, (d.nodes.lookup key).isSome → isAbsolute key = true)
    (hpath : isAbsolute path = true) (hnode : d.node? path = some node)
    (hdirectory : node.isDirectory = true) : d.IsRoot path := by
  refine ⟨node, hnode, hdirectory, fun key hkey => ?_⟩
  obtain ⟨hparent, htop, hlocated, hsome⟩ := entry_of_mem hd hnode hkey
  have hlocate {p : String} (hp : isAbsolute p = true) : locate p = Path.clean p := by
    rw [locate, if_neg]
    have hclean := Path.isAbsolute_clean p
    rintro (h | h) <;>
    · rw [h, hp] at hclean
      exact absurd hclean (by decide)
  have habove : isAbsolute (Path.directory key) = true := by
    obtain ⟨es, name, helements, hclean⟩ := exists_last hlocated htop
    have hsame := (Path.directory_clean helements).1
    rw [hclean] at hsame
    exact hsame.trans (habsolute key hsome)
  rw [parentOf, hlocate habove, hlocate hpath] at hparent
  refine below_of_directory hlocated htop hparent fun last hlast => ?_
  have hcleaned := Path.cleaned_cleanElements key
  rw [hlast, List.reverse_concat, habsolute key hsome] at hcleaned
  cases hcleaned with
  | climb hrooted _ _ => cases hrooted
  | name _ _ hup _ => exact hup

/-- What stands above a node that is reached by names is a directory. -/
theorem isDirectory_above (hd : d.IsTree) {rest : List String} (hname : IsName name)
    (hrest : ∀ x ∈ rest, IsName x) (hne : rest ≠ [])
    (hsome : (d.node? (Path.join [path, spell (name :: rest)])).isSome) :
    ∃ node, d.node? (Path.join [path, name]) = some node ∧ node.isDirectory = true := by
  have hone : spell [name] = name := String.intercalate_singleton
  induction rest using List.reverseRecOn with
  | nil => exact absurd rfl hne
  | append_singleton rest last ih =>
      obtain ⟨hrest, hlast⟩ := List.forall_mem_append.1 hrest
      have hlastName := hlast last List.mem_cons_self
      have hinner : ∀ x ∈ name :: rest, IsName x := List.forall_mem_cons.2 ⟨hname, hrest⟩
      have hlastSpell : spell [last] = last := String.intercalate_singleton
      rw [← List.cons_append, ← node?_join_spell d path hinner hlast, hlastSpell] at hsome
      obtain ⟨node, hnode, hdirectory, _⟩ := knows_of_node? hd hlastName hsome
      cases rest with
      | nil => exact ⟨node, hone ▸ hnode, hdirectory⟩
      | cons x rest => exact ih hrest (List.cons_ne_nil x rest) (Option.isSome_of_eq_some hnode)

/-- A walk from a directory takes the file that is reached by names: it enters every directory on
the way. -/
inductive Taken (d : Disk) (options : WalkOptions) : String → List String → Prop where
  | file {path name : String} {node : Node} (hname : IsName name)
      (hnode : d.node? (Path.join [path, name]) = some node) (hfile : node.isDirectory = false)
      (htaken : options.file name = true) : Taken d options path [name]
  | inside {path name : String} {names : List String} {node : Node} (hname : IsName name)
      (hnode : d.node? (Path.join [path, name]) = some node) (hdirectory : node.isDirectory = true)
      (hentered : options.directory name = true)
      (h : Taken d options (Path.join [path, name]) names) : Taken d options path (name :: names)

variable {options : WalkOptions} {directories : List String}

/-- To cut off directories on the way is to ask for all names at the end. -/
theorem taken_iff (hd : d.IsTree) : d.Taken options path names ↔
    ∃ directories name, names = directories ++ [name] ∧ d.FileBelow path names ∧
      options.file name = true ∧ ∀ x ∈ directories, options.directory x = true := by
  constructor
  · intro h
    induction h with
    | @file path name node hname hnode hfile htaken =>
        refine ⟨[], name, rfl, ⟨by simpa using hname, node, ?_, hfile⟩, htaken, by simp⟩
        rwa [spell, String.intercalate_singleton]
    | @inside path name names node hname hnode hdirectory hentered h ih =>
        obtain ⟨directories, last, rfl, ⟨hnames, file, hfileNode, hfile⟩, htaken, hall⟩ := ih
        have hone : ∀ x ∈ [name], IsName x := by simpa using hname
        have hlead := node?_join_spell d path hone hnames
        rw [spell, String.intercalate_singleton, hfileNode] at hlead
        exact ⟨name :: directories, last, rfl,
          ⟨List.forall_mem_cons.2 ⟨hname, hnames⟩, file, hlead.symm, hfile⟩, htaken,
          List.forall_mem_cons.2 ⟨hentered, hall⟩⟩
  · rintro ⟨directories, last, rfl, ⟨hnames, file, hfileNode, hfile⟩, htaken, hall⟩
    induction directories generalizing path with
    | nil =>
        rw [List.nil_append, spell, String.intercalate_singleton] at hfileNode
        exact .file (hnames last List.mem_cons_self) hfileNode hfile htaken
    | cons name directories ih =>
        rw [List.cons_append] at hnames hfileNode
        obtain ⟨hname, hnames⟩ := List.forall_mem_cons.1 hnames
        obtain ⟨hentered, hall⟩ := List.forall_mem_cons.1 hall
        obtain ⟨node, hnode, hdirectory⟩ := isDirectory_above hd hname hnames
          (List.concat_ne_nil last directories) (Option.isSome_of_eq_some hfileNode)
        have hone : ∀ x ∈ [name], IsName x := by simpa using hname
        have hlead := node?_join_spell d path hone hnames
        rw [spell, String.intercalate_singleton, List.singleton_append, hfileNode] at hlead
        exact .inside hname hnode hdirectory hentered (ih hnames hlead hall)

theorem Taken.isName (h : d.Taken options path names) : ∀ name ∈ names, IsName name := by
  induction h with
  | file hname => simpa using hname
  | inside hname _ _ _ _ ih => exact List.forall_mem_cons.2 ⟨hname, ih⟩

end

/-- How many nodes stand deeper than a path. Every step of a walk into a directory lowers this
number, so it bounds the depth of the walk. -/
def deeper (d : Disk) (path : String) : Nat :=
  d.nodes.countP fun entry => depth (locate path) < depth entry.1

/-- The path that a walk gives to what is reached by names. -/
def walked (names : List String) : String := if names = [] then "." else spell names

/-- What a visit finds: every file that is taken and is reached through one of some entries,
once. -/
def Finds (d : Disk) (options : WalkOptions) (path : String) (before entries : List String)
    (found : Except DiskError (List String)) : Prop :=
  ∃ hits : List (List String), found = .ok (hits.map fun names => spell (before ++ names)) ∧
    hits.Nodup ∧
    ∀ names, names ∈ hits ↔ d.Taken options path names ∧ ∃ name ∈ entries, names.head? = some name

section

variable {d : Disk} {options : WalkOptions} {path name : String} {before names : List String}
  {found more : List String} {node : Node} {fuel : Nat}

theorem deeper_join_lt (hname : IsName name) (hsome : (d.node? (Path.join [path, name])).isSome) :
    d.deeper (Path.join [path, name]) < d.deeper path := by
  obtain ⟨node, hnode⟩ := Option.isSome_iff_exists.1 hsome
  have hdepth := depth_parentOf_lt (locate_locate _) (locate_join_name_ne path hname)
  rw [parentOf_locate_join path hname] at hdepth
  obtain ⟨front, back, hnodes⟩ := List.append_of_mem (mem_of_lookup hnode)
  have hmono (nodes : List (String × Node)) :
      nodes.countP (fun entry => depth (locate (Path.join [path, name])) < depth entry.1) ≤
        nodes.countP fun entry => depth (locate path) < depth entry.1 :=
    List.countP_mono_left fun entry _ h => by
      have hlt := of_decide_eq_true h
      exact decide_eq_true (Nat.lt_trans hdepth hlt)
  have hfront := hmono front
  have hback := hmono back
  simp only [deeper, hnodes, List.countP_append, List.countP_cons, Nat.lt_irrefl, hdepth]
  simp only [decide_false, decide_true, Bool.false_eq_true, if_false, if_true]
  omega

theorem spell_ne_dot (hnames : ∀ x ∈ names, IsName x) (hne : names ≠ []) : spell names ≠ "." := by
  intro heq
  have hdescent := Path.descent_spell hnames
  rw [heq] at hdescent
  exact hne hdescent.symm

theorem below_walked (hbefore : ∀ x ∈ before, IsName x) (name : String) :
    below (walked before) name = spell (before ++ [name]) := by
  rw [walked]
  split
  · next hnil =>
      rw [hnil, below, if_pos rfl, List.nil_append, spell, String.intercalate_singleton]
  · next hne =>
      rw [below, if_neg (spell_ne_dot hbefore hne), spell, spell,
        String.intercalate_append_of_ne_nil hne (List.cons_ne_nil name []),
        String.intercalate_singleton]

theorem finds_nil : d.Finds options path before [] (.ok []) :=
  ⟨[], rfl, List.nodup_nil, by simp⟩

theorem Finds.cons (hname : name ∉ names) (h : d.Finds options path before [name] (.ok found))
    (hmore : d.Finds options path before names (.ok more)) :
    d.Finds options path before (name :: names) (.ok (found ++ more)) := by
  obtain ⟨hits, hfound, hnodup, hmem⟩ := h
  obtain ⟨hits', hfound', hnodup', hmem'⟩ := hmore
  refine ⟨hits ++ hits', ?_, List.nodup_append.2 ⟨hnodup, hnodup', ?_⟩, ?_⟩
  · rw [Except.ok.inj hfound, Except.ok.inj hfound', List.map_append]
  · rintro inner hinner _ hinner' rfl
    obtain ⟨_, x, hx, hhead⟩ := (hmem inner).1 hinner
    obtain ⟨_, x', hx', hhead'⟩ := (hmem' inner).1 hinner'
    rw [hhead] at hhead'
    rw [← Option.some.inj hhead', List.mem_singleton.1 hx] at hx'
    exact hname hx'
  · intro inner
    rw [List.mem_append, hmem, hmem', ← and_or_left]
    simp only [List.exists_mem_cons_iff, List.mem_singleton, exists_eq_left]

theorem Finds.ok {result : Except DiskError (List String)}
    (h : d.Finds options path before names result) : ∃ found, result = .ok found := by
  obtain ⟨hits, hresult, _⟩ := h
  exact ⟨_, hresult⟩

/-- Entries are visited one after the other. -/
theorem finds_visitAll {relative : String} (hnodup : names.Nodup)
    (hvisit : ∀ name ∈ names, d.Finds options path before [name]
      (d.visit options fuel (Path.join [path, name]) (below relative name))) :
    d.Finds options path before names (d.visitAll options fuel path relative names) := by
  induction names with
  | nil =>
      rw [visitAll]
      exact finds_nil
  | cons name names ih =>
      obtain ⟨hname, hnodup⟩ := List.nodup_cons.1 hnodup
      obtain ⟨hone, hothers⟩ := List.forall_mem_cons.1 hvisit
      have hrest := ih hnodup hothers
      obtain ⟨found, hfound⟩ := hone.ok
      obtain ⟨more, hmore⟩ := hrest.ok
      rw [visitAll, hfound]
      dsimp only
      rw [hmore]
      exact (hfound ▸ hone).cons hname (hmore ▸ hrest)

/-- Of what is reached through a file, only the file itself can be taken. -/
theorem taken_file_iff (hname : IsName name) (hnode : d.node? (Path.join [path, name]) = some node)
    (hfile : node.isDirectory = false) : d.Taken options path names ∧ names.head? = some name ↔
      names = [name] ∧ options.file name = true := by
  constructor
  · rintro ⟨h, hhead⟩
    cases h with
    | file _ _ _ htaken =>
        cases hhead
        exact ⟨rfl, htaken⟩
    | inside _ hnode' hdirectory _ _ =>
        cases hhead
        rw [hnode] at hnode'
        cases hnode'
        rw [hfile] at hdirectory
        cases hdirectory
  · rintro ⟨rfl, htaken⟩
    exact ⟨.file hname hnode hfile htaken, rfl⟩

/-- What is reached through a directory is taken if the directory is entered. -/
theorem taken_directory_iff (hname : IsName name)
    (hnode : d.node? (Path.join [path, name]) = some node) (hdirectory : node.isDirectory = true) :
    d.Taken options path names ∧ names.head? = some name ↔
      ∃ inner, names = name :: inner ∧ options.directory name = true ∧
        d.Taken options (Path.join [path, name]) inner := by
  constructor
  · rintro ⟨h, hhead⟩
    cases h with
    | file _ hnode' hfile _ =>
        cases hhead
        rw [hnode] at hnode'
        cases hnode'
        rw [hdirectory] at hfile
        cases hfile
    | inside _ _ _ hentered h =>
        cases hhead
        exact ⟨_, rfl, hentered, h⟩
  · rintro ⟨inner, rfl, hentered, h⟩
    exact ⟨.inside hname hnode hdirectory hentered h, rfl⟩

theorem finds_file (hname : IsName name) (hnode : d.node? (Path.join [path, name]) = some node)
    (hfile : node.isDirectory = false) : d.Finds options path before [name]
      (.ok (if options.file name then [spell (before ++ [name])] else [])) := by
  refine ⟨if options.file name then [[name]] else [], ?_, ?_, fun inner => ?_⟩
  · split <;> rfl
  · split
    · exact List.nodup_singleton _
    · exact List.nodup_nil
  · simp only [List.mem_singleton, exists_eq_left]
    rw [taken_file_iff hname hnode hfile]
    cases options.file name <;> simp

theorem finds_unentered (hname : IsName name)
    (hnode : d.node? (Path.join [path, name]) = some node) (hdirectory : node.isDirectory = true)
    (hentered : options.directory name = false) :
    d.Finds options path before [name] (.ok []) := by
  refine ⟨[], rfl, List.nodup_nil, fun inner => ?_⟩
  simp only [List.mem_singleton, exists_eq_left]
  rw [taken_directory_iff hname hnode hdirectory]
  simp [hentered]

/-- A directory that is entered has what is found among its entries. -/
theorem Finds.inside {entries : List String} {result : Except DiskError (List String)}
    (h : d.Finds options (Path.join [path, name]) (before ++ [name]) entries result)
    (hname : IsName name) (hnode : d.node? (Path.join [path, name]) = some node)
    (hdirectory : node.isDirectory = true) (hentered : options.directory name = true)
    (hentries : ∀ names, d.Taken options (Path.join [path, name]) names →
      ∃ x ∈ entries, names.head? = some x) :
    d.Finds options path before [name] result := by
  obtain ⟨hits, rfl, hnodup, hmem⟩ := h
  have htaken (names : List String) :
      names ∈ hits ↔ d.Taken options (Path.join [path, name]) names :=
    (hmem names).trans ⟨fun h => h.1, fun h => ⟨h, hentries names h⟩⟩
  refine ⟨hits.map (name :: ·), ?_, hnodup.map fun _ _ heq => (List.cons.inj heq).2,
    fun inner => ?_⟩
  · rw [List.map_map]
    simp [Function.comp_def]
  · simp only [List.mem_singleton, exists_eq_left]
    rw [taken_directory_iff hname hnode hdirectory, List.mem_map]
    simp only [htaken, hentered, true_and]
    exact exists_congr fun names => by rw [and_comm, eq_comm]

/-- What is taken from a root is reached through one of its entries. -/
theorem Taken.head_mem (hd : d.IsTree) (hroot : d.IsRoot path) (h : d.Taken options path names) :
    ∃ x ∈ d.entriesOf path, names.head? = some x := by
  cases h with
  | file hname hnode | inside hname hnode =>
      exact ⟨_, (mem_entriesOf hd hroot).2 ⟨hname, Option.isSome_of_eq_some hnode⟩, rfl⟩

/-- A visit to an entry, with fuel for all that stands deeper. -/
theorem finds_visit (hd : d.IsTree) (hreadable : d.Readable) (hroot : d.IsRoot path)
    (hbefore : ∀ x ∈ before, IsName x) (hentry : name ∈ d.entriesOf path)
    (hfuel : d.deeper (Path.join [path, name]) < fuel) : d.Finds options path before [name]
      (d.visit options fuel (Path.join [path, name]) (spell (before ++ [name]))) := by
  induction fuel generalizing path before name with
  | zero => exact absurd hfuel (Nat.not_lt_zero _)
  | succ fuel ih =>
      obtain ⟨hname, hsome⟩ := (mem_entriesOf hd hroot).1 hentry
      obtain ⟨node, hnode⟩ := Option.isSome_iff_exists.1 hsome
      have hinner : ∀ x ∈ before ++ [name], IsName x :=
        List.forall_mem_append.2 ⟨hbefore, by simpa using hname⟩
      have hdot : spell (before ++ [name]) ≠ "." :=
        spell_ne_dot hinner (List.concat_ne_nil name before)
      rw [visit, stat_of_node? hnode (hreadable _).1]
      dsimp only
      rw [base_locate_join path hname]
      cases hdirectory : node.isDirectory with
      | false => exact finds_file hname hnode hdirectory
      | true =>
          cases hentered : options.directory name with
          | false =>
              simp only [hdot, Bool.not_true, Bool.false_eq_true, if_false, ne_eq,
                not_false_eq_true, decide_true, Bool.not_false, Bool.and_self, if_true]
              exact finds_unentered hname hnode hdirectory hentered
          | true =>
              simp only [Bool.not_true, Bool.false_eq_true, if_false, Bool.and_false]
              rw [list_of_node? hnode (hreadable _).2]
              have hinside := isRoot_join hd hname hnode hdirectory
              refine Finds.inside ?_ hname hnode hdirectory hentered
                fun names htaken => htaken.head_mem hd hinside
              refine finds_visitAll (nodup_entriesOf hd hinside) fun x hx => ?_
              obtain ⟨hxname, hxsome⟩ := (mem_entriesOf hd hinside).1 hx
              have hlower := deeper_join_lt hxname hxsome
              have hwalked : walked (before ++ [name]) = spell (before ++ [name]) :=
                if_neg (List.concat_ne_nil name before)
              rw [← hwalked, below_walked hinner]
              exact ih hinside hinner hx (by omega)

/-- A walk finds every file below its root that it takes, once. -/
theorem finds_walk (hd : d.IsTree) (hreadable : d.Readable) (hroot : d.IsRoot path) :
    d.Finds options path [] (d.entriesOf path)
      (d.visit options (d.nodes.length + 1) path ".") := by
  obtain ⟨node, hnode, hdirectory, _⟩ := id hroot
  rw [visit, stat_of_node? hnode (hreadable _).1]
  simp only [hdirectory, Bool.not_true, Bool.false_eq_true, if_false, ne_eq, not_true_eq_false,
    decide_false, Bool.false_and]
  rw [list_of_node? hnode (hreadable _).2]
  refine finds_visitAll (nodup_entriesOf hd hroot) fun name hname => ?_
  obtain ⟨hisName, hsome⟩ := (mem_entriesOf hd hroot).1 hname
  have hlower := deeper_join_lt hisName hsome
  have hbound : d.deeper path ≤ d.nodes.length := List.countP_le_length
  have hbefore : ∀ x ∈ ([] : List String), IsName x := List.forall_mem_nil _
  have hwalked : walked [] = "." := rfl
  rw [← hwalked, below_walked hbefore]
  exact finds_visit hd hreadable hroot hbefore hname (by omega)

/-- A walk over a tree gives the paths of the files below its root whose names it takes, if it
enters all directories on the way by their names, in order. -/
theorem walk_eq_files (hd : d.IsTree) (hreadable : d.Readable) (hroot : d.IsRoot path) :
    ∃ paths, d.walk options path = .ok paths ∧ paths.SortedLT ∧ ∀ relative, relative ∈ paths ↔
      ∃ directories name, d.FileBelow path (directories ++ [name]) ∧
        relative = spell (directories ++ [name]) ∧ options.file name = true ∧
          ∀ x ∈ directories, options.directory x = true := by
  have hfinds : d.Finds options path [] (d.entriesOf path)
      (d.visit options (d.nodes.length + 1) path ".") := finds_walk hd hreadable hroot
  obtain ⟨hits, hvisit, hnodup, hmem⟩ := hfinds
  have htaken (names : List String) : names ∈ hits ↔ d.Taken options path names :=
    (hmem names).trans ⟨fun h => h.1, fun h => ⟨h, h.head_mem hd hroot⟩⟩
  have hspelled : (hits.map spell).Nodup :=
    hnodup.map_on fun names hnames names' hnames' heq =>
      Path.spell_inj ((htaken names).1 hnames).isName ((htaken names').1 hnames').isName heq
  refine ⟨(hits.map spell).mergeSort (· ≤ ·), ?_, ?_, fun relative => ?_⟩
  · rw [walk, hvisit]
    rfl
  · exact List.sortedLE_mergeSort.sortedLT_of_nodup
      ((List.mergeSort_perm _ _).nodup_iff.2 hspelled)
  · rw [List.mem_mergeSort, List.mem_map]
    constructor
    · rintro ⟨names, hnames, rfl⟩
      obtain ⟨directories, name, rfl, hfile, hyes, hall⟩ :=
        (taken_iff hd).1 ((htaken names).1 hnames)
      exact ⟨directories, name, hfile, rfl, hyes, hall⟩
    · rintro ⟨directories, name, hfile, rfl, hyes, hall⟩
      exact ⟨_, (htaken _).2 ((taken_iff hd).2 ⟨directories, name, rfl, hfile, hyes, hall⟩), rfl⟩

end

/-- No directory holds the top directory. -/
def Grounded (nodes : List (String × Node)) : Prop :=
  ∀ key node, nodes.lookup key = some node → ∀ e ∈ node.entries, Path.base e ≠ "/"

section

variable {d : Disk} {nodes : List (String × Node)} {key : String} {node : Node}

theorem base_ne_top (hkey : locate key = key) (htop : key ≠ "/") : Path.base key ≠ "/" := by
  obtain ⟨es, name, helements, hclean⟩ := exists_last hkey htop
  rw [← hclean, Path.base_clean helements]
  rintro rfl
  exact Path.not_mem_of_mem_cleanElements (helements ▸ List.mem_append_right es List.mem_cons_self)
    (by decide)

theorem grounded_of_isTree (h : d.IsTree) : Grounded d.nodes := by
  intro key node hnode e he
  obtain ⟨_, htop, hlocated, _⟩ := entry_of_mem h hnode he
  exact base_ne_top hlocated htop

theorem Grounded.setNode (h : Grounded nodes) (hentries : ∀ e ∈ node.entries, Path.base e ≠ "/") :
    Grounded (setNode nodes key node) := by
  intro k n hn
  rw [lookup_setNode] at hn
  split at hn
  · cases hn
    exact hentries
  · exact h k n hn

theorem forall_holding {held : String} (hentries : ∀ e ∈ node.entries, Path.base e ≠ "/")
    (hheld : Path.base held ≠ "/") : ∀ e ∈ (node.holding held).entries, Path.base e ≠ "/" := by
  intro e he
  obtain hmem | rfl := (mem_entries_holding node held e).1 he
  · exact hentries e hmem
  · exact hheld

theorem Grounded.enrol (h : Grounded nodes) (hkey : locate key = key) (fuel : Nat) :
    Grounded (enrol nodes key (ancestors fuel key)) := by
  induction fuel generalizing key with
  | zero => exact h
  | succ fuel ih =>
      rw [ancestors]
      split
      · exact h
      · next hparent =>
          have htop : key ≠ "/" := by
            rintro rfl
            exact hparent parentOf_top
          have hbase := base_ne_top hkey htop
          rw [Disk.enrol]
          cases hnode : nodes.lookup (parentOf key) with
          | some node => exact h.setNode (forall_holding (h _ node hnode) hbase)
          | none =>
              exact (ih (locate_locate _)).setNode (forall_holding (List.forall_mem_nil _) hbase)

theorem Grounded.place (h : Grounded d.nodes) (hkey : locate key = key)
    (hentries : ∀ e ∈ node.entries, Path.base e ≠ "/") : Grounded (d.place key node).nodes := by
  rw [Disk.place]
  split
  · exact h.setNode hentries
  · have henrolled := h.enrol hkey (key.length + 1)
    dsimp only
    exact henrolled.setNode hentries

theorem Grounded.put (h : Grounded d.nodes) (path text : String) (modified : Int) :
    Grounded (d.put path text modified).nodes := by
  refine h.place (locate_locate path) ?_
  cases hnode : d.node? path with
  | none => exact List.forall_mem_nil _
  | some node => exact h _ node hnode

theorem Grounded.putDirectory (h : Grounded d.nodes) (path : String) :
    Grounded (d.putDirectory path).nodes := by
  rw [Disk.putDirectory]
  split
  · exact h
  · exact h.place (locate_locate path) (List.forall_mem_nil _)

theorem Grounded.erase (h : Grounded d.nodes) (path : String) : Grounded (d.erase path).nodes := by
  intro k n hn e he
  obtain ⟨before, hbefore, hentries⟩ := (takenFrom_erase d path).exists_entries hn
  rw [hentries] at he
  split at he
  · exact h k before hbefore e (List.mem_of_mem_filter he)
  · exact h k before hbefore e he

end

section

variable {d : Disk} {options : WalkOptions}

/-- A path that is not absolute, and not empty. -/
def Relative (path : String) : Prop := path ≠ "" ∧ Path.isAbsolute path = false

/-- The last element of a path that leads below the top directory is a relative path. -/
theorem relative_base {p : String} (h : Path.base p ≠ "/") : Relative (Path.base p) := by
  rw [Path.base] at *
  split
  · exact ⟨by decide, by decide⟩
  · next hne =>
      rw [if_neg hne] at h
      cases hlast : (Path.elements p).reverse.dropWhile (· = "") with
      | nil =>
          rw [hlast] at h
          exact absurd rfl h
      | cons last rest =>
          have hmem : last ∈ Path.elements p :=
            List.mem_reverse.1 ((List.dropWhile_suffix _).subset (hlast ▸ List.mem_cons_self))
          have hnonempty : last ≠ "" := by
            have hhead := List.head?_dropWhile_not (· = "") (Path.elements p).reverse
            rw [hlast] at hhead
            simpa using hhead
          refine ⟨hnonempty, ?_⟩
          rw [← Bool.not_eq_true, Path.isAbsolute_iff]
          exact fun hhead => Path.not_mem_of_mem_elements hmem (List.mem_of_head? hhead)

theorem Relative.below {relative name : String} (h : Relative relative) (hname : Relative name) :
    Relative (below relative name) := by
  rw [Disk.below]
  split
  · exact hname
  · rw [String.append_assoc]
    exact ⟨by simp, (Path.isAbsolute_append h.1 _).trans h.2⟩

theorem relative_of_mem_entriesOf (h : Grounded d.nodes) {path name : String}
    (hname : name ∈ d.entriesOf path) : Relative name := by
  rw [entriesOf, List.mem_mergeSort] at hname
  obtain ⟨key, hkey, rfl⟩ := List.mem_map.1 hname
  cases hnode : d.node? path with
  | none => simp [hnode] at hkey
  | some node =>
      rw [hnode] at hkey
      exact relative_base (h _ node hnode key hkey)

/-- What is visited under relative paths has relative paths. -/
theorem relative_visit (h : Grounded d.nodes) {fuel : Nat} {path relative : String}
    {found : List String} (hrelative : Relative relative)
    (hvisit : d.visit options fuel path relative = .ok found) : ∀ p ∈ found, Relative p := by
  induction fuel generalizing path relative found with
  | zero =>
      rw [visit] at hvisit
      cases hvisit
      exact List.forall_mem_nil _
  | succ fuel ih =>
      have hall (names : List String) (hnames : ∀ name ∈ names, Relative name) (found : List String)
          (hfound : d.visitAll options fuel path relative names = .ok found) :
          ∀ p ∈ found, Relative p := by
        induction names generalizing found with
        | nil =>
            rw [visitAll] at hfound
            cases hfound
            exact List.forall_mem_nil _
        | cons name names ihNames =>
            obtain ⟨hname, hnames⟩ := List.forall_mem_cons.1 hnames
            rw [visitAll] at hfound
            split at hfound
            · cases hfound
            · next first hfirst =>
                split at hfound
                · cases hfound
                · next more hmore =>
                    cases hfound
                    exact List.forall_mem_append.2
                      ⟨ih (hrelative.below hname) hfirst, ihNames hnames more hmore⟩
      have herror {e : DiskError} (he : walkError options e = .ok found) :
          ∀ p ∈ found, Relative p := by
        rw [walkError] at he
        split at he
        · cases he
          exact List.forall_mem_nil _
        · cases he
      rw [visit] at hvisit
      dsimp only at hvisit
      split at hvisit
      · exact herror hvisit
      · split at hvisit
        · cases hvisit
          split
          · simpa using hrelative
          · exact List.forall_mem_nil _
        · split at hvisit
          · cases hvisit
            exact List.forall_mem_nil _
          · split at hvisit
            · exact herror hvisit
            · next names hlist =>
                refine hall names ?_ found hvisit
                rw [list] at hlist
                cases hopened : d.openNode path with
                | error e =>
                    rw [hopened] at hlist
                    cases hlist
                | ok node =>
                    rw [hopened] at hlist
                    cases hlist
                    exact fun name hname => relative_of_mem_entriesOf h hname

theorem relative_walk (h : Grounded d.nodes) {root : String} {paths : List String}
    (hwalk : d.walk options root = .ok paths) : ∀ p ∈ paths, Relative p := by
  rw [walk] at hwalk
  cases hvisit : d.visit options (d.nodes.length + 1) root "." with
  | error e =>
      rw [hvisit] at hwalk
      cases hwalk
  | ok found =>
      rw [hvisit] at hwalk
      cases hwalk
      exact fun p hp => relative_visit h ⟨by decide, by decide⟩ hvisit p (List.mem_mergeSort.1 hp)

end
end Disk
end ScriptWeave
