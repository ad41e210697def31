import Mathlib
import SqlFormat.Proofs.Files.Order
import SqlFormat.Proofs.Files.Tree

/-!
# Which files are collected

The files that inputs lead to are the SQL files among them, and those that are reached from a directory
among them through entries of which none is hidden or excluded. They stand in the order of paths, each
once. Neither the order of the inputs nor how often one is named matters, and of the tree only what
stands where: not the order in which a directory lists its entries, and not the contents of files.

Results: `Collect.mem_flatMap_fromInput` (before they are put in order), `Collect.paths_exact`.
-/

namespace SqlFormat

/-! ## Entries -/

/-- A directory has an entry with this name and node. -/
inductive Entries.Has (name : String) (node : Node) : Entries → Prop
  | here {rest : Entries} : Has name node (.cons name node rest)
  | there {other : String} {node' : Node} {rest : Entries} (h : Has name node rest) :
      Has name node (.cons other node' rest)

mutual

/-- The entries of a directory have different names, here and in all directories below. -/
def Node.Distinct : Node → Prop
  | .file _ => True
  | .directory entries => entries.Distinct

/-- The entries have different names, and so have those of the directories below them. -/
def Entries.Distinct : Entries → Prop
  | .nil => True
  | .cons name node rest => rest.find? name = none ∧ node.Distinct ∧ rest.Distinct

end

/-- Two nodes have their files and directories at the same places. -/
def Node.Alike (a b : Node) : Prop :=
  ∀ location, (a.at? location).map Option.isSome = (b.at? location).map Option.isSome

namespace Entries

variable {entries : Entries} {name : String} {node : Node}

theorem has_of_find? : ∀ {entries : Entries}, entries.find? name = some node → entries.Has name node
  | .nil, h => by cases h
  | .cons other node' rest, h => by
    unfold find? at h
    split at h
    · next heq =>
      obtain rfl := heq
      obtain rfl := Option.some.inj h
      exact .here
    · exact .there (has_of_find? h)

theorem Has.isSome (h : entries.Has name node) : (entries.find? name).isSome = true := by
  induction h with
  | here => simp [find?]
  | there _ ih =>
    unfold find?
    split
    · rfl
    · exact ih

/-- Where names are different, an entry is the one that is found by its name. -/
theorem Has.find? (h : entries.Has name node) (hdistinct : entries.Distinct) :
    entries.find? name = some node := by
  induction h with
  | here => simp [Entries.find?]
  | @there other node' rest h ih =>
    obtain ⟨hnone, -, hrest⟩ := hdistinct
    have hne : other ≠ name := by
      rintro rfl
      have hsome := h.isSome
      rw [hnone] at hsome
      cases hsome
    rw [Entries.find?, if_neg hne, ih hrest]

theorem Has.distinct (h : entries.Has name node) (hdistinct : entries.Distinct) : node.Distinct := by
  induction h with
  | here => exact hdistinct.2.1
  | there _ ih => exact ih hdistinct.2.2

/-- Two entries with different names can be listed in either order. -/
theorem find?_swap {other : String} (hne : name ≠ other) (a b : Node) (rest : Entries)
    (wanted : String) :
    (cons name a (cons other b rest)).find? wanted =
      (cons other b (cons name a rest)).find? wanted := by
  simp only [find?]
  split_ifs with h h'
  · exact absurd (h.trans h'.symm) hne
  · rfl
  · rfl
  · rfl

end Entries

namespace Node

variable {entries others : Entries} {name : String} {a b node : Node}

/-- What stands at places below a directory depends on what is found by names. -/
theorem alike_of_find? (h : ∀ name, entries.find? name = others.find? name) :
    (directory entries).Alike (directory others) := by
  rintro (_ | ⟨name, names⟩)
  · rfl
  · rw [at?_cons, at?_cons]
    simp only [Node.entries, h name]

theorem Alike.symm (h : a.Alike b) : b.Alike a :=
  fun location => (h location).symm

theorem Alike.eq_file {bytes : List UInt8} (h : (file bytes).Alike b) : ∃ bytes', b = file bytes' := by
  have hhere := h []
  rw [at?_nil, at?_nil] at hhere
  cases b with
  | file bytes' => exact ⟨bytes', rfl⟩
  | directory others => cases hhere

theorem Alike.eq_directory (h : (directory entries).Alike b) : ∃ others, b = directory others := by
  have hhere := h []
  rw [at?_nil, at?_nil] at hhere
  cases b with
  | file bytes => cases hhere
  | directory others => exact ⟨others, rfl⟩

/-- Alike directories have alike entries. -/
theorem Alike.find? (h : (directory entries).Alike (directory others))
    (hfind : entries.find? name = some a) : ∃ b, others.find? name = some b ∧ a.Alike b := by
  have hbelow : ∀ names, (a.at? names).map Option.isSome =
      ((others.find? name).bind fun b => b.at? names).map Option.isSome := by
    intro names
    have hthere := h (name :: names)
    rw [at?_cons, at?_cons] at hthere
    change ((entries.find? name).bind _).map _ = ((others.find? name).bind _).map _ at hthere
    rwa [hfind] at hthere
  cases hother : others.find? name with
  | none =>
    have hhere := hbelow []
    rw [hother, at?_nil] at hhere
    cases hhere
  | some b =>
    refine ⟨b, rfl, fun names => ?_⟩
    have hthere := hbelow names
    rwa [hother] at hthere

/-- What is found in a directory with different names has different names. -/
theorem Distinct.find? (h : a.Distinct) {location : List String}
    (hfind : a.find? location = some node) : node.Distinct := by
  induction location generalizing a with
  | nil =>
    obtain rfl := Option.some.inj hfind
    exact h
  | cons name names ih =>
    cases a with
    | file bytes => cases hfind
    | directory entries =>
      obtain ⟨child, hchild, hfind⟩ := Option.bind_eq_some_iff.mp hfind
      exact ih ((Entries.has_of_find? hchild).distinct h) hfind

end Node

namespace FileTree

variable {a b : FileTree} {path : Path} {node : Node}

theorem SameShape.symm (h : a.SameShape b) : b.SameShape a :=
  ⟨h.home.symm, fun location => (h.shape location).symm⟩

theorem node?_eq_ok : a.node? path = .ok node ↔
    ∃ location, a.locate path = .ok location ∧ a.root.find? location = some node := by
  unfold node?
  cases a.locate path with
  | error fault => simp [bind, Except.bind]
  | ok location =>
    cases hfind : a.root.find? location with
    | none => simp [bind, Except.bind, hfind]
    | some found => simp [bind, Except.bind, hfind]

/-- A path leads to alike nodes in trees of the same shape. -/
theorem SameShape.node? (h : a.SameShape b) (hnode : a.node? path = .ok node) :
    ∃ node', b.node? path = .ok node' ∧ node.Alike node' := by
  obtain ⟨location, hlocate, hfind⟩ := node?_eq_ok.mp hnode
  have hbelow : ∀ names, (node.at? names).map Option.isSome =
      ((b.root.find? location).bind (·.at? names)).map Option.isSome := by
    intro names
    have hthere := h.shape (location ++ names)
    simp only [at?, Node.at?, Node.find?_append, hfind, Option.map_bind] at hthere
    rw [Option.map_bind]
    exact hthere
  cases hother : b.root.find? location with
  | none =>
    have hhere := hbelow []
    rw [hother, Node.at?_nil] at hhere
    cases hhere
  | some node' =>
    refine ⟨node', node?_eq_ok.mpr ⟨location, ?_, hother⟩, fun names => ?_⟩
    · rw [← locate_congr h, hlocate]
    · have hthere := hbelow names
      rwa [hother] at hthere

end FileTree

/-! ## Paths that are spelt differently -/

namespace Path

/-- The paths have the same components, so that they differ in their spelling at most. -/
def Same (a b : Path) : Prop :=
  a.components = b.components

instance : Std.LawfulEqCmp Component.order where
  eq_of_compare {a b} h := by
    cases a <;> cases b <;>
      first
      | rfl
      | exact congrArg Component.normal (Std.LawfulEqOrd.eq_of_compare h)
      | cases h

theorem order_eq_iff {a b : Path} : a.order b = .eq ↔ a.Same b := by
  unfold order
  rw [orderComponents_eq]
  exact Std.LawfulEqCmp.compare_eq_iff_eq

end Path

namespace Collect

variable {tree : FileTree} {exclude : List String} {inputs : List Path} {path : Path}

/-! ## What is to be collected -/

/-- An entry is left out if it is hidden, or if one of the patterns that can be read matches its name
or its path. -/
def LeftOut (exclude : List String) (path : Path) (name : String) : Prop :=
  name.toList.head? = some '.' ∨
    ∃ pattern ∈ exclude, ∃ glob, Glob.parse? pattern = some glob ∧
      (glob.accepts name = true ∨ glob.accepts path.text = true)

/-- A file is reached from a directory through entries of which none is left out, its own included. -/
inductive Reached (exclude : List String) : Path → Entries → Path → Prop
  | file {directory : Path} {entries : Entries} {name : String} {bytes : List UInt8}
      (has : entries.Has name (.file bytes)) (kept : ¬LeftOut exclude (directory.join name) name) :
      Reached exclude directory entries (directory.join name)
  | inside {directory path : Path} {entries inner : Entries} {name : String}
      (has : entries.Has name (.directory inner))
      (kept : ¬LeftOut exclude (directory.join name) name)
      (below : Reached exclude (directory.join name) inner path) :
      Reached exclude directory entries path

/-- The SQL files that inputs lead to: those among the inputs, and those that are reached from a
directory among them. -/
inductive Collected (tree : FileTree) (exclude : List String) (inputs : List Path) (path : Path) :
    Prop
  | input (mem : path ∈ inputs) (file : tree.isFile path = true) (sql : path.isSql = true)
  | below {input : Path} {entries : Entries} (mem : input ∈ inputs)
      (directory : tree.node? input = .ok (.directory entries))
      (reached : Reached exclude input entries path) (sql : path.isSql = true)

theorem skips_iff {name : String} :
    skips (exclude.filterMap Glob.parse?) path name = true ↔ LeftOut exclude path name := by
  simp only [skips, LeftOut, Bool.or_eq_true, beq_iff_eq, List.any_eq_true, List.mem_filterMap]
  refine or_congr_right ⟨?_, ?_⟩
  · rintro ⟨glob, ⟨pattern, hmem, hparse⟩, haccepts⟩
    exact ⟨pattern, hmem, glob, hparse, haccepts⟩
  · rintro ⟨pattern, hmem, glob, hparse, haccepts⟩
    exact ⟨glob, ⟨pattern, hmem, hparse⟩, haccepts⟩

/-! ## The walk through a directory -/

/-- What an entry adds to the files below its directory. -/
def ofEntry (exclude : List Glob) (here : Path) (name : String) (node : Node) : List Path :=
  if skips exclude here name then []
  else match node with
    | .file _ => if here.isSql then [here] else []
    | .directory entries => among exclude here entries

theorem among_cons (exclude : List Glob) (directory : Path) (name : String) (node : Node)
    (rest : Entries) :
    among exclude directory (.cons name node rest) =
      ofEntry exclude (directory.join name) name node ++ among exclude directory rest := by
  cases node <;> rfl

theorem mem_ofEntry_iff {here : Path} {name : String} {node : Node} :
    path ∈ ofEntry (exclude.filterMap Glob.parse?) here name node ↔
      ¬LeftOut exclude here name ∧
        ((∃ bytes, node = .file bytes ∧ path = here ∧ path.isSql = true) ∨
          ∃ inner, node = .directory inner ∧
            path ∈ among (exclude.filterMap Glob.parse?) here inner) := by
  rw [← skips_iff]
  unfold ofEntry
  split
  · next h => simp [h]
  · next h =>
    cases node with
    | file bytes =>
      have hmem : path ∈ (if here.isSql then [here] else []) ↔ path = here ∧ path.isSql = true := by
        split
        · next hsql =>
          rw [List.mem_singleton]
          exact ⟨fun heq => ⟨heq, heq ▸ hsql⟩, And.left⟩
        · next hsql =>
          exact iff_of_false List.not_mem_nil fun heq => hsql (heq.1 ▸ heq.2)
      simp [h, hmem]
    | directory inner => simp [h]

/-- What the walk finds is reached. -/
theorem reached_of_mem : ∀ (entries : Entries) (directory : Path),
    path ∈ among (exclude.filterMap Glob.parse?) directory entries →
      Reached exclude directory entries path ∧ path.isSql = true
  | .nil, _, h => (List.not_mem_nil h).elim
  | .cons name node rest, directory, h => by
    rw [among_cons, List.mem_append, mem_ofEntry_iff] at h
    obtain ⟨hkept, ⟨bytes, rfl, rfl, hsql⟩ | ⟨inner, rfl, hinner⟩⟩ | hrest := h
    · exact ⟨.file .here hkept, hsql⟩
    · obtain ⟨hreached, hsql⟩ := reached_of_mem inner _ hinner
      exact ⟨.inside .here hkept hreached, hsql⟩
    · obtain ⟨hreached, hsql⟩ := reached_of_mem rest directory hrest
      refine ⟨?_, hsql⟩
      cases hreached with
      | file has kept => exact .file has.there kept
      | inside has kept below => exact .inside has.there kept below

/-- Each entry adds its files, wherever it stands in the list. -/
theorem mem_among_of_has {exclude : List Glob} {directory : Path} {entries : Entries} {name : String}
    {node : Node} (has : entries.Has name node)
    (h : path ∈ ofEntry exclude (directory.join name) name node) :
    path ∈ among exclude directory entries := by
  induction has with
  | here =>
    rw [among_cons]
    exact List.mem_append_left _ h
  | there _ ih =>
    rw [among_cons]
    exact List.mem_append_right _ ih

/-- The walk through a directory finds the SQL files that are reached from it. -/
theorem mem_among_iff {directory : Path} {entries : Entries} :
    path ∈ among (exclude.filterMap Glob.parse?) directory entries ↔
      Reached exclude directory entries path ∧ path.isSql = true := by
  refine ⟨reached_of_mem entries directory, ?_⟩
  rintro ⟨hreached, hsql⟩
  induction hreached with
  | file has kept =>
    exact mem_among_of_has has (mem_ofEntry_iff.mpr ⟨kept, .inl ⟨_, rfl, rfl, hsql⟩⟩)
  | inside has kept _ ih =>
    exact mem_among_of_has has (mem_ofEntry_iff.mpr ⟨kept, .inr ⟨_, rfl, ih hsql⟩⟩)

/-- What the inputs lead to, before it is put in order. -/
theorem mem_flatMap_fromInput :
    path ∈ inputs.flatMap (fromInput tree (exclude.filterMap Glob.parse?)) ↔
      Collected tree exclude inputs path := by
  rw [List.mem_flatMap]
  constructor
  · rintro ⟨input, hmem, h⟩
    unfold fromInput at h
    split at h
    · next bytes hnode =>
      split at h
      · next hsql =>
        obtain rfl := List.mem_singleton.mp h
        refine .input hmem ?_ hsql
        rw [FileTree.isFile, hnode]
      · cases h
    · next node hfile hnode =>
      cases node with
      | file bytes => exact (hfile bytes rfl).elim
      | directory entries =>
        rw [below, mem_among_iff] at h
        exact .below hmem hnode h.1 h.2
    · cases h
  · rintro (⟨hmem, hfile, hsql⟩ | ⟨hmem, hnode, hreached, hsql⟩)
    · refine ⟨path, hmem, ?_⟩
      unfold FileTree.isFile at hfile
      unfold fromInput
      split at hfile
      · next bytes hnode => simp [hnode, hsql]
      · cases hfile
    · refine ⟨_, hmem, ?_⟩
      simp only [fromInput, hnode, below]
      exact mem_among_iff.mpr ⟨hreached, hsql⟩

/-! ## What the collected files depend on -/

/-- Of the entries of a directory only the files and directories at their places matter. -/
theorem Reached.of_alike {directory : Path} {entries others : Entries}
    (h : Reached exclude directory entries path) (hdistinct : entries.Distinct)
    (halike : (Node.directory entries).Alike (.directory others)) :
    Reached exclude directory others path := by
  induction h generalizing others with
  | file has kept =>
    obtain ⟨node, hfind, hnode⟩ := halike.find? (has.find? hdistinct)
    obtain ⟨bytes, rfl⟩ := hnode.eq_file
    exact .file (Entries.has_of_find? hfind) kept
  | inside has kept _ ih =>
    obtain ⟨node, hfind, hnode⟩ := halike.find? (has.find? hdistinct)
    obtain ⟨inner, rfl⟩ := hnode.eq_directory
    exact .inside (Entries.has_of_find? hfind) kept (ih (has.distinct hdistinct) hnode)

/-- Of a tree only the files and directories at their places matter. -/
theorem Collected.of_sameShape {tree' : FileTree} (h : Collected tree exclude inputs path)
    (hdistinct : tree.root.Distinct) (hshape : tree.SameShape tree') :
    Collected tree' exclude inputs path := by
  obtain ⟨hmem, hfile, hsql⟩ | ⟨hmem, hnode, hreached, hsql⟩ := h
  · refine .input hmem ?_ hsql
    unfold FileTree.isFile at hfile
    split at hfile
    · next bytes hnode =>
      obtain ⟨node, hnode', halike⟩ := hshape.node? hnode
      obtain ⟨bytes', rfl⟩ := halike.eq_file
      rw [FileTree.isFile, hnode']
    · cases hfile
  · obtain ⟨node, hnode', halike⟩ := hshape.node? hnode
    obtain ⟨others, rfl⟩ := halike.eq_directory
    obtain ⟨location, -, hfind⟩ := FileTree.node?_eq_ok.mp hnode
    exact .below hmem hnode' (hreached.of_alike (hdistinct.find? hfind) halike) hsql

/-- Of the inputs only matters which they are. -/
theorem Collected.of_subset {inputs' : List Path} (h : Collected tree exclude inputs path)
    (hsub : inputs ⊆ inputs') : Collected tree exclude inputs' path := by
  obtain ⟨hmem, hfile, hsql⟩ | ⟨hmem, hnode, hreached, hsql⟩ := h
  · exact .input (hsub hmem) hfile hsql
  · exact .below (hsub hmem) hnode hreached hsql

/-! ## Putting paths in order -/

theorem exists_mem_insertPath (path : Path) (paths : List Path) :
    ∃ q ∈ insertPath path paths, q.Same path := by
  induction paths with
  | nil => exact ⟨path, List.mem_singleton.mpr rfl, rfl⟩
  | cons first rest ih =>
    unfold insertPath
    split
    · exact ⟨path, List.mem_cons_self, rfl⟩
    · next heq => exact ⟨first, List.mem_cons_self, (Path.order_eq_iff.mp heq).symm⟩
    · obtain ⟨q, hq, hsame⟩ := ih
      exact ⟨q, List.mem_cons_of_mem _ hq, hsame⟩

theorem mem_insertPath_of_mem {path other : Path} {paths : List Path} (h : other ∈ paths) :
    other ∈ insertPath path paths := by
  induction paths with
  | nil => cases h
  | cons first rest ih =>
    unfold insertPath
    split
    · exact List.mem_cons_of_mem _ h
    · exact h
    · obtain rfl | h := List.mem_cons.mp h
      · exact List.mem_cons_self
      · exact List.mem_cons_of_mem _ (ih h)

/-- Putting paths in order adds none, and drops one only for the same path. -/
theorem mem_foldl_insertPath (found sorted : List Path) :
    (∀ p ∈ found.foldl (fun found path => insertPath path found) sorted, p ∈ found ∨ p ∈ sorted) ∧
      ∀ p, p ∈ found ∨ p ∈ sorted →
        ∃ q ∈ found.foldl (fun found path => insertPath path found) sorted, q.Same p := by
  induction found generalizing sorted with
  | nil =>
    exact ⟨fun p hp => .inr hp, fun p hp => ⟨p, hp.resolve_left List.not_mem_nil, rfl⟩⟩
  | cons path found ih =>
    obtain ⟨hsound, hcomplete⟩ := ih (insertPath path sorted)
    constructor
    · intro p hp
      obtain hp | hp := hsound p hp
      · exact .inl (List.mem_cons_of_mem _ hp)
      · obtain rfl | hp := mem_insertPath hp
        · exact .inl List.mem_cons_self
        · exact .inr hp
    · rintro p (hp | hp)
      · obtain rfl | hp := List.mem_cons.mp hp
        · obtain ⟨q, hq, hsame⟩ := exists_mem_insertPath p sorted
          obtain ⟨r, hr, hsame'⟩ := hcomplete q (.inr hq)
          exact ⟨r, hr, hsame'.trans hsame⟩
        · exact hcomplete p (.inl hp)
      · exact hcomplete p (.inr (mem_insertPath_of_mem hp))

/-- Lists in order that hold the same paths are the same, but for the spelling of paths. -/
theorem map_components_eq {found others : List Path} (h : Sorted found) (h' : Sorted others)
    (hmem : ∀ components, (∃ p ∈ found, p.components = components) ↔
      ∃ p ∈ others, p.components = components) :
    found.map Path.components = others.map Path.components := by
  have hsorted : ∀ {paths : List Path}, Sorted paths → (paths.map Path.components).Pairwise
      fun a b => List.compareLex Path.Component.order a b = .lt := fun h =>
    List.pairwise_map.mpr (h.imp fun hlt => by rwa [← Path.orderComponents_eq])
  have hnodup : ∀ {paths : List Path}, Sorted paths → (paths.map Path.components).Nodup := by
    intro paths h
    refine (hsorted h).imp ?_
    rintro a _ hlt rfl
    exact Std.OrientedCmp.not_lt_of_lt hlt hlt
  refine List.Perm.eq_of_pairwise (fun a b _ _ hab hba => ?_) (hsorted h) (hsorted h')
    ((List.perm_ext_iff_of_nodup (hnodup h) (hnodup h')).mpr fun components => ?_)
  · exact (Std.OrientedCmp.not_lt_of_lt hab hba).elim
  · rw [List.mem_map, List.mem_map]
    exact hmem components

/-! ## The collected files -/

/-- The files that are returned are collected, in the spelling in which they were found. -/
theorem collected_of_mem (h : path ∈ paths tree exclude inputs) :
    Collected tree exclude inputs path :=
  mem_flatMap_fromInput.mp (((mem_foldl_insertPath _ []).1 path h).resolve_right List.not_mem_nil)

/-- Each collected file is returned. -/
theorem Collected.exists_mem (h : Collected tree exclude inputs path) :
    ∃ q ∈ paths tree exclude inputs, q.Same path :=
  (mem_foldl_insertPath _ []).2 path (.inl (mem_flatMap_fromInput.mpr h))

theorem paths_components_eq {tree' : FileTree} {inputs' : List Path}
    (h : ∀ path, Collected tree exclude inputs path ↔ Collected tree' exclude inputs' path) :
    (paths tree exclude inputs).map Path.components =
      (paths tree' exclude inputs').map Path.components := by
  refine map_components_eq (paths_sorted ..) (paths_sorted ..) fun components => ⟨?_, ?_⟩
  · rintro ⟨path, hmem, rfl⟩
    exact ((h path).mp (collected_of_mem hmem)).exists_mem
  · rintro ⟨path, hmem, rfl⟩
    exact ((h path).mpr (collected_of_mem hmem)).exists_mem

/-- The paths that are returned are in order, each once, and are those of the collected files. They
depend on which the inputs are, not on their order or on how often one is named, and on what stands
where in the tree, not on the order in which directories list their entries. -/
theorem paths_exact (tree : FileTree) (exclude : List String) (inputs : List Path) :
    Sorted (paths tree exclude inputs) ∧
      (∀ p ∈ paths tree exclude inputs, Collected tree exclude inputs p) ∧
      (∀ p, (∃ q ∈ paths tree exclude inputs, q.Same p) ↔
        ∃ q, q.Same p ∧ Collected tree exclude inputs q) ∧
      (∀ inputs' : List Path, (∀ p, p ∈ inputs ↔ p ∈ inputs') →
        (paths tree exclude inputs).map Path.components =
          (paths tree exclude inputs').map Path.components) ∧
      ∀ tree' : FileTree, tree.SameShape tree' → tree.root.Distinct → tree'.root.Distinct →
        (paths tree exclude inputs).map Path.components =
          (paths tree' exclude inputs).map Path.components := by
  refine ⟨paths_sorted tree exclude inputs, fun p => collected_of_mem, fun p => ⟨?_, ?_⟩, ?_, ?_⟩
  · rintro ⟨q, hmem, hsame⟩
    exact ⟨q, hsame, collected_of_mem hmem⟩
  · rintro ⟨q, hsame, hcollected⟩
    obtain ⟨r, hmem, hsame'⟩ := hcollected.exists_mem
    exact ⟨r, hmem, hsame'.trans hsame⟩
  · intro inputs' hinputs
    exact paths_components_eq fun path =>
      ⟨fun h => h.of_subset fun p => (hinputs p).mp, fun h => h.of_subset fun p => (hinputs p).mpr⟩
  · intro tree' hshape hdistinct hdistinct'
    exact paths_components_eq fun path =>
      ⟨fun h => h.of_sameShape hdistinct hshape, fun h => h.of_sameShape hdistinct' hshape.symm⟩

/-- A root with two SQL files in the order given, a hidden directory and an old file. -/
def listing (first second : String) : FileTree where
  root := .directory <| .cons first (.file []) <| .cons second (.file []) <|
    .cons ".cache" (.directory <| .cons "x.sql" (.file []) .nil) <|
    .cons "old" (.directory <| .cons "y.sql" (.file []) <| .cons "z.txt" (.file []) .nil) .nil
  home := []

/-- Two orders in which the root lists its entries, with a file that two inputs lead to and a directory
that is excluded but named. -/
theorem paths_exact_of_listing :
    (listing "b.SQL" "a.ddl").SameShape (listing "a.ddl" "b.SQL") ∧
      (paths (listing "b.SQL" "a.ddl") ["ol?"] [⟨"/b.SQL"⟩, ⟨"/"⟩, ⟨"old"⟩]).map Path.text =
        ["/a.ddl", "/b.SQL", "old/y.sql"] ∧
      (paths (listing "b.SQL" "a.ddl") ["ol?"] [⟨"/b.SQL"⟩, ⟨"/"⟩, ⟨"old"⟩]).map Path.components =
        (paths (listing "a.ddl" "b.SQL") ["ol?"] [⟨"/b.SQL"⟩, ⟨"/"⟩, ⟨"old"⟩]).map
          Path.components := by
  have hshape : (listing "b.SQL" "a.ddl").SameShape (listing "a.ddl" "b.SQL") :=
    ⟨rfl, Node.alike_of_find? (Entries.find?_swap (by decide) _ _ _)⟩
  have hdistinct : (listing "b.SQL" "a.ddl").root.Distinct := by
    simp [listing, Node.Distinct, Entries.Distinct, Entries.find?]
  have hdistinct' : (listing "a.ddl" "b.SQL").root.Distinct := by
    simp [listing, Node.Distinct, Entries.Distinct, Entries.find?]
  obtain ⟨-, -, -, -, hlisting⟩ :=
    paths_exact (listing "b.SQL" "a.ddl") ["ol?"] [⟨"/b.SQL"⟩, ⟨"/"⟩, ⟨"old"⟩]
  exact ⟨hshape, by decide +kernel, hlisting _ hshape hdistinct hdistinct'⟩

end Collect

end SqlFormat
