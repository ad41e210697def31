import Mathlib
import SqlFormat.Config.Load

/-!
# The search for the project file

The directories above the inputs are collected input by input, each of them once. For inputs that stand
in one directory these are the directories that contain all of them, nearest first, and the project
file is the nearest one. As soon as two inputs stand in different directories, directories are searched
that do not contain both.

Results: `Config.search_of_one_directory`, `Config.above_iff_one_directory`,
`Config.projectFile?_eq_findSome?`.
-/

namespace SqlFormat

namespace Path

/-! ## The way up -/

theorem mem_ancestors {components above : List Component} :
    above ∈ ancestors components ↔
      above <+: components ∧ (components.head? = some .root → above ≠ []) := by
  unfold ancestors
  simp only [List.mem_map, List.mem_range]
  constructor
  · rintro ⟨n, hn, rfl⟩
    refine ⟨List.take_prefix _ _, fun hroot => ?_⟩
    rw [if_pos hroot] at hn
    rw [Ne, List.take_eq_nil_iff]
    rintro (h | rfl)
    · omega
    · cases hroot
  · rintro ⟨hpre, hroot⟩
    have hlength := hpre.length_le
    refine ⟨components.length - above.length, ?_, ?_⟩
    · split
      · next h =>
        have := List.length_pos_iff.mpr (hroot h)
        omega
      · omega
    · rw [Nat.sub_sub_self hlength]
      exact (List.prefix_iff_eq_take.mp hpre).symm

theorem self_mem_ancestors (components : List Component) : components ∈ ancestors components := by
  refine mem_ancestors.mpr ⟨List.prefix_rfl, fun hroot hnil => ?_⟩
  rw [hnil] at hroot
  cases hroot

/-- The way up goes from the most specific directory to the least specific one. -/
theorem ancestors_pairwise (components : List Component) :
    (ancestors components).Pairwise fun near far => far <+: near ∧ far ≠ near := by
  unfold ancestors
  refine List.pairwise_map.mpr (List.pairwise_lt_range.imp_of_mem fun {m n} hm hn hlt => ?_)
  have hbound : n ≤ components.length := by
    have := List.mem_range.mp hn
    omega
  refine ⟨List.take_prefix_take_left (by omega), fun heq => ?_⟩
  have := congrArg List.length heq
  rw [List.length_take, List.length_take] at this
  omega

/-! ## Where a path leads by its text -/

/-- The location that is reached from a directory by going along components. -/
def location (home : List String) (components : List Component) : List String :=
  components.foldl
    (fun location component =>
      match component with
      | .root => []
      | .current => location
      | .parent => location.dropLast
      | .normal name => location ++ [name])
    home

theorem location_append (home : List String) (a b : List Component) :
    location home (a ++ b) = location (location home a) b :=
  List.foldl_append

/-- Without a step up or back to the root the way leads further down. -/
theorem prefix_location {components : List Component} (hparent : .parent ∉ components)
    (hroot : .root ∉ components) (home : List String) : home <+: location home components := by
  induction components generalizing home with
  | nil => exact List.prefix_rfl
  | cons component components ih =>
    have ih := ih (fun h => hparent (List.mem_cons_of_mem _ h))
      (fun h => hroot (List.mem_cons_of_mem _ h))
    cases component with
    | root => exact absurd List.mem_cons_self hroot
    | current => exact ih home
    | parent => exact absurd List.mem_cons_self hparent
    | normal name => exact (List.prefix_append home [name]).trans (ih _)

theorem location_prefix {above components : List Component} (h : above <+: components)
    (hparent : .parent ∉ components) (hroot : .root ∉ components.tail)
    (hstart : components.head? = some .root → above ≠ []) (home : List String) :
    location home above <+: location home components := by
  obtain ⟨below, rfl⟩ := h
  rw [location_append]
  refine prefix_location (fun h => hparent (List.mem_append_right _ h)) (fun h => ?_) _
  cases above with
  | nil =>
    cases below with
    | nil => cases h
    | cons first below =>
      obtain rfl | h := List.mem_cons.mp h
      · exact hstart rfl rfl
      · exact hroot h
  | cons first above => exact hroot (List.mem_append_right _ h)

theorem component?_ne_root (s : String) : component? s ≠ some .root := by
  unfold component?
  split <;> simp

theorem root_notMem_tail (path : Path) : .root ∉ path.components.tail := by
  have hrest : .root ∉ path.segments.filterMap component? := by
    intro h
    obtain ⟨s, -, hs⟩ := List.mem_filterMap.mp h
    exact component?_ne_root s hs
  unfold components
  split
  · exact hrest
  · split
    · exact hrest
    · exact fun h => hrest (List.mem_of_mem_tail h)

/-- One piece of a path leads where its component leads. -/
theorem location_segment (home : List String) (segment : String) (segments : List String) :
    location home ((segment :: segments).filterMap component?) =
      location
        (match segment with
          | "" | "." => home
          | ".." => home.dropLast
          | name => home ++ [name])
        (segments.filterMap component?) := by
  rw [List.filterMap_cons]
  by_cases hblank : segment = "" ∨ segment = "."
  · obtain rfl | rfl := hblank <;> rfl
  · by_cases hup : segment = ".."
    · subst hup
      rfl
    · have hcomponent : component? segment = some (.normal segment) := by
        unfold component?
        split <;> simp_all
      simp only [hcomponent]
      split
      · exact absurd (.inl rfl) hblank
      · exact absurd (.inr rfl) hblank
      · exact absurd rfl hup
      · rfl

/-- The components of a path lead to where the path leads by its text. -/
theorem nominal_eq_location (tree : FileTree) (path : Path) :
    tree.nominal path = location tree.home path.components := by
  have hsegments : ∀ (segments : List String) (home : List String),
      segments.foldl
        (fun location segment =>
          match segment with
          | "" | "." => location
          | ".." => location.dropLast
          | name => location ++ [name]) home =
        location home (segments.filterMap component?) := by
    intro segments
    induction segments with
    | nil => exact fun _ => rfl
    | cons segment segments ih =>
      intro home
      rw [List.foldl_cons, ih, location_segment]
  unfold FileTree.nominal components
  dsimp only
  rw [location_append]
  refine (hsegments _ _).trans ?_
  split
  · rfl
  · split <;> rfl

end Path

namespace Config

/-! ## Each directory once -/

/-- Add a directory to those found, unless it is among them. -/
abbrev addNew (found : List (List Path.Component)) (directory : List Path.Component) :
    List (List Path.Component) :=
  if found.contains directory then found else found ++ [directory]

theorem mem_addNew {found : List (List Path.Component)} {directory other : List Path.Component} :
    other ∈ addNew found directory ↔ other ∈ found ∨ other = directory := by
  unfold addNew
  split
  · next h =>
    have h := List.contains_iff_mem.mp h
    exact ⟨.inl, fun h' => h'.elim id fun heq => heq ▸ h⟩
  · rw [List.mem_append, List.mem_singleton]

theorem mem_foldl_addNew {directories found : List (List Path.Component)}
    {other : List Path.Component} :
    other ∈ directories.foldl addNew found ↔ other ∈ found ∨ other ∈ directories := by
  induction directories generalizing found with
  | nil => exact ⟨.inl, fun h => h.elim id fun h => absurd h List.not_mem_nil⟩
  | cons directory directories ih =>
    rw [List.foldl_cons, ih, mem_addNew, List.mem_cons, or_assoc]

theorem foldl_addNew_of_mem {directories found : List (List Path.Component)}
    (h : ∀ directory ∈ directories, directory ∈ found) : directories.foldl addNew found = found := by
  induction directories with
  | nil => rfl
  | cons directory directories ih =>
    rw [List.foldl_cons, addNew, if_pos (List.contains_iff_mem.mpr (h _ List.mem_cons_self))]
    exact ih fun other hother => h other (List.mem_cons_of_mem _ hother)

theorem foldl_addNew_of_nodup {directories found : List (List Path.Component)}
    (h : (found ++ directories).Nodup) : directories.foldl addNew found = found ++ directories := by
  induction directories generalizing found with
  | nil => exact (List.append_nil _).symm
  | cons directory directories ih =>
    rw [List.append_cons] at h
    have hnew : ¬found.contains directory = true := by
      rw [List.contains_iff_mem]
      intro hmem
      have hdisjoint := (List.nodup_append.mp (List.nodup_append.mp h).1).2.2
      exact hdisjoint directory hmem directory List.mem_cons_self rfl
    rw [List.foldl_cons, addNew, if_neg hnew, ih h, List.append_assoc, List.singleton_append]

theorem findSome?_foldl_addNew (f : List Path.Component → Option Path)
    (directories found : List (List Path.Component)) :
    (directories.foldl addNew found).findSome? f = (found ++ directories).findSome? f := by
  induction directories generalizing found with
  | nil => rw [List.foldl_nil, List.append_nil]
  | cons directory directories ih =>
    rw [List.foldl_cons, ih, addNew]
    split
    · next h =>
      -- what stands a second time finds nothing that it has not found before
      rw [List.findSome?_append, List.findSome?_append, List.findSome?_cons]
      cases hfound : found.findSome? f with
      | some file => rfl
      | none =>
        rw [List.findSome?_eq_none_iff.mp hfound _ (List.contains_iff_mem.mp h)]
    · rw [List.append_assoc, List.singleton_append]

/-! ## What is searched -/

variable {tree : FileTree} {inputs : List Path}

theorem mem_searchDirectories {directory : List Path.Component} :
    directory ∈ searchDirectories tree inputs ↔
      ∃ input ∈ inputs, directory ∈ Path.ancestors (directoryOf tree input) := by
  unfold searchDirectories
  rw [mem_foldl_addNew, List.mem_flatMap]
  exact or_iff_right List.not_mem_nil

/-- Every directory that is searched is above the directories of all inputs just if the inputs stand in
one directory: the directory of each input is searched. -/
theorem above_iff_one_directory :
    (∀ directory ∈ searchDirectories tree inputs, ∀ input ∈ inputs,
        directory <+: directoryOf tree input) ↔
      ∀ a ∈ inputs, ∀ b ∈ inputs, directoryOf tree a = directoryOf tree b := by
  constructor
  · intro h a ha b hb
    have hown : ∀ input ∈ inputs, directoryOf tree input ∈ searchDirectories tree inputs :=
      fun input hinput => mem_searchDirectories.mpr ⟨input, hinput, Path.self_mem_ancestors _⟩
    have hab := h _ (hown a ha) b hb
    exact hab.eq_of_length_le (h _ (hown b hb) a ha).length_le
  · intro h directory hdirectory input hinput
    obtain ⟨other, hother, habove⟩ := mem_searchDirectories.mp hdirectory
    rw [h input hinput other hother]
    exact (Path.mem_ancestors.mp habove).1

theorem searchDirectories_eq {directory : List Path.Component} (hinputs : inputs ≠ [])
    (h : ∀ input ∈ inputs, directoryOf tree input = directory) :
    searchDirectories tree inputs = Path.ancestors directory := by
  obtain ⟨first, rest, rfl⟩ := List.exists_cons_of_ne_nil hinputs
  have hnodup : (Path.ancestors directory).Nodup :=
    (Path.ancestors_pairwise directory).imp fun h => h.2.symm
  unfold searchDirectories
  rw [List.flatMap_cons, List.foldl_append, h first List.mem_cons_self,
    show (Path.ancestors directory).foldl addNew [] = Path.ancestors directory from
      foldl_addNew_of_nodup hnodup]
  refine foldl_addNew_of_mem fun other hother => ?_
  obtain ⟨input, hinput, hother⟩ := List.mem_flatMap.mp hother
  rwa [h input (List.mem_cons_of_mem _ hinput)] at hother

/-! ## What is found -/

/-- The paths at which a project file of a directory may stand, in the order in which they are
tried. -/
def candidates (directory : List Path.Component) : List Path :=
  projectFiles.map (Path.ofComponents directory).join

theorem findSome?_flatMap {α β γ : Type} (f : β → Option γ) (g : α → List β) (xs : List α) :
    (xs.flatMap g).findSome? f = xs.findSome? fun x => (g x).findSome? f := by
  induction xs with
  | nil => rfl
  | cons x xs ih =>
    rw [List.flatMap_cons, List.findSome?_append, ih, List.findSome?_cons]
    cases (g x).findSome? f <;> rfl

/-- The project file is the one that the first input with a project file above it leads to. -/
theorem projectFile?_eq_findSome? :
    projectFile? tree inputs = inputs.findSome? fun input =>
      (Path.ancestors (directoryOf tree input)).findSome? fun directory =>
        (candidates directory).find? tree.isFile := by
  unfold projectFile? searchDirectories
  rw [findSome?_foldl_addNew, List.nil_append]
  exact findSome?_flatMap _ _ _

/-- The search looks in the directories that contain all inputs, nearest first, and takes the nearest
project file. -/
structure SearchesCommon (tree : FileTree) (inputs : List Path) : Prop where
  above : ∀ directory ∈ searchDirectories tree inputs, ∀ input ∈ inputs,
    directory <+: directoryOf tree input
  holds : ∀ directory ∈ searchDirectories tree inputs, ∀ input ∈ inputs,
    input.components ≠ [.root] → Path.location tree.home directory <+: tree.nominal input
  ordered : (searchDirectories tree inputs).Pairwise fun near far => far <+: near ∧ far ≠ near
  nearest : ∀ file, projectFile? tree inputs = some file →
    ∃ directory ∈ searchDirectories tree inputs,
      file ∈ candidates directory ∧ tree.isFile file = true ∧
      ∀ near, (∀ input ∈ inputs, near <+: directoryOf tree input) →
        directory <+: near → near ≠ directory →
        ∀ candidate ∈ candidates near, tree.isFile candidate = false
  missing : projectFile? tree inputs = none →
    ∀ directory ∈ searchDirectories tree inputs, ∀ candidate ∈ candidates directory,
      tree.isFile candidate = false

theorem find?_candidates_eq_none {directory : List Path.Component}
    (h : (candidates directory).find? tree.isFile = none) :
    ∀ candidate ∈ candidates directory, tree.isFile candidate = false := by
  intro candidate hcandidate
  simpa using List.find?_eq_none.mp h candidate hcandidate

theorem nearest_of_pairwise {directories : List (List Path.Component)} {file : Path}
    (hordered : directories.Pairwise fun near far => far <+: near ∧ far ≠ near)
    (h : (directories.findSome? fun directory => (candidates directory).find? tree.isFile) =
      some file) :
    ∃ directory ∈ directories, file ∈ candidates directory ∧ tree.isFile file = true ∧
      ∀ near ∈ directories, directory <+: near → near ≠ directory →
        ∀ candidate ∈ candidates near, tree.isFile candidate = false := by
  obtain ⟨before, directory, after, rfl, hfound, hbefore⟩ := List.findSome?_eq_some_iff.mp h
  refine ⟨directory, List.mem_append_right _ List.mem_cons_self, List.mem_of_find?_eq_some hfound,
    List.find?_some hfound, fun near hnear hpre hne => ?_⟩
  obtain hnear | hnear := List.mem_append.mp hnear
  · exact find?_candidates_eq_none (hbefore near hnear)
  · obtain rfl | hnear := List.mem_cons.mp hnear
    · exact absurd rfl hne
    · obtain ⟨hfar, -⟩ := (List.pairwise_cons.mp (List.pairwise_append.mp hordered).2.1).1 near hnear
      exact absurd (hfar.eq_of_length_le hpre.length_le) hne

/-- The directory of an input contains the input. The root, which no directory contains, is its own
directory. -/
theorem location_directoryOf {input : Path} (hdown : .parent ∉ input.components)
    (hroot : input.components ≠ [.root]) :
    Path.location tree.home (directoryOf tree input) <+: tree.nominal input := by
  rw [Path.nominal_eq_location]
  unfold directoryOf
  split
  · exact List.prefix_rfl
  · dsimp only
    split
    · next hparent =>
      -- the input is a name alone, which stands in the directory that relative paths start from
      have hlast : input.components.dropLast = [] := List.isEmpty_iff.mp hparent
      refine Path.prefix_location hdown (fun hmem => hroot ?_) tree.home
      have hsingle := List.dropLast_append_getLast (List.ne_nil_of_mem hmem)
      rw [hlast, List.nil_append] at hsingle
      rw [← hsingle, List.mem_singleton] at hmem
      rw [← hsingle, ← hmem]
    · next hparent =>
      exact Path.location_prefix (List.dropLast_prefix _) hdown (Path.root_notMem_tail input)
        (fun _ hnil => hparent (List.isEmpty_iff.mpr hnil)) _

theorem parent_notMem_directoryOf {input : Path} (hdown : .parent ∉ input.components) :
    .parent ∉ directoryOf tree input := by
  unfold directoryOf
  split
  · exact hdown
  · dsimp only
    split
    · simp
    · exact fun h => hdown (List.mem_of_mem_dropLast h)

theorem root_notMem_tail_directoryOf (tree : FileTree) (input : Path) :
    .root ∉ (directoryOf tree input).tail := by
  unfold directoryOf
  split
  · exact Path.root_notMem_tail input
  · dsimp only
    split
    · exact List.not_mem_nil
    · rw [List.tail_dropLast]
      exact fun h => Path.root_notMem_tail input (List.mem_of_mem_dropLast h)

/-- For inputs that stand in one directory, and whose paths have no step up, the project file comes
from the nearest directory that contains all of them. -/
theorem search_of_one_directory (tree : FileTree) (inputs : List Path)
    (hone : ∀ a ∈ inputs, ∀ b ∈ inputs, directoryOf tree a = directoryOf tree b)
    (hdown : ∀ input ∈ inputs, .parent ∉ input.components) : SearchesCommon tree inputs := by
  have habove := above_iff_one_directory.mpr hone
  have hordered : (searchDirectories tree inputs).Pairwise
      fun near far => far <+: near ∧ far ≠ near := by
    cases inputs with
    | nil => exact .nil
    | cons first rest =>
      rw [searchDirectories_eq (List.cons_ne_nil _ _) fun input hinput =>
        hone input hinput first List.mem_cons_self]
      exact Path.ancestors_pairwise _
  refine ⟨habove, fun directory hdirectory input hinput hroot => ?_, hordered,
    fun file hfile => ?_, fun hnone directory hdirectory => ?_⟩
  · obtain ⟨other, hother, hmem⟩ := mem_searchDirectories.mp hdirectory
    rw [hone other hother input hinput] at hmem
    obtain ⟨hpre, hstart⟩ := Path.mem_ancestors.mp hmem
    have hlocation := Path.location_prefix hpre (parent_notMem_directoryOf (hdown input hinput))
      (root_notMem_tail_directoryOf tree input) hstart tree.home
    exact hlocation.trans (location_directoryOf (hdown input hinput) hroot)
  · obtain ⟨directory, hdirectory, hcandidate, hisFile, hnear⟩ := nearest_of_pairwise hordered hfile
    refine ⟨directory, hdirectory, hcandidate, hisFile, fun near hcommon hpre hne => ?_⟩
    obtain ⟨input, hinput, hmem⟩ := mem_searchDirectories.mp hdirectory
    refine hnear near (mem_searchDirectories.mpr ⟨input, hinput, Path.mem_ancestors.mpr
      ⟨hcommon input hinput, fun _ hnil => hne ?_⟩⟩) hpre hne
    rw [hnil] at hpre
    rw [hnil, List.prefix_nil.mp hpre]
  · exact find?_candidates_eq_none (List.findSome?_eq_none_iff.mp hnone directory hdirectory)

/-- Two files of one directory, with a project file above it and one higher up. -/
def siblings : FileTree where
  root := .directory <|
    .cons "sqlpretty.toml" (.file []) <|
    .cons "a" (.directory <|
      .cons "pyproject.toml" (.file []) <|
      .cons "b" (.directory <| .cons "x.sql" (.file []) <| .cons "y.sql" (.file []) .nil) .nil) .nil
  home := []

theorem search_of_siblings :
    SearchesCommon siblings [⟨"a/b/x.sql"⟩, ⟨"a/b/y.sql"⟩] ∧
      projectFile? siblings [⟨"a/b/x.sql"⟩, ⟨"a/b/y.sql"⟩] = some ⟨"a/pyproject.toml"⟩ :=
  ⟨search_of_one_directory siblings [⟨"a/b/x.sql"⟩, ⟨"a/b/y.sql"⟩] (by decide)
    (by decide), by decide⟩

/-- Two files of different directories, and a project file in the directory of the first. -/
def strangers : FileTree where
  root := .directory <|
    .cons "a" (.directory <|
      .cons "sqlpretty.toml" (.file []) <| .cons "x.sql" (.file []) .nil) <|
    .cons "b" (.directory <| .cons "y.sql" (.file []) .nil) .nil
  home := []

/-- The project file of one directory is taken for an input of another. -/
theorem projectFile?_of_strangers :
    projectFile? strangers [⟨"a/x.sql"⟩, ⟨"b/y.sql"⟩] = some ⟨"a/sqlpretty.toml"⟩ ∧
      ¬∀ directory ∈ searchDirectories strangers [⟨"a/x.sql"⟩, ⟨"b/y.sql"⟩],
        ∀ input ∈ [(⟨"a/x.sql"⟩ : Path), ⟨"b/y.sql"⟩], directory <+: directoryOf strangers input := by
  decide

end Config

end SqlFormat
