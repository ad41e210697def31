import Mathlib
import SqlFormat.Files.Tree

/-!
# Writing files of a tree

Two trees are seen as the same place by place: nothing stands there, or a directory, or a file with its
bytes. Writing a file that exists changes what is seen at its own location and nowhere else, and two
files at different locations can be written in any order.

What a path leads to depends on the directories only, so writing files does not change it.

Results: `Node.at?_set` (one write), `Node.set_comm` (two), `FileTree.locate_congr` (paths),
`FileTree.at?_applyAll` and `FileTree.applyAll_apply` (many writes).
-/

namespace SqlFormat

/-! ## Entries -/

namespace Entries

theorem find?_set (name other : String) (node : Node) :
    (entries : Entries) →
      (entries.set name node).find? other = if name = other then some node else entries.find? other
  | .nil => by
    simp only [set, find?]
  | .cons key old rest => by
    unfold set
    by_cases hkey : key = name
    · subst hkey
      by_cases hother : key = other
      · simp [find?, hother]
      · simp [find?, hother]
    · have ih := find?_set name other node rest
      by_cases hother : key = other
      · subst hother
        have hname : name ≠ key := fun h => hkey h.symm
        simp [find?, hkey, hname]
      · simp [find?, hkey, hother, ih]

/-- The later of two nodes put at a name stays. -/
theorem set_set (name : String) (first second : Node) :
    (entries : Entries) → (entries.set name first).set name second = entries.set name second
  | .nil => by simp [set]
  | .cons key old rest => by
    by_cases hkey : key = name
    · simp [set, hkey]
    · simp [set, hkey, set_set name first second rest]

/-- Entries with different names can be replaced in any order. -/
theorem set_comm {name other : String} (hne : name ≠ other) (first second : Node) :
    (entries : Entries) → (entries.find? name).isSome = true → (entries.find? other).isSome = true →
      (entries.set name first).set other second = (entries.set other second).set name first
  | .nil, h, _ => by simp [find?] at h
  | .cons key old rest, h, h' => by
    by_cases hkey : key = name
    · subst hkey
      simp [set, hne]
    · by_cases hother : key = other
      · subst hother
        simp [set, hkey]
      · simp only [find?, hkey, hother, if_false] at h h'
        simp [set, hkey, hother, set_comm hne first second rest h h']

end Entries

/-! ## Nodes -/

namespace Node

/-- The bytes of a file; a directory has none. -/
def bytes? : Node → Option (List UInt8)
  | file bytes => some bytes
  | directory _ => none

/-- What is seen at a location: nothing, or a directory without bytes, or a file with its bytes. -/
def at? (node : Node) (location : List String) : Option (Option (List UInt8)) :=
  (node.find? location).map bytes?

theorem find?_cons (node : Node) (name : String) (names : List String) :
    node.find? (name :: names) = (node.entries.find? name).bind (·.find? names) := by
  cases node <;> rfl

theorem find?_append (node : Node) (location : List String) (names : List String) :
    node.find? (location ++ names) = (node.find? location).bind (·.find? names) := by
  induction location generalizing node with
  | nil => cases node <;> rfl
  | cons name location ih =>
    rw [List.cons_append, find?_cons, find?_cons, Option.bind_assoc]
    exact congrArg _ (funext fun child => ih child)

theorem at?_nil (node : Node) : node.at? [] = some node.bytes? := by
  cases node <;> rfl

theorem at?_cons (node : Node) (name : String) (names : List String) :
    node.at? (name :: names) = (node.entries.find? name).bind (·.at? names) := by
  rw [at?, find?_cons, Option.map_bind]
  rfl

/-- On the way to something stands a directory with an entry for the next name. -/
theorem exists_of_at?_cons {node : Node} {name : String} {names : List String}
    {seen : Option (List UInt8)} (h : node.at? (name :: names) = some seen) :
    ∃ entries child, node = directory entries ∧ entries.find? name = some child ∧
      child.at? names = some seen := by
  rw [at?_cons] at h
  obtain ⟨child, hchild, hseen⟩ := Option.bind_eq_some_iff.mp h
  cases node with
  | file bytes => cases hchild
  | directory entries => exact ⟨entries, child, rfl, hchild, hseen⟩

theorem set_cons {entries : Entries} {name : String} {child : Node}
    (h : entries.find? name = some child) (new : Node) (names : List String) :
    (directory entries).set new (name :: names) =
      directory (entries.set name (child.set new names)) := by
  rw [set]
  simp only [Node.entries, h, Option.getD_some]

/-- A file that is written is seen with its new bytes, and nothing else is seen differently. -/
theorem at?_set {node : Node} {location : List String} {old : List UInt8}
    (h : node.at? location = some (some old)) (new : List UInt8) (other : List String) :
    (node.set (file new) location).at? other =
      if location = other then some (some new) else node.at? other := by
  induction location generalizing node other with
  | nil =>
    rw [at?_nil] at h
    cases node with
    | directory entries => cases h
    | file bytes => cases other <;> rfl
  | cons name names ih =>
    obtain ⟨entries, child, rfl, hchild, hold⟩ := exists_of_at?_cons h
    rw [set_cons hchild]
    cases other with
    | nil => rfl
    | cons name' names' =>
      rw [at?_cons, at?_cons]
      show ((entries.set name _).find? name').bind _ = if _ then _ else (entries.find? name').bind _
      rw [Entries.find?_set]
      by_cases hname : name = name'
      · subst hname
        rw [if_pos rfl, Option.bind_some, ih hold, hchild, Option.bind_some]
        simp only [List.cons.injEq, true_and]
      · rw [if_neg hname, if_neg (by simp [hname])]

/-- Files at different locations can be written in any order. -/
theorem set_comm {node : Node} {first second : List String} (hne : first ≠ second)
    {old old' : List UInt8} (h : node.at? first = some (some old))
    (h' : node.at? second = some (some old')) (new new' : List UInt8) :
    (node.set (file new) first).set (file new') second =
      (node.set (file new') second).set (file new) first := by
  induction first generalizing node second with
  | nil =>
    -- a file has nothing below it
    cases second with
    | nil => exact absurd rfl hne
    | cons name names =>
      obtain ⟨entries, child, rfl, -, -⟩ := exists_of_at?_cons h'
      cases h
  | cons name names ih =>
    obtain ⟨entries, child, rfl, hchild, hold⟩ := exists_of_at?_cons h
    cases second with
    | nil => cases h'
    | cons name' names' =>
      obtain ⟨entries', child', hsame, hchild', hold'⟩ := exists_of_at?_cons h'
      obtain rfl : entries = entries' := directory.inj hsame
      rw [set_cons hchild, set_cons hchild']
      by_cases hname : name = name'
      · subst hname
        obtain rfl : child = child' := Option.some.inj (hchild.symm.trans hchild')
        have hrest : names ≠ names' := fun habs => hne (by rw [habs])
        have hfirst : (entries.set name (child.set (file new) names)).find? name = _ :=
          (Entries.find?_set ..).trans (if_pos rfl)
        have hsecond : (entries.set name (child.set (file new') names')).find? name = _ :=
          (Entries.find?_set ..).trans (if_pos rfl)
        rw [set_cons hfirst, set_cons hsecond, Entries.set_set, Entries.set_set,
          ih hrest hold hold']
      · have hfirst : (entries.set name (child.set (file new) names)).find? name' = some child' := by
          rw [Entries.find?_set, if_neg hname, hchild']
        have hsecond : (entries.set name' (child'.set (file new') names')).find? name = some child := by
          rw [Entries.find?_set, if_neg (Ne.symm hname), hchild]
        rw [set_cons hfirst, set_cons hsecond,
          Entries.set_comm hname _ _ _ (by rw [hchild]; rfl) (by rw [hchild']; rfl)]

end Node

/-! ## Trees and paths -/

namespace FileTree

/-- What is seen at a location. -/
def at? (tree : FileTree) (location : List String) : Option (Option (List UInt8)) :=
  tree.root.at? location

/-- The trees have their files and directories at the same places. -/
structure SameShape (a b : FileTree) : Prop where
  home : a.home = b.home
  shape : ∀ location, (a.at? location).map Option.isSome = (b.at? location).map Option.isSome

theorem SameShape.refl (tree : FileTree) : tree.SameShape tree :=
  ⟨rfl, fun _ => rfl⟩

theorem SameShape.trans {a b c : FileTree} (h : a.SameShape b) (h' : b.SameShape c) :
    a.SameShape c :=
  ⟨h.home.trans h'.home, fun location => (h.shape location).trans (h'.shape location)⟩

/-- The tree with other bytes in a file. -/
def put (tree : FileTree) (location : List String) (bytes : List UInt8) : FileTree :=
  { tree with root := tree.root.set (.file bytes) location }

theorem at?_put {tree : FileTree} {location : List String} {old : List UInt8}
    (h : tree.at? location = some (some old)) (new : List UInt8) (other : List String) :
    (tree.put location new).at? other =
      if location = other then some (some new) else tree.at? other :=
  Node.at?_set h new other

theorem put_comm {tree : FileTree} {first second : List String} (hne : first ≠ second)
    {old old' : List UInt8} (h : tree.at? first = some (some old))
    (h' : tree.at? second = some (some old')) (new new' : List UInt8) :
    (tree.put first new).put second new' = (tree.put second new').put first new :=
  congrArg (fun root => { tree with root := root }) (Node.set_comm hne h h' new new')

/-- Other bytes in a file leave everything at its place. -/
theorem sameShape_put {tree : FileTree} {location : List String} {old : List UInt8}
    (h : tree.at? location = some (some old)) (new : List UInt8) :
    (tree.put location new).SameShape tree where
  home := rfl
  shape other := by
    rw [at?_put h]
    split
    · next heq => rw [← heq, h]; rfl
    · rfl

section Paths

variable {a b : FileTree} (hshape : a.SameShape b)
include hshape

/-- One piece of a path leads to the same location. -/
theorem walkStep_congr (location : List String) (segment : String) :
    walkStep a.root location segment = walkStep b.root location segment := by
  have hhere := hshape.shape location
  have hthere := hshape.shape (location ++ [segment])
  simp only [at?, Node.at?, Node.find?_append, Option.map_map] at hhere hthere
  unfold walkStep
  cases ha : a.root.find? location with
  | none =>
    cases hb : b.root.find? location with
    | none => rfl
    | some node => rw [ha, hb] at hhere; cases hhere
  | some node =>
    cases hb : b.root.find? location with
    | none => rw [ha, hb] at hhere; cases hhere
    | some node' =>
      rw [ha, hb] at hhere hthere
      cases node with
      | file bytes =>
        cases node' with
        | file bytes' => rfl
        | directory entries => cases hhere
      | directory entries =>
        cases node' with
        | file bytes' => cases hhere
        | directory entries' =>
          have hentry : (entries.find? segment).isSome = (entries'.find? segment).isSome := by
            have := congrArg Option.isSome hthere
            simpa [Node.find?] using this
          -- only a name is looked up
          dsimp only
          split
          · rfl
          · rfl
          · rfl
          · simp [hentry]

/-- A path leads to the same location. -/
theorem locate_congr (path : Path) : a.locate path = b.locate path := by
  unfold locate
  rw [hshape.home]
  split
  · rfl
  · congr 1
    exact funext fun location => funext fun segment => walkStep_congr hshape location segment

end Paths

/-- What can be read at a path is what is seen at its location. -/
theorem read_congr {a b : FileTree} (hshape : a.SameShape b) {path : Path}
    (hseen : ∀ location, a.locate path = .ok location → a.at? location = b.at? location) :
    a.read path = b.read path := by
  unfold read bytes node?
  rw [← locate_congr hshape]
  cases hlocate : a.locate path with
  | error fault => rfl
  | ok location =>
    have hseen := hseen location hlocate
    simp only [at?, Node.at?] at hseen
    simp only [bind, Except.bind]
    cases ha : a.root.find? location with
    | none =>
      cases hb : b.root.find? location with
      | none => rfl
      | some node => rw [ha, hb] at hseen; cases hseen
    | some node =>
      cases hb : b.root.find? location with
      | none => rw [ha, hb] at hseen; cases hseen
      | some node' =>
        rw [ha, hb] at hseen
        cases node with
        | file bytes =>
          cases node' with
          | file bytes' =>
            obtain rfl : bytes = bytes' := by simpa [Node.bytes?] using hseen
            rfl
          | directory entries => cases hseen
        | directory entries =>
          cases node' with
          | file bytes' => cases hseen
          | directory entries' => rfl

/-- What has been read is a file, and its bytes spell the text. -/
theorem exists_of_read {tree : FileTree} {path : Path} {text : String}
    (h : tree.read path = .ok text) :
    ∃ location bytes, tree.locate path = .ok location ∧ tree.at? location = some (some bytes) ∧
      Text.decode? bytes = some text := by
  unfold read FileTree.bytes node? at h
  cases hlocate : tree.locate path with
  | error fault => rw [hlocate] at h; cases h
  | ok location =>
    rw [hlocate] at h
    simp only [bind, Except.bind] at h
    cases hfind : tree.root.find? location with
    | none => rw [hfind] at h; cases h
    | some node =>
      rw [hfind] at h
      cases node with
      | directory entries => cases h
      | file bytes =>
        simp only at h
        refine ⟨location, bytes, rfl, by rw [at?, Node.at?, hfind]; rfl, ?_⟩
        cases hdecode : Text.decode? bytes with
        | none => rw [hdecode] at h; cases h
        | some text' => rw [hdecode] at h; rw [Except.ok.inj h]

/-! ## Changes -/

/-- The tree after a change: nothing, or a location with new bytes. -/
def apply (tree : FileTree) : Option (List String × List UInt8) → FileTree
  | none => tree
  | some (location, bytes) => tree.put location bytes

/-- What is changed is a file of the tree. -/
def Fits (tree : FileTree) (change : Option (List String × List UInt8)) : Prop :=
  ∀ location bytes, change = some (location, bytes) → ∃ old, tree.at? location = some (some old)

theorem sameShape_apply {tree : FileTree} {change : Option (List String × List UInt8)}
    (h : tree.Fits change) : (tree.apply change).SameShape tree := by
  cases change with
  | none => exact .refl tree
  | some change =>
    obtain ⟨old, hold⟩ := h change.1 change.2 rfl
    exact sameShape_put hold change.2

theorem Fits.of_sameShape {a b : FileTree} (hshape : a.SameShape b)
    {change : Option (List String × List UInt8)} (h : b.Fits change) : a.Fits change := by
  intro location bytes hchange
  obtain ⟨old, hold⟩ := h location bytes hchange
  have hthere := hshape.shape location
  rw [hold] at hthere
  cases hseen : a.at? location with
  | none => rw [hseen] at hthere; cases hthere
  | some seen =>
    cases seen with
    | none => rw [hseen] at hthere; cases hthere
    | some bytes => exact ⟨bytes, rfl⟩

theorem apply_comm {tree : FileTree} {a b : Option (List String × List UInt8)}
    (ha : tree.Fits a) (hb : tree.Fits b)
    (hne : ∀ location bytes bytes', a = some (location, bytes) → b ≠ some (location, bytes')) :
    (tree.apply a).apply b = (tree.apply b).apply a := by
  cases a with
  | none => rfl
  | some first =>
    cases b with
    | none => rfl
    | some second =>
      obtain ⟨old, hold⟩ := ha first.1 first.2 rfl
      obtain ⟨old', hold'⟩ := hb second.1 second.2 rfl
      have hapart : first.1 ≠ second.1 := fun habs =>
        hne first.1 first.2 second.2 rfl (by rw [habs])
      exact put_comm hapart hold hold' first.2 second.2

section Changes

variable {tree : FileTree} {changes : List (Option (List String × List UInt8))}

theorem sameShape_applyAll (h : ∀ change ∈ changes, tree.Fits change) :
    (changes.foldl apply tree).SameShape tree := by
  induction changes generalizing tree with
  | nil => exact .refl tree
  | cons change changes ih =>
    have hshape : (tree.apply change).SameShape tree := sameShape_apply (h _ List.mem_cons_self)
    refine (ih fun other hother => ?_).trans hshape
    exact (h other (List.mem_cons_of_mem _ hother)).of_sameShape hshape

/-- A change can be put off until after changes of other files. -/
theorem applyAll_apply {change : Option (List String × List UInt8)} (hfits : tree.Fits change)
    (h : ∀ other ∈ changes, tree.Fits other ∧
      ∀ location bytes bytes', change = some (location, bytes) → other ≠ some (location, bytes')) :
    changes.foldl apply (tree.apply change) = (changes.foldl apply tree).apply change := by
  induction changes generalizing tree with
  | nil => rfl
  | cons other changes ih =>
    obtain ⟨hother, hne⟩ := h other List.mem_cons_self
    have hshape := sameShape_apply hother
    rw [List.foldl_cons, List.foldl_cons, apply_comm hfits hother hne]
    refine ih (hfits.of_sameShape hshape) fun another hanother => ?_
    obtain ⟨hanother, hne⟩ := h another (List.mem_cons_of_mem _ hanother)
    exact ⟨hanother.of_sameShape hshape, hne⟩

/-- What is seen after changes is one of them or has been there before. -/
theorem at?_applyAll (h : ∀ change ∈ changes, tree.Fits change) (location : List String) :
    (∃ bytes, some (location, bytes) ∈ changes ∧
      (changes.foldl apply tree).at? location = some (some bytes)) ∨
    ((∀ bytes, some (location, bytes) ∉ changes) ∧
      (changes.foldl apply tree).at? location = tree.at? location) := by
  induction changes generalizing tree with
  | nil => exact .inr ⟨fun _ => List.not_mem_nil, rfl⟩
  | cons change changes ih =>
    have hfits := h _ List.mem_cons_self
    have hrest : ∀ other ∈ changes, (tree.apply change).Fits other := fun other hother =>
      (h other (List.mem_cons_of_mem _ hother)).of_sameShape (sameShape_apply hfits)
    rw [List.foldl_cons]
    obtain ⟨bytes, hmem, hseen⟩ | ⟨hnone, hseen⟩ := ih hrest
    · exact .inl ⟨bytes, List.mem_cons_of_mem _ hmem, hseen⟩
    · -- nothing later is written here, so the first change counts
      rw [hseen]
      cases change with
      | none => exact .inr ⟨fun bytes hmem => hnone bytes (List.mem_of_ne_of_mem (by simp) hmem), rfl⟩
      | some change =>
        obtain ⟨old, hold⟩ := hfits change.1 change.2 rfl
        have hput := at?_put hold change.2 location
        by_cases heq : change.1 = location
        · refine .inl ⟨change.2, by rw [← heq]; exact List.mem_cons_self, ?_⟩
          exact hput.trans (if_pos heq)
        · refine .inr ⟨fun bytes hmem => ?_, hput.trans (if_neg heq)⟩
          obtain habs | hmem := List.mem_cons.mp hmem
          · exact heq (by rw [← Option.some.inj habs])
          · exact hnone bytes hmem

end Changes

end FileTree

end SqlFormat
