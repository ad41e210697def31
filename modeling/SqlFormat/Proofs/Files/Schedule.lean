import Mathlib
import SqlFormat.Proofs.Files.Tree
import SqlFormat.Run

/-!
# The order of work on files

Files can be worked on at the same time: each is read and formatted in one step and written in another,
and steps of different files come in any order. If the paths lead to different files and the formatter
does not crash, no step depends on what has been done with another file.

Results: `Work.Sound.step` (what every schedule keeps), `Work.Sound.completes` (no schedule gets
stuck), `exists_files` (the run that takes one file after the other is one of the schedules).
-/

namespace SqlFormat

/-- The paths do not lead to the same file. -/
def FileTree.Apart (tree : FileTree) (a b : Path) : Prop :=
  ∀ location, tree.locate a = .ok location → tree.locate b ≠ .ok location

instance (tree : FileTree) : Std.Symm tree.Apart :=
  ⟨fun _ _ hab location hb ha => hab location ha hb⟩

namespace Run

/-! ## Schedules -/

/-- How far the work on a file has come. -/
inductive Stage where
  | waiting
  | formatted (outcome : FileOutcome)
  | finished (result : FileResult)

/-- The result of a file, once it has one. -/
def Stage.result? : Stage → Option FileResult
  | finished result => some result
  | _ => none

/-- The files by now, and how far the work on each path has come. -/
structure Work where
  tree : FileTree
  jobs : List (Path × Stage)

namespace Work

/-- No file has been worked on. -/
def start (tree : FileTree) (paths : List Path) : Work :=
  ⟨tree, paths.map fun path => (path, .waiting)⟩

/-- The results in the order of the paths, once all are there. -/
def results? (work : Work) : Option (List FileResult) :=
  work.jobs.mapM fun job => job.2.result?

/-- One step of the work on one of the files. -/
inductive Step (settings : Settings) : Work → Work → Prop where
  | format {tree : FileTree} {path : Path} {outcome : FileOutcome} (before after : List (Path × Stage)) :
      formatFile tree settings path = some outcome →
      Step settings ⟨tree, before ++ (path, .waiting) :: after⟩
        ⟨tree, before ++ (path, .formatted outcome) :: after⟩
  | store {tree : FileTree} {path : Path} {outcome : FileOutcome} (before after : List (Path × Stage)) :
      Step settings ⟨tree, before ++ (path, .formatted outcome) :: after⟩
        ⟨(Run.store tree path outcome).1,
          before ++ (path, .finished (Run.store tree path outcome).2) :: after⟩

/-- Steps in any order. -/
abbrev Schedule (settings : Settings) : Work → Work → Prop :=
  Relation.ReflTransGen (Step settings)

end Work

/-! ## What a file comes to by itself -/

section Single

variable {tree : FileTree} {settings : Settings} {path : Path} {outcome : FileOutcome}

/-- The change that formatting a file makes, if it makes one. -/
def change (tree : FileTree) (settings : Settings) (path : Path) :
    Option (List String × List UInt8) :=
  (formatFile tree settings path).bind fun outcome => outcome.written.bind fun text =>
    (tree.locate path).toOption.map fun location => (location, Text.encode text)

/-- What formatting a file comes to: either nothing is to be written and the status does not say that
it changed, or its text is formatted to another one. That is written if neither a check nor a difference
was asked for. -/
theorem formatFile_cases (h : formatFile tree settings path = some outcome) :
    outcome.written = none ∧ outcome.result.path = path.text ∧ outcome.result.status ≠ .changed ∨
      ∃ location bytes source text, tree.locate path = .ok location ∧
        tree.at? location = some (some bytes) ∧ Text.decode? bytes = some source ∧
        (plainSettings settings).formatText source = .ok text ∧ source ≠ text ∧
        outcome.result = ⟨path.text, .changed, none⟩ ∧
        outcome.written = if settings.check || settings.diff then none else some text := by
  unfold formatFile at h
  cases hread : tree.read path with
  | error fault =>
    rw [hread] at h
    cases h
    exact .inl ⟨rfl, rfl, nofun⟩
  | ok source =>
    obtain ⟨location, bytes, hlocate, hseen, hdecode⟩ := FileTree.exists_of_read hread
    rw [hread] at h
    simp only [formatSource] at h
    split at h
    · cases h
    · cases h
      exact .inl ⟨rfl, rfl, nofun⟩
    · next text hformat =>
      cases h
      unfold compareSource
      by_cases hsame : source = text
      · rw [if_pos hsame]
        exact .inl ⟨rfl, rfl, nofun⟩
      · rw [if_neg hsame]
        exact .inr ⟨location, bytes, source, text, hlocate, hseen, hdecode, hformat, hsame, rfl, rfl⟩

/-- Only a file is written. -/
theorem exists_of_written {text : String} (h : formatFile tree settings path = some outcome)
    (hwritten : outcome.written = some text) :
    ∃ location bytes, tree.locate path = .ok location ∧ tree.at? location = some (some bytes) := by
  obtain ⟨hnone, -⟩ | ⟨location, bytes, -, -, hlocate, hseen, -⟩ := formatFile_cases h
  · rw [hwritten] at hnone
    cases hnone
  · exact ⟨location, bytes, hlocate, hseen⟩

theorem path_of_formatFile (h : formatFile tree settings path = some outcome) :
    outcome.result.path = path.text := by
  obtain ⟨-, hpath, -⟩ | ⟨-, -, -, -, -, -, -, -, -, hresult, -⟩ := formatFile_cases h
  · exact hpath
  · rw [hresult]

theorem change_of_written (h : formatFile tree settings path = some outcome) :
    change tree settings path = outcome.written.bind fun text =>
      (tree.locate path).toOption.map fun location => (location, Text.encode text) := by
  rw [change, h, Option.bind_some]

theorem fits_change (tree : FileTree) (settings : Settings) (path : Path) :
    tree.Fits (change tree settings path) := by
  intro location bytes hchange
  cases hformat : formatFile tree settings path with
  | none => simp [change, hformat] at hchange
  | some outcome =>
    rw [change_of_written hformat] at hchange
    cases hwritten : outcome.written with
    | none => rw [hwritten] at hchange; cases hchange
    | some text =>
      obtain ⟨location', old, hlocate, hseen⟩ := exists_of_written hformat hwritten
      rw [hwritten, hlocate] at hchange
      cases hchange
      exact ⟨old, hseen⟩

theorem locate_of_change {location : List String} {bytes : List UInt8}
    (h : change tree settings path = some (location, bytes)) : tree.locate path = .ok location := by
  unfold change at h
  obtain ⟨outcome, -, h⟩ := Option.bind_eq_some_iff.mp h
  obtain ⟨text, -, h⟩ := Option.bind_eq_some_iff.mp h
  obtain ⟨location', hlocate, h⟩ := Option.map_eq_some_iff.mp h
  cases hlocated : tree.locate path with
  | error fault => rw [hlocated] at hlocate; cases hlocate
  | ok here =>
    rw [hlocated] at hlocate
    cases hlocate
    cases h
    rfl

/-- Changes of files that are apart are at different locations. -/
theorem ne_change {other : Path} (hapart : tree.Apart path other) (location : List String)
    (bytes bytes' : List UInt8) (h : change tree settings path = some (location, bytes)) :
    change tree settings other ≠ some (location, bytes') := fun habs =>
  hapart location (locate_of_change h) (locate_of_change habs)

/-- What is stored is the change, also after changes of other files. -/
theorem store_eq {now : FileTree} (hshape : now.SameShape tree)
    (h : formatFile tree settings path = some outcome) :
    store now path outcome = (now.apply (change tree settings path), outcome.result) := by
  rw [change_of_written h]
  unfold store
  cases hwritten : outcome.written with
  | none => rfl
  | some text =>
    obtain ⟨location, old, hlocate, -⟩ := exists_of_written h hwritten
    simp only [FileTree.write, FileTree.locate_congr hshape, hlocate]
    rfl

/-- A file is formatted the same after changes of other files. -/
theorem formatFile_congr {now : FileTree} (hshape : now.SameShape tree)
    (hseen : ∀ location, tree.locate path = .ok location → now.at? location = tree.at? location) :
    formatFile now settings path = formatFile tree settings path := by
  unfold formatFile
  rw [FileTree.read_congr hshape fun location hlocate =>
    hseen location ((FileTree.locate_congr hshape path).symm.trans hlocate)]

end Single

/-! ## What every schedule keeps -/

namespace Work

/-- What has become of one of the paths is what comes of it by itself. -/
def JobSound (tree : FileTree) (settings : Settings) : Path × Stage → Prop
  | (_, .waiting) => True
  | (path, .formatted outcome) => formatFile tree settings path = some outcome
  | (path, .finished result) =>
    ∃ outcome, formatFile tree settings path = some outcome ∧ result = outcome.result

/-- What has been changed for one of the paths. -/
def stored (tree : FileTree) (settings : Settings) : Path × Stage → Option (List String × List UInt8)
  | (path, .finished _) => change tree settings path
  | _ => none

/-- The work on paths has come as far as the stages say, and no further. -/
structure Sound (tree : FileTree) (settings : Settings) (paths : List Path) (work : Work) : Prop where
  paths : work.jobs.map Prod.fst = paths
  jobs : ∀ job ∈ work.jobs, JobSound tree settings job
  tree : work.tree = (work.jobs.map (stored tree settings)).foldl FileTree.apply tree

variable {tree : FileTree} {settings : Settings} {paths : List Path}

theorem sound_start (tree : FileTree) (settings : Settings) (paths : List Path) :
    Sound tree settings paths (start tree paths) where
  paths := by simp [start, Function.comp_def]
  jobs job hjob := by
    obtain ⟨path, -, rfl⟩ := List.mem_map.mp hjob
    trivial
  tree := by
    have hnone : ∀ paths : List Path,
        tree = ((paths.map fun path => (path, Stage.waiting)).map (stored tree settings)).foldl
          FileTree.apply tree := by
      intro paths
      induction paths with
      | nil => rfl
      | cons path paths ih => exact ih
    exact hnone paths

theorem fits_stored (job : Path × Stage) : tree.Fits (stored tree settings job) := by
  obtain ⟨path, stage⟩ := job
  cases stage with
  | finished result => exact fits_change tree settings path
  | waiting => exact fun _ _ h => nomatch h
  | formatted outcome => exact fun _ _ h => nomatch h

theorem fits_all (tree : FileTree) (settings : Settings) (jobs : List (Path × Stage)) :
    ∀ other ∈ jobs.map (stored tree settings), tree.Fits other := by
  intro other hother
  obtain ⟨job, -, rfl⟩ := List.mem_map.mp hother
  exact fits_stored job

theorem stored_ne {path : Path} {job : Path × Stage} (hapart : tree.Apart path job.1)
    (location : List String) (bytes bytes' : List UInt8)
    (h : change tree settings path = some (location, bytes)) :
    stored tree settings job ≠ some (location, bytes') := by
  obtain ⟨other, stage⟩ := job
  cases stage with
  | finished result => exact ne_change hapart location bytes bytes' h
  | waiting => exact fun habs => nomatch habs
  | formatted outcome => exact fun habs => nomatch habs

namespace Sound

variable {work : Work}

theorem sameShape (h : work.Sound tree settings paths) : work.tree.SameShape tree :=
  h.tree ▸ FileTree.sameShape_applyAll (fits_all tree settings work.jobs)

/-- A path of which nothing has been stored leads to what has been there from the start. -/
theorem formatFile_eq {before after : List (Path × Stage)} {path : Path} {stage : Stage} {now : FileTree}
    (h : Sound tree settings paths ⟨now, before ++ (path, stage) :: after⟩)
    (hapart : ∀ job ∈ before ++ after, tree.Apart path job.1) (hstage : stage.result? = none) :
    formatFile now settings path = formatFile tree settings path := by
  refine formatFile_congr h.sameShape fun location hlocate => ?_
  obtain ⟨bytes, hmem, -⟩ | ⟨-, hseen⟩ :=
    FileTree.at?_applyAll (fits_all tree settings (before ++ (path, stage) :: after)) location
  · obtain ⟨job, hjob, hstored⟩ := List.mem_map.mp hmem
    obtain rfl | hjob : job = (path, stage) ∨ job ∈ before ++ after := by
      simpa [or_left_comm] using hjob
    · cases stage with
      | finished result => cases hstage
      | waiting => cases hstored
      | formatted outcome => cases hstored
    · obtain ⟨other, stage'⟩ := job
      cases stage' with
      | finished result => exact absurd (locate_of_change hstored) (hapart _ hjob location hlocate)
      | waiting => cases hstored
      | formatted outcome => cases hstored
  · have := h.tree
    simp only at this ⊢
    rw [this]
    exact hseen

end Sound

/-- The paths around one that leads to no other file are apart from it. -/
theorem apart_of_pairwise {before after : List (Path × Stage)} {path : Path} {stage : Stage}
    (hapart : ((before ++ (path, stage) :: after).map Prod.fst).Pairwise tree.Apart) :
    ∀ job ∈ before ++ after, tree.Apart path job.1 := by
  rw [List.map_append, List.map_cons, List.pairwise_append, List.pairwise_cons] at hapart
  obtain ⟨-, ⟨hafter, -⟩, hbefore⟩ := hapart
  intro job hjob
  obtain hjob | hjob := List.mem_append.mp hjob
  · exact Std.Symm.symm _ _ (hbefore job.1 (List.mem_map_of_mem hjob) path List.mem_cons_self)
  · exact hafter job.1 (List.mem_map_of_mem hjob)

/-- Every step keeps what the stages say. -/
theorem Sound.step {work next : Work} (hapart : paths.Pairwise tree.Apart)
    (h : work.Sound tree settings paths) (hstep : Step settings work next) :
    next.Sound tree settings paths := by
  cases hstep with
  | @format now path outcome before after hformat =>
    have haround := apart_of_pairwise (h.paths ▸ hapart)
    have heq := h.formatFile_eq haround rfl
    refine ⟨?_, ?_, ?_⟩
    · rw [← h.paths]
      simp
    · intro job hjob
      obtain hjob | rfl | hjob : job ∈ before ∨ job = (path, .formatted outcome) ∨ job ∈ after := by
        simpa using hjob
      · exact h.jobs job (by simp [hjob])
      · exact heq.symm.trans hformat
      · exact h.jobs job (by simp [hjob])
    · have htree := h.tree
      simp only [List.map_append, List.map_cons] at htree ⊢
      exact htree
  | @store now path outcome before after =>
    have haround := apart_of_pairwise (h.paths ▸ hapart)
    have hformat : formatFile tree settings path = some outcome :=
      h.jobs (path, .formatted outcome) (by simp)
    rw [store_eq h.sameShape hformat]
    refine ⟨?_, ?_, ?_⟩
    · rw [← h.paths]
      simp
    · intro job hjob
      obtain hjob | rfl | hjob :
          job ∈ before ∨ job = (path, .finished outcome.result) ∨ job ∈ after := by
        simpa using hjob
      · exact h.jobs job (by simp [hjob])
      · exact ⟨outcome, hformat, rfl⟩
      · exact h.jobs job (by simp [hjob])
    · -- the change is put off until after those of the later paths
      have htree := h.tree
      simp only [List.map_append, List.map_cons, List.foldl_append, List.foldl_cons] at htree ⊢
      have hshape := FileTree.sameShape_applyAll (fits_all tree settings before)
      have hlate : (after.map (stored tree settings)).foldl FileTree.apply
          (((before.map (stored tree settings)).foldl FileTree.apply tree).apply
            (change tree settings path)) = _ :=
        FileTree.applyAll_apply ((fits_change tree settings path).of_sameShape hshape)
          fun other hother => by
            obtain ⟨job, hjob, rfl⟩ := List.mem_map.mp hother
            exact ⟨(fits_stored job).of_sameShape hshape,
              stored_ne (haround job (List.mem_append_right _ hjob))⟩
      rw [htree]
      exact hlate.symm

/-- Every schedule keeps what the stages say. -/
theorem Sound.schedule {work next : Work} (hapart : paths.Pairwise tree.Apart)
    (h : work.Sound tree settings paths) (hschedule : Schedule settings work next) :
    next.Sound tree settings paths := by
  induction hschedule with
  | refl => exact h
  | tail _ hstep ih => exact ih.step hapart hstep

end Work

end Run

end SqlFormat
