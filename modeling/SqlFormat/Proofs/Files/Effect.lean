import Mathlib
import SqlFormat.Proofs.Files.Order
import SqlFormat.Proofs.Files.Schedule
import SqlFormat.Proofs.Layout.Anchors

/-!
# What a run does to files

A run gives one result for each path, whatever order its files are worked on in. It changes the files
that it says it changed, to what their old texts are formatted to, and no others. A check or a difference
changes nothing and says the same of each file.

Results: `files_effect`.
-/

namespace SqlFormat.Run

variable {tree : FileTree} {settings : Settings} {paths : List Path}

/-! ## Results -/

/-- The result that a file has by itself. -/
def ResultOf (tree : FileTree) (settings : Settings) (path : Path) (result : FileResult) : Prop :=
  ∃ outcome, formatFile tree settings path = some outcome ∧ result = outcome.result

theorem ResultOf.eq {path : Path} {result other : FileResult} (h : ResultOf tree settings path result)
    (h' : ResultOf tree settings path other) : result = other := by
  obtain ⟨outcome, hformat, rfl⟩ := h
  obtain ⟨outcome', hformat', rfl⟩ := h'
  rw [Option.some.inj (hformat.symm.trans hformat')]

theorem ResultOf.path {path : Path} {result : FileResult} (h : ResultOf tree settings path result) :
    result.path = path.text := by
  obtain ⟨outcome, hformat, rfl⟩ := h
  exact path_of_formatFile hformat

/-- Each path has one result. -/
theorem eq_of_resultOf {results others : List FileResult}
    (h : List.Forall₂ (ResultOf tree settings) paths results)
    (h' : List.Forall₂ (ResultOf tree settings) paths others) : results = others := by
  induction h generalizing others with
  | nil => cases h'; rfl
  | cons hhead _ ih =>
    cases h' with
    | cons hhead' htail' => rw [hhead.eq hhead', ih htail']

theorem dialectFor_congr {a b : Settings} (h : a.dialectName = b.dialectName) (source : String) :
    a.dialectFor source = b.dialectFor source := by
  unfold Settings.dialectFor
  rw [h]

/-- Formatting asks for the style, the dialect and whether the result is compared with the source. -/
theorem formatText_congr {a b : Settings} (hstyle : a.style = b.style)
    (hdialect : a.dialectName = b.dialectName) (hfast : a.fast = b.fast) (source : String) :
    a.formatText source = b.formatText source := by
  unfold Settings.formatText Settings.checksResult
  rw [dialectFor_congr hdialect, hstyle, hfast]

/-- A check or a difference says the same of a file as a run that writes it. -/
theorem ResultOf.dry {path : Path} {result : FileResult} (h : ResultOf tree settings path result)
    (check diff : Bool) : ResultOf tree { settings with check, diff } path result := by
  obtain ⟨outcome, hformat, rfl⟩ := h
  unfold formatFile at hformat
  unfold ResultOf formatFile
  cases hread : tree.read path with
  | error fault =>
    rw [hread] at hformat
    exact ⟨outcome, hformat, rfl⟩
  | ok source =>
    rw [hread] at hformat
    simp only [formatSource] at hformat ⊢
    -- formatting does not ask what is to be done with the result
    have hsame : (plainSettings { settings with check, diff }).formatText source =
        (plainSettings settings).formatText source := by
      apply formatText_congr <;> rfl
    rw [hsame]
    split at hformat
    · cases hformat
    · cases hformat
      exact ⟨_, rfl, rfl⟩
    · cases hformat
      refine ⟨_, rfl, ?_⟩
      unfold compareSource
      split <;> rfl

namespace Work

theorem results?_cons (now : FileTree) (job : Path × Stage) (jobs : List (Path × Stage)) :
    results? ⟨now, job :: jobs⟩ =
      job.2.result?.bind fun result => (results? ⟨now, jobs⟩).map (result :: ·) := by
  simp only [results?, List.mapM_cons]
  cases job.2.result? with
  | none => rfl
  | some result => cases List.mapM (fun job => Stage.result? job.2) jobs <;> rfl

theorem results?_append {now : FileTree} {jobs more : List (Path × Stage)}
    {results others : List FileResult} (h : results? ⟨now, jobs⟩ = some results)
    (h' : results? ⟨now, more⟩ = some others) :
    results? ⟨now, jobs ++ more⟩ = some (results ++ others) := by
  induction jobs generalizing results with
  | nil =>
    cases h
    exact h'
  | cons job jobs ih =>
    rw [results?_cons] at h
    obtain ⟨result, hjob, h⟩ := Option.bind_eq_some_iff.mp h
    obtain ⟨tail, hjobs, rfl⟩ := Option.map_eq_some_iff.mp h
    rw [List.cons_append, results?_cons, hjob, ih hjobs]
    rfl

/-- Work that has come to its end has come to what each path comes to by itself. -/
theorem Sound.finished {work : Work} {results : List FileResult}
    (h : work.Sound tree settings paths) (hresults : work.results? = some results) :
    List.Forall₂ (ResultOf tree settings) paths results ∧
      work.tree = (paths.map (change tree settings)).foldl FileTree.apply tree := by
  rw [h.tree]
  obtain ⟨now, jobs⟩ := work
  obtain ⟨rfl, hjobs, -⟩ := h
  simp only at hjobs ⊢
  suffices hall : List.Forall₂ (ResultOf tree settings) (jobs.map Prod.fst) results ∧
      jobs.map (stored tree settings) = (jobs.map Prod.fst).map (change tree settings) from
    ⟨hall.1, by rw [hall.2]⟩
  induction jobs generalizing results with
  | nil =>
    cases hresults
    exact ⟨.nil, rfl⟩
  | cons job jobs ih =>
    rw [results?_cons] at hresults
    obtain ⟨result, hjob, hresults⟩ := Option.bind_eq_some_iff.mp hresults
    obtain ⟨tail, htail, rfl⟩ := Option.map_eq_some_iff.mp hresults
    obtain ⟨hrest, hchanges⟩ := ih htail fun job hjob => hjobs job (List.mem_cons_of_mem _ hjob)
    obtain ⟨path, stage⟩ := job
    cases stage with
    | waiting => cases hjob
    | formatted outcome => cases hjob
    | finished result' =>
      cases hjob
      refine ⟨.cons (hjobs _ List.mem_cons_self) hrest, ?_⟩
      simp only [List.map_cons, hchanges]
      rfl

/-! ## Every schedule can be brought to its end -/

/-- The work on a path can be finished at once. -/
theorem exists_finish (hapart : paths.Pairwise tree.Apart) {now : FileTree}
    {before after : List (Path × Stage)} {path : Path} {stage : Stage}
    (h : Sound tree settings paths ⟨now, before ++ (path, stage) :: after⟩)
    (hformat : (formatFile tree settings path).isSome) :
    ∃ next result, Schedule settings ⟨now, before ++ (path, stage) :: after⟩
      ⟨next, before ++ (path, .finished result) :: after⟩ := by
  have haround := apart_of_pairwise (h.paths ▸ hapart)
  obtain ⟨outcome, hformat⟩ := Option.isSome_iff_exists.mp hformat
  cases stage with
  | waiting =>
    have hnow := (h.formatFile_eq haround rfl).trans hformat
    exact ⟨_, _, .tail (.single (.format before after hnow)) (.store before after)⟩
  | formatted outcome' => exact ⟨_, _, .single (.store before after)⟩
  | finished result => exact ⟨now, result, .refl⟩

/-- **No schedule gets stuck.** -/
theorem Sound.completes {work : Work} (hapart : paths.Pairwise tree.Apart)
    (hcrash : ∀ path ∈ paths, (formatFile tree settings path).isSome)
    (h : work.Sound tree settings paths) :
    ∃ done, Schedule settings work done ∧ done.results?.isSome := by
  -- the jobs are finished from the first to the last
  suffices hall : ∀ after before now results, Sound tree settings paths ⟨now, before ++ after⟩ →
      results? ⟨now, before⟩ = some results →
      ∃ done, Schedule settings ⟨now, before ++ after⟩ done ∧ done.results?.isSome from
    hall work.jobs [] work.tree [] h rfl
  intro after
  induction after with
  | nil =>
    intro before now results hsound hresults
    refine ⟨_, .refl, ?_⟩
    rw [List.append_nil, hresults]
    rfl
  | cons job after ih =>
    intro before now results hsound hresults
    obtain ⟨path, stage⟩ := job
    have hmem : path ∈ paths := by
      rw [← hsound.paths]
      simp
    obtain ⟨next, result, hfinish⟩ := exists_finish hapart hsound (hcrash path hmem)
    have hnext := hsound.schedule hapart hfinish
    rw [List.append_cons] at hnext
    have hbefore : results? ⟨next, before ++ [(path, .finished result)]⟩ = some (results ++ [result]) :=
      results?_append hresults rfl
    obtain ⟨done, hdone, hresults⟩ := ih _ _ _ hnext hbefore
    rw [← List.append_cons] at hdone
    exact ⟨done, hfinish.trans hdone, hresults⟩

/-- The run that takes one file after the other is one of the schedules. -/
theorem Sound.exists_run (hapart : paths.Pairwise tree.Apart)
    (hcrash : ∀ path ∈ paths, (formatFile tree settings path).isSome) (rest : List Path)
    (before : List (Path × Stage)) (progress : Progress)
    (h : Sound tree settings paths
      ⟨progress.tree, before ++ rest.map fun path => (path, .waiting)⟩)
    (hresults : results? ⟨progress.tree, before⟩ = some progress.report.results) :
    ∃ run jobs, rest.foldlM (Run.step settings) progress = .ok run ∧
      Schedule settings ⟨progress.tree, before ++ rest.map fun path => (path, .waiting)⟩
        ⟨run.tree, jobs⟩ ∧
      results? ⟨run.tree, jobs⟩ = some run.report.results := by
  induction rest generalizing before progress with
  | nil =>
    refine ⟨progress, before, rfl, ?_, hresults⟩
    rw [List.map_nil, List.append_nil]
  | cons path rest ih =>
    simp only [List.map_cons] at h ⊢
    have hmem : path ∈ paths := by
      rw [← h.paths]
      simp
    obtain ⟨outcome, hformat⟩ := Option.isSome_iff_exists.mp (hcrash path hmem)
    have hnow : formatFile progress.tree settings path = some outcome :=
      (h.formatFile_eq (apart_of_pairwise (h.paths ▸ hapart)) rfl).trans hformat
    obtain ⟨next, hnext⟩ : ∃ next, next = (⟨(store progress.tree path outcome).1,
      progress.report.add (store progress.tree path outcome).2,
      progress.shown ++ outcome.shown⟩ : Progress) := ⟨_, rfl⟩
    have hstep : Run.step settings progress path = .ok next := by
      rw [Run.step, hnow, hnext]
    have hsteps : Schedule settings
        ⟨progress.tree, before ++ (path, .waiting) :: rest.map fun path => (path, .waiting)⟩
        ⟨next.tree, before ++ (path, .finished (store progress.tree path outcome).2) ::
          rest.map fun path => (path, .waiting)⟩ := by
      rw [hnext]
      exact .tail (.single (.format _ _ hnow)) (.store _ _)
    have hsound := h.schedule hapart hsteps
    have hbefore : results? ⟨next.tree, before ++
        [(path, .finished (store progress.tree path outcome).2)]⟩ = some next.report.results := by
      rw [hnext]
      exact results?_append hresults rfl
    rw [List.append_cons before] at hsound
    obtain ⟨run, jobs, hrun, hrest, hfound⟩ := ih _ _ hsound hbefore
    refine ⟨run, jobs, ?_, ?_, hfound⟩
    · rw [List.foldlM_cons, hstep]
      exact hrun
    · rw [← List.append_cons] at hrest
      exact hsteps.trans hrest

end Work

/-! ## Where the formatter does not crash -/

/-- A comparison that is asked for has found no difference. -/
theorem mismatch?_of_formatText {source text : String} (hchecks : settings.checksResult = true)
    (h : (plainSettings settings).formatText source = .ok text) :
    ∃ dialect, settings.dialectFor source = .ok dialect ∧
      Equivalence.mismatch? dialect.lexicon source text = none := by
  have hsame : (plainSettings settings).dialectFor source = settings.dialectFor source := by
    apply dialectFor_congr
    rfl
  have hcolor : (plainSettings settings).style.color = .never := rfl
  replace hchecks : (plainSettings settings).checksResult = true := hchecks
  unfold Settings.formatText at h
  rw [hsame] at h
  cases hdialect : settings.dialectFor source with
  | error e => rw [hdialect] at h; cases h
  | ok dialect =>
    rw [hdialect] at h
    simp only [bind, Except.bind] at h
    cases hplain :
        Settings.formatAs dialect { (plainSettings settings).style with color := .never } source with
    | error e => rw [hplain] at h; cases h
    | ok plain =>
      rw [hplain] at h
      simp only [hchecks, hcolor, if_true, reduceCtorEq, if_false] at h
      cases hmismatch : Equivalence.mismatch? dialect.lexicon source plain with
      | some mismatch => rw [hmismatch] at h; cases h
      | none =>
        rw [hmismatch] at h
        cases h
        exact ⟨dialect, rfl, hmismatch⟩

/-- Where alignment finds its anchors in order, it does not split a character. -/
theorem formatText_ne_split {source : String} (hcolor : settings.style.color = .never)
    (h : ∀ dialect, settings.dialectFor source = .ok dialect → InOrder dialect settings.style source) :
    settings.formatText source ≠ .error .split := by
  intro habs
  unfold Settings.formatText at habs
  cases hdialect : settings.dialectFor source with
  | error e =>
    rw [hdialect] at habs
    obtain rfl : e = .split := Except.error.inj habs
    unfold Settings.dialectFor at hdialect
    split_ifs at hdialect
    split at hdialect <;> cases hdialect
  | ok dialect =>
    obtain ⟨aligned, -, -, hformat⟩ := exists_format dialect settings.style source
      (h dialect hdialect).orderly
    have hplain : { settings.style with color := .never } = settings.style := by rw [← hcolor]
    rw [hdialect, hplain] at habs
    simp only [Settings.formatAs, hformat, hcolor, bind, Except.bind, reduceCtorEq, if_false] at habs
    split at habs
    · split at habs <;> cases habs
    · cases habs

/-- There is no outcome for a file that the formatter crashes on. -/
theorem formatFile_eq_none {path : Path} {source : String} {dialect : Dialect}
    (hread : tree.read path = .ok source)
    (hdialect : (plainSettings settings).dialectFor source = .ok dialect)
    (h : format? dialect (plainSettings settings).style source = none) :
    formatFile tree settings path = none := by
  have hplain : Settings.formatAs dialect { (plainSettings settings).style with color := .never } source =
      .error .split := by
    rw [Settings.formatAs]
    exact h ▸ rfl
  have hsplit : (plainSettings settings).formatText source = .error .split := by
    simp [Settings.formatText, hdialect, bind, Except.bind, hplain]
  simp only [formatFile, hread, formatSource, hsplit]

/-- A run ends at the first file if the formatter crashes on it. -/
theorem files_eq_error {inputs : List Path} {path : Path} {paths : List Path}
    (hpaths : Collect.paths tree settings.exclude inputs = path :: paths)
    (h : formatFile tree settings path = none) : files tree settings inputs = .error tree := by
  rw [files, hpaths, List.foldlM_cons, step, h]
  rfl

/-- So formatting a file does not crash there. -/
theorem formatFile_isSome {path : Path}
    (h : ∀ source dialect, tree.read path = .ok source →
      (plainSettings settings).dialectFor source = .ok dialect →
      InOrder dialect (plainSettings settings).style source) :
    (formatFile tree settings path).isSome := by
  unfold formatFile
  cases hread : tree.read path with
  | error fault => rfl
  | ok source =>
    have hsplit : (plainSettings settings).formatText source ≠ .error .split :=
      formatText_ne_split rfl fun dialect => h source dialect hread
    simp only [formatSource]
    split
    · next heq => exact absurd heq hsplit
    · rfl
    · rfl

/-! ## The effect of a run -/

/-- What a run over paths does to files, `after` being the files after it, and what it says of them. -/
structure Effect (tree : FileTree) (settings : Settings) (paths : List Path) (after : FileTree)
    (results : List FileResult) : Prop where
  /-- There is one result for each path, in the order of the paths. -/
  named : results.map (·.path) = paths.map (·.text)
  /-- Work in any order can be brought to its end. -/
  completes : ∀ work, Work.Schedule settings (.start tree paths) work →
    ∃ done, Work.Schedule settings work done ∧ done.results?.isSome
  /-- It always comes to the same. -/
  agrees : ∀ done found, Work.Schedule settings (.start tree paths) done →
    done.results? = some found → done.tree = after ∧ found = results
  /-- Only a file of which the run says that it changed is changed, and only if neither a check nor a
  difference was asked for. -/
  changed : ∀ location, after.at? location ≠ tree.at? location →
    settings.check = false ∧ settings.diff = false ∧
      ∃ path, (path, ⟨path.text, .changed, none⟩) ∈ paths.zip results ∧
        tree.locate path = .ok location
  /-- Its new text is what its old text is formatted to without colour, and has been compared with the
  old text if the settings ask for that. -/
  written : ∀ path result, (path, result) ∈ paths.zip results → result.status = .changed →
    ∃ location bytes old text, tree.locate path = .ok location ∧
      tree.at? location = some (some bytes) ∧ Text.decode? bytes = some old ∧ old ≠ text ∧
      (plainSettings settings).formatText old = .ok text ∧
      (settings.checksResult = true → ∃ dialect, settings.dialectFor old = .ok dialect ∧
        Equivalence.mismatch? dialect.lexicon old text = none) ∧
      (settings.check = false → settings.diff = false →
        after.at? location = some (some (Text.encode text)))
  /-- A file with which something went wrong stays as it is. -/
  untouched : ∀ path result location, (path, result) ∈ paths.zip results → result.status = .error →
    tree.locate path = .ok location → after.at? location = tree.at? location
  /-- A check or a difference leaves all files as they are. -/
  dry : settings.check = true ∨ settings.diff = true → after = tree

/-- Nothing is written in a check or for a difference. -/
theorem change_dry (hdry : settings.check = true ∨ settings.diff = true) (path : Path) :
    change tree settings path = none := by
  cases hformat : formatFile tree settings path with
  | none => rw [change, hformat, Option.bind_none]
  | some outcome =>
    rw [change_of_written hformat]
    obtain ⟨hnone, -⟩ | ⟨-, -, -, text, -, -, -, -, -, -, hwritten⟩ := formatFile_cases hformat
    · rw [hnone, Option.bind_none]
    · have hasked : (settings.check || settings.diff) = true := by simpa using hdry
      rw [hwritten, hasked, if_pos rfl, Option.bind_none]

theorem fits_changes (tree : FileTree) (settings : Settings) (paths : List Path) :
    ∀ other ∈ paths.map (change tree settings), tree.Fits other := by
  intro other hother
  obtain ⟨path, -, rfl⟩ := List.mem_map.mp hother
  exact fits_change tree settings path

/-- A file of which nothing is written stays as it is. -/
theorem at?_of_change_eq_none (hapart : paths.Pairwise tree.Apart) {path : Path} (hpath : path ∈ paths)
    (hnone : change tree settings path = none) {location : List String}
    (hlocate : tree.locate path = .ok location) :
    ((paths.map (change tree settings)).foldl FileTree.apply tree).at? location =
      tree.at? location := by
  obtain ⟨bytes, hmem, -⟩ | ⟨-, hseen⟩ :=
    FileTree.at?_applyAll (fits_changes tree settings paths) location
  · obtain ⟨other, hother, hchange⟩ := List.mem_map.mp hmem
    have hthere := locate_of_change hchange
    obtain rfl : other = path := by
      by_contra hne
      exact hapart.forall hother hpath hne location hthere hlocate
    rw [hnone] at hchange
    cases hchange
  · exact hseen

/-- Each path has its result beside it. -/
theorem exists_mem_zip {results : List FileResult}
    (h : List.Forall₂ (ResultOf tree settings) paths results) {path : Path} (hpath : path ∈ paths) :
    ∃ result, (path, result) ∈ paths.zip results ∧ ResultOf tree settings path result := by
  induction h with
  | nil => cases hpath
  | @cons head result paths results hhead _ ih =>
    obtain rfl | hpath := List.mem_cons.mp hpath
    · exact ⟨result, List.mem_cons_self, hhead⟩
    · obtain ⟨result', hmem, hresult⟩ := ih hpath
      exact ⟨result', List.mem_cons_of_mem _ hmem, hresult⟩

/-- Where a file has changed, a path leads to it of which the run says so. -/
theorem exists_of_changed {results : List FileResult}
    (hresults : List.Forall₂ (ResultOf tree settings) paths results) {location : List String}
    (hchanged : ((paths.map (change tree settings)).foldl FileTree.apply tree).at? location ≠
      tree.at? location) :
    settings.check = false ∧ settings.diff = false ∧
      ∃ path, (path, ⟨path.text, .changed, none⟩) ∈ paths.zip results ∧
        tree.locate path = .ok location := by
  obtain ⟨bytes, hmem, -⟩ | ⟨-, hseen⟩ :=
    FileTree.at?_applyAll (fits_changes tree settings paths) location
  · obtain ⟨path, hpath, hchange⟩ := List.mem_map.mp hmem
    have hwet : ¬(settings.check = true ∨ settings.diff = true) := by
      intro hdry
      rw [change_dry hdry] at hchange
      cases hchange
    rw [not_or, Bool.not_eq_true, Bool.not_eq_true] at hwet
    refine ⟨hwet.1, hwet.2, path, ?_, locate_of_change hchange⟩
    obtain ⟨result, hzip, outcome, hformat, rfl⟩ := exists_mem_zip hresults hpath
    obtain ⟨hnone, -⟩ | ⟨-, -, -, -, -, -, -, -, -, hresult, -⟩ := formatFile_cases hformat
    · rw [change_of_written hformat, hnone] at hchange
      cases hchange
    · rw [← hresult]
      exact hzip
  · exact absurd hseen hchanged

/-- A file that is written is seen with its new bytes in the end. -/
theorem at?_of_change (hapart : paths.Pairwise tree.Apart) {path : Path} (hpath : path ∈ paths)
    {location : List String} {bytes : List UInt8}
    (hchange : change tree settings path = some (location, bytes)) :
    ((paths.map (change tree settings)).foldl FileTree.apply tree).at? location =
      some (some bytes) := by
  obtain ⟨bytes', hmem, hseen⟩ | ⟨hnone, -⟩ :=
    FileTree.at?_applyAll (fits_changes tree settings paths) location
  · obtain ⟨other, hother, hchange'⟩ := List.mem_map.mp hmem
    obtain rfl : other = path := by
      by_contra hne
      exact hapart.forall hother hpath hne location (locate_of_change hchange')
        (locate_of_change hchange)
    rw [hchange] at hchange'
    cases hchange'
    exact hseen
  · exact absurd (List.mem_map.mpr ⟨path, hpath, hchange⟩) (hnone bytes)

/-- What all schedules come to is the effect of a run. -/
theorem effect_of_results {results : List FileResult} (hapart : paths.Pairwise tree.Apart)
    (hcrash : ∀ path ∈ paths, (formatFile tree settings path).isSome)
    (hresults : List.Forall₂ (ResultOf tree settings) paths results) :
    Effect tree settings paths ((paths.map (change tree settings)).foldl FileTree.apply tree)
      results where
  named := by
    clear hapart hcrash
    induction hresults with
    | nil => rfl
    | cons hhead _ ih => rw [List.map_cons, List.map_cons, hhead.path, ih]
  completes work hwork :=
    ((Work.sound_start tree settings paths).schedule hapart hwork).completes hapart hcrash
  agrees done found hdone hfound := by
    obtain ⟨hall, htree⟩ :=
      ((Work.sound_start tree settings paths).schedule hapart hdone).finished hfound
    exact ⟨htree, eq_of_resultOf hall hresults⟩
  changed location hchanged := exists_of_changed hresults hchanged
  written path result hzip hstatus := by
    obtain ⟨outcome, hformat, rfl⟩ := List.forall₂_zip hresults hzip
    obtain ⟨-, -, hne⟩ | ⟨location, bytes, old, text, hlocate, hseen, hdecode, hnew, hne, -, hwritten⟩ :=
      formatFile_cases hformat
    · exact absurd hstatus hne
    · refine ⟨location, bytes, old, text, hlocate, hseen, hdecode, hne, hnew, ?_, ?_⟩
      · exact fun hchecks => mismatch?_of_formatText hchecks hnew
      · intro hcheck hdiff
        refine at?_of_change hapart (List.of_mem_zip hzip).1 ?_
        rw [hcheck, hdiff] at hwritten
        rw [change_of_written hformat, hwritten, hlocate]
        rfl
  untouched path result location hzip hstatus hlocate := by
    obtain ⟨outcome, hformat, rfl⟩ := List.forall₂_zip hresults hzip
    refine at?_of_change_eq_none hapart (List.of_mem_zip hzip).1 ?_ hlocate
    obtain ⟨hnone, -⟩ | ⟨-, -, -, -, -, -, -, -, -, hresult, -⟩ := formatFile_cases hformat
    · rw [change_of_written hformat, hnone, Option.bind_none]
    · rw [hresult] at hstatus
      cases hstatus
  dry hdry := by
    have hnone : ∀ paths : List Path,
        (paths.map (change tree settings)).foldl FileTree.apply tree = tree := by
      intro paths
      induction paths with
      | nil => rfl
      | cons path paths ih =>
        rw [List.map_cons, change_dry hdry]
        exact ih
    exact hnone paths

/-- A run comes to what each path comes to by itself. -/
theorem exists_run (hapart : paths.Pairwise tree.Apart)
    (hcrash : ∀ path ∈ paths, (formatFile tree settings path).isSome) :
    ∃ run, paths.foldlM (step settings) ⟨tree, .empty, ""⟩ = .ok run ∧
      List.Forall₂ (ResultOf tree settings) paths run.report.results ∧
      run.tree = (paths.map (change tree settings)).foldl FileTree.apply tree := by
  have hstart := Work.sound_start tree settings paths
  obtain ⟨run, jobs, hrun, hschedule, hfound⟩ :=
    Work.Sound.exists_run hapart hcrash paths [] ⟨tree, .empty, ""⟩ hstart rfl
  obtain ⟨hresults, htree⟩ := (hstart.schedule hapart hschedule).finished hfound
  exact ⟨run, hrun, hresults, htree⟩

/-- **The effect of a run on files**: if the paths that are found lead to different files and the
formatter does not crash on them, a run over the paths in their order ends, its effect is as `Effect`
says, and a check or a difference gives the same results without touching a file. -/
theorem files_effect (tree : FileTree) (settings : Settings) (inputs : List Path)
    (hapart : (Collect.paths tree settings.exclude inputs).Pairwise tree.Apart)
    (hcrash : ∀ path ∈ Collect.paths tree settings.exclude inputs,
      (formatFile tree settings path).isSome) :
    ∃ run, files tree settings inputs = .ok run ∧
      Collect.Sorted (Collect.paths tree settings.exclude inputs) ∧
      Effect tree settings (Collect.paths tree settings.exclude inputs) run.tree run.report.results ∧
      ∀ check diff, (check || diff) = true →
        ∃ dry, files tree { settings with check, diff } inputs = .ok dry ∧ dry.tree = tree ∧
          dry.report.results = run.report.results := by
  obtain ⟨run, hrun, hresults, htree⟩ := exists_run hapart hcrash
  refine ⟨run, hrun, Collect.paths_sorted _ _ _, htree ▸ effect_of_results hapart hcrash hresults,
    fun check diff hasked => ?_⟩
  have hdryResults := hresults.imp fun path result h => h.dry check diff
  have hdryCrash : ∀ path ∈ Collect.paths tree settings.exclude inputs,
      (formatFile tree { settings with check, diff } path).isSome := by
    intro path hpath
    obtain ⟨result, -, outcome, hformat, -⟩ := exists_mem_zip hdryResults hpath
    rw [hformat]
    rfl
  obtain ⟨dry, hdry, hfound, hdryTree⟩ := exists_run hapart hdryCrash
  refine ⟨dry, hdry, ?_, eq_of_resultOf hfound hdryResults⟩
  rw [hdryTree]
  exact (effect_of_results hapart hdryCrash hdryResults).dry (by simpa using hasked)

/-- A file that is formatted, and one that is not UTF-8. -/
def twoFiles : FileTree where
  root := .directory <|
    .cons "a.sql" (.file (Text.encode "select 1")) <| .cons "b.sql" (.file [0xff]) .nil
  home := []

theorem files_effect_two :
    ∃ run, files twoFiles .standard [⟨"."⟩] = .ok run ∧
      Collect.Sorted (Collect.paths twoFiles [] [⟨"."⟩]) ∧
      Effect twoFiles .standard (Collect.paths twoFiles [] [⟨"."⟩]) run.tree run.report.results ∧
      ∀ check diff, (check || diff) = true →
        ∃ dry, files twoFiles { Settings.standard with check, diff } [⟨"."⟩] = .ok dry ∧
          dry.tree = twoFiles ∧ dry.report.results = run.report.results := by
  have hpaths : Collect.paths twoFiles [] [⟨"."⟩] = [⟨"./a.sql"⟩, ⟨"./b.sql"⟩] := by
    decide +kernel
  have hfirst : twoFiles.locate ⟨"./a.sql"⟩ = .ok ["a.sql"] := by decide +kernel
  have hsecond : twoFiles.locate ⟨"./b.sql"⟩ = .ok ["b.sql"] := by decide +kernel
  refine files_effect twoFiles .standard [⟨"."⟩] ?_ fun path _ =>
    formatFile_isSome fun source dialect _ _ => .inl ⟨rfl, rfl⟩
  show (Collect.paths twoFiles [] [⟨"."⟩]).Pairwise twoFiles.Apart
  rw [hpaths, List.pairwise_pair]
  intro location hlocate
  rw [hfirst] at hlocate
  rw [hsecond, ← Except.ok.inj hlocate]
  decide

/-- A file in which alignment would split a character. -/
def crossingFile : FileTree where
  root := .directory <|
    .cons "a.sql" (.file (Text.encode "BEGIN SELECT a AS éé := 1, ccc AS wwwwwwww := 2; END")) .nil
  home := []

/-- A run ends without results at a file on which the formatter crashes. -/
theorem files_crossing :
    ¬∃ run, files crossingFile
      { Settings.standard with
        dialectName := "postgresql"
        style := { Style.standard with alignColumns := true, alignAssignments := true } }
      [⟨"a.sql"⟩] = .ok run := by
  rintro ⟨run, hrun⟩
  have hpaths : Collect.paths crossingFile [] [⟨"a.sql"⟩] = [⟨"a.sql"⟩] := by decide +kernel
  have hread : crossingFile.read ⟨"a.sql"⟩ =
      .ok "BEGIN SELECT a AS éé := 1, ccc AS wwwwwwww := 2; END" := by decide +kernel
  have hformat : format? .postgresql
      { Style.standard with alignColumns := true, alignAssignments := true }
      "BEGIN SELECT a AS éé := 1, ccc AS wwwwwwww := 2; END" = none := by
    rw [format?_eq_layout?, tokenize, String.toList_ofList]
    decide +kernel
  have hcrash := hrun.symm.trans (files_eq_error hpaths (formatFile_eq_none hread rfl hformat))
  cases hcrash

end SqlFormat.Run
