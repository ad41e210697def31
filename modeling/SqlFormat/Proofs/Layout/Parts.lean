import Mathlib
import SqlFormat.Proofs.Layout.Alignment

/-!
# Alignment part by part

An empty line keeps the lines before it and after it apart: no group of lines reaches beyond it, so
that the lines on both sides are aligned as if the others were not there. This needs no assumption on
the anchors; where one side cannot be aligned, the whole cannot.

Whatever alignment does, it loses no character of a line and leaves its indentation as it is.

Results: `alignAll?_append`, `Tolerant.alignAll`, `keeps_alignAll`, `map_indent_alignAll`.
-/

namespace SqlFormat.Layout

variable {line aligned : Line} {kind : AnchorKind} {lines first second : List Line}

/-! ## What alignment keeps -/

/-- Nothing of the line is lost. -/
def Line.Keeps (line aligned : Line) : Prop :=
  line.text.toList.Sublist aligned.text.toList

theorem Line.Keeps.refl (line : Line) : line.Keeps line := List.Sublist.refl _

theorem insertSpaces?_sublist {offset count : Nat} {cs ds : List Char}
    (h : insertSpaces? offset count cs = some ds) : cs.Sublist ds := by
  induction cs generalizing offset ds with
  | nil => exact List.nil_sublist ds
  | cons c cs ih =>
    rw [insertSpaces?] at h
    split at h
    · cases h
      exact List.sublist_append_right _ _
    · split at h
      · obtain ⟨es, hes, rfl⟩ := Option.map_eq_some_iff.mp h
        exact (ih hes).cons_cons c
      · cases h

theorem forall₂_of_mapM {α β : Type} {f : α → Option β} {r : α → β → Prop} {as : List α}
    {bs : List β} (hf : ∀ a b, f a = some b → r a b) (h : as.mapM f = some bs) :
    List.Forall₂ r as bs := by
  induction as generalizing bs with
  | nil =>
    cases h
    exact .nil
  | cons a as ih =>
    rw [List.mapM_cons, Option.bind_eq_bind, Option.bind_eq_some_iff] at h
    obtain ⟨b, hb, h⟩ := h
    rw [Option.bind_eq_bind, Option.bind_eq_some_iff] at h
    obtain ⟨cs, hcs, h⟩ := h
    cases h
    exact .cons (hf a b hb) (ih hcs)

namespace Alignment

variable {row row' : Row} {rows rows' : List Row} {slot : Nat}

/-- Nothing of the lines is lost. -/
def Kept (lines aligned : List Line) : Prop :=
  List.Forall₂ Line.Keeps lines aligned

theorem Kept.exists_mem (h : Kept first second) (hline : line ∈ first) :
    ∃ aligned ∈ second, line.Keeps aligned := by
  induction h with
  | nil => cases hline
  | cons hkeeps _ ih =>
    rcases List.mem_cons.mp hline with rfl | hrest
    · exact ⟨_, List.mem_cons_self, hkeeps⟩
    · obtain ⟨aligned, hmem, hkeeps⟩ := ih hrest
      exact ⟨aligned, List.mem_cons_of_mem _ hmem, hkeeps⟩

theorem Kept.exists_getLast (h : Kept first second) (hline : line ∈ first.getLast?) :
    ∃ aligned ∈ second.getLast?, line.Keeps aligned := by
  induction h with
  | nil => cases hline
  | @cons head _ rest _ hkeeps hrest ih =>
    cases hrest with
    | nil =>
      obtain rfl : line = head := by simpa using hline.symm
      exact ⟨_, rfl, hkeeps⟩
    | cons hnext hmore =>
      rw [List.getLast?_cons_cons] at hline ⊢
      exact ih hline

/-- The relation holds between a line and what is made of it by putting in spaces at its anchors. -/
structure Tolerant (r : Line → Line → Prop) : Prop where
  refl : ∀ line, r line line
  trans : ∀ {first second third}, r first second → r second third → r first third
  pad : ∀ {line aligned : Line} {a : Anchor} {offset count : Nat}, a ∈ line.anchors →
    line.pad? offset count = some aligned → r line aligned

namespace Tolerant

variable {r : Line → Line → Prop} (h : Tolerant r)
include h

theorem all_refl (lines : List Line) : List.Forall₂ r lines lines :=
  List.forall₂_same.mpr fun line _ => h.refl line

theorem all_trans {third : List Line} (hfirst : List.Forall₂ r first second)
    (hsecond : List.Forall₂ r second third) : List.Forall₂ r first third := by
  induction hfirst generalizing third with
  | nil => exact hsecond
  | cons hline _ ih =>
    cases hsecond with
    | cons hnext hrest => exact .cons (h.trans hline hnext) (ih hrest)

theorem moveTo {target : Nat} (hmove : row.moveTo? kind slot target = some row') :
    r row.line row'.line := by
  unfold Row.moveTo? at hmove
  cases ha : row.line.anchor? kind slot with
  | none =>
    rw [ha] at hmove
    cases hmove
    exact h.refl _
  | some a =>
    rw [ha] at hmove
    simp only at hmove
    split at hmove
    · cases hmove
      exact h.refl _
    · obtain ⟨line, hline, rfl⟩ := Option.map_eq_some_iff.mp hmove
      exact h.pad (Line.anchor?_eq_some ha).1 hline

theorem alignSlot (hslot : alignSlot? kind slot rows = some rows') :
    List.Forall₂ r (rows.map (·.line)) (rows'.map (·.line)) := by
  unfold alignSlot? at hslot
  simp only at hslot
  split at hslot
  · cases hslot
    exact h.all_refl _
  · rw [List.forall₂_map_left_iff, List.forall₂_map_right_iff]
    exact forall₂_of_mapM (fun _ _ => h.moveTo) hslot

theorem alignSlots {count : Nat} (hslots : alignSlots? kind slot count rows = some rows') :
    List.Forall₂ r (rows.map (·.line)) (rows'.map (·.line)) := by
  induction count generalizing slot rows with
  | zero =>
    cases hslots
    exact h.all_refl _
  | succ count ih =>
    obtain ⟨between, hslot, hrest⟩ := Option.bind_eq_some_iff.mp hslots
    exact h.all_trans (h.alignSlot hslot) (ih hrest)

theorem alignGroup {aligned : List Line} (hgroup : alignGroup? kind lines = some aligned) :
    List.Forall₂ r lines aligned := by
  unfold alignGroup? at hgroup
  split at hgroup
  · cases hgroup
    exact h.all_refl _
  · obtain ⟨rows, hrows, rfl⟩ := Option.map_eq_some_iff.mp hgroup
    have hall := h.alignSlots hrows
    rw [List.map_map] at hall
    exact (List.map_id lines).symm ▸ hall

theorem align {aligned : List Line} (halign : align? kind lines = some aligned) :
    List.Forall₂ r lines aligned := by
  obtain ⟨groups, hgroups, rfl⟩ := Option.map_eq_some_iff.mp halign
  have hall := List.rel_flatten (forall₂_of_mapM (fun _ _ => h.alignGroup) hgroups)
  rwa [List.flatten_splitBy] at hall

/-- **What alignment keeps** line by line: whatever padding at an anchor keeps. -/
theorem alignAll {style : Style} {aligned : List Line}
    (halign : alignAll? style lines = some aligned) : List.Forall₂ r lines aligned := by
  have hpass : ∀ {wanted : Bool} {kind : AnchorKind} {lines aligned : List Line},
      (if wanted then align? kind lines else some lines) = some aligned →
        List.Forall₂ r lines aligned := by
    intro wanted kind lines aligned hpass
    cases wanted with
    | false =>
      cases hpass
      exact h.all_refl _
    | true => exact h.align hpass
  rw [alignAll?_eq] at halign
  obtain ⟨aliases, haliases, halign⟩ := Option.bind_eq_some_iff.mp halign
  obtain ⟨assigns, hassigns, halign⟩ := Option.bind_eq_some_iff.mp halign
  exact h.all_trans (h.all_trans (hpass haliases) (hpass hassigns)) (hpass halign)

end Tolerant

/-- Padding loses no character. -/
theorem tolerant_keeps : Tolerant Line.Keeps where
  refl := Line.Keeps.refl
  trans := List.Sublist.trans
  pad := by
    intro line aligned a offset count _ hpad
    obtain ⟨cs, hcs, rfl⟩ := Option.map_eq_some_iff.mp hpad
    change line.text.toList.Sublist (String.ofList cs).toList
    rw [String.toList_ofList]
    exact insertSpaces?_sublist hcs

/-- Alignment loses no character. -/
theorem keeps_alignAll {style : Style} {aligned : List Line}
    (h : alignAll? style lines = some aligned) : Kept lines aligned :=
  tolerant_keeps.alignAll h

/-- Padding leaves a line where it starts. -/
theorem tolerant_indent : Tolerant fun line aligned => line.indent = aligned.indent where
  refl _ := rfl
  trans := Eq.trans
  pad := by
    intro line aligned a offset count _ hpad
    obtain ⟨cs, -, rfl⟩ := Option.map_eq_some_iff.mp hpad
    rfl

/-- Alignment leaves the lines where they start. -/
theorem map_indent_alignAll {style : Style} {aligned : List Line}
    (h : alignAll? style lines = some aligned) : lines.map (·.indent) = aligned.map (·.indent) := by
  rw [← List.forall₂_eq_eq_eq, List.forall₂_map_left_iff, List.forall₂_map_right_iff]
  exact tolerant_indent.alignAll h

/-! ## One pass in parts -/

theorem mapM_append {α β : Type} (f : α → Option β) (as bs : List α) :
    (as ++ bs).mapM f = (as.mapM f).bind fun xs => (bs.mapM f).map fun ys => xs ++ ys := by
  rw [List.mapM_append]
  cases as.mapM f with
  | none => rfl
  | some xs => cases bs.mapM f <;> rfl

/-- Lines are aligned part by part if the parts have no group in common. -/
theorem align?_append (kind : AnchorKind)
    (hapart : ∀ a ∈ first.getLast?, ∀ b ∈ second.head?, together a b = false) :
    align? kind (first ++ second) =
      (align? kind first).bind fun xs => (align? kind second).map fun ys => xs ++ ys := by
  rw [align?, align?, align?, List.splitBy_append hapart, mapM_append]
  cases (first.splitBy together).mapM (alignGroup? kind) with
  | none => rfl
  | some xs =>
    cases (second.splitBy together).mapM (alignGroup? kind) with
    | none => rfl
    | some ys => simp

/-- A line without anchors changes nothing for the other lines of its group. -/
theorem alignGroup?_cons (kind : AnchorKind) (hplain : line.anchors = []) (lines : List Line) :
    alignGroup? kind (line :: lines) = (alignGroup? kind lines).map (line :: ·) := by
  have hanchor : ∀ slot, line.anchor? kind slot = none := by
    intro slot
    rw [Line.anchor?, hplain]
    rfl
  have hslot : ∀ slot (rows : List Row), alignSlot? kind slot (⟨line, 0⟩ :: rows) =
      (alignSlot? kind slot rows).map (⟨line, 0⟩ :: ·) := by
    intro slot rows
    have hcolumn : Row.column? ⟨line, 0⟩ kind slot = none := by rw [Row.column?, hanchor]; rfl
    have hmove : ∀ target, Row.moveTo? ⟨line, 0⟩ kind slot target = some ⟨line, 0⟩ := by
      intro target
      rw [Row.moveTo?, hanchor]
    unfold alignSlot?
    simp only [List.filterMap_cons, hcolumn]
    split
    · rfl
    · rw [List.mapM_cons, hmove, Option.bind_eq_bind, Option.bind_some]
      generalize rows.mapM (m := Option) _ = moved
      cases moved <;> rfl
  have hslots : ∀ count slot (rows : List Row), alignSlots? kind slot count (⟨line, 0⟩ :: rows) =
      (alignSlots? kind slot count rows).map (⟨line, 0⟩ :: ·) := by
    intro count
    induction count with
    | zero => exact fun _ _ => rfl
    | succ count ih =>
      intro slot rows
      rw [alignSlots?, alignSlots?, hslot]
      cases alignSlot? kind slot rows with
      | none => rfl
      | some rows => exact ih (slot + 1) rows
  have hslotsOf : slots kind (line :: lines) = slots kind lines := by
    simp [slots, hplain]
  unfold alignGroup?
  rw [hslotsOf]
  cases (slots kind lines).max? with
  | none => rfl
  | some last =>
    simp only [List.map_cons, hslots, Option.map_map]
    rfl

/-- A line without anchors above others changes nothing for them. -/
theorem align?_cons (kind : AnchorKind) (hplain : line.anchors = []) (lines : List Line) :
    align? kind (line :: lines) = (align? kind lines).map (line :: ·) := by
  have halone : align? kind [line] = some [line] := by
    have hgroup : alignGroup? kind [line] = some [line] := alignGroup?_cons kind hplain []
    rw [align?, List.splitBy_of_isChain (by simp) (by simp), List.mapM_cons, hgroup]
    rfl
  cases hgroups : lines.splitBy together with
  | nil =>
    obtain rfl : lines = [] := by rw [← List.flatten_splitBy together lines, hgroups]; rfl
    exact halone
  | cons group groups =>
    have hflatten : lines = group ++ groups.flatten := by
      rw [← List.flatten_splitBy together lines, hgroups]
      rfl
    have hmem : group ∈ lines.splitBy together := by
      rw [hgroups]
      exact List.mem_cons_self
    obtain ⟨head, tail, rfl⟩ := List.exists_cons_of_ne_nil (List.ne_nil_of_mem_splitBy hmem)
    cases htogether : together line head with
    | false =>
      -- the line is a group of its own
      have hapart : ∀ a ∈ [line].getLast?, ∀ b ∈ lines.head?, together a b = false := by
        intro a ha b hb
        obtain rfl : a = line := by simpa using ha.symm
        obtain rfl : b = head := by simpa [hflatten] using hb.symm
        exact htogether
      have hsplit := align?_append kind hapart
      rw [halone] at hsplit
      exact hsplit
    | true =>
      -- the line comes before the others of the first group
      have hwhole : (line :: lines).splitBy together = (line :: head :: tail) :: groups := by
        have hnil := List.nil_notMem_splitBy together lines
        have hchains : ∀ g ∈ lines.splitBy together, g.IsChain (together · ·) :=
          fun g hg => List.isChain_of_mem_splitBy hg
        have hlinks := List.isChain_getLast_head_splitBy together lines
        rw [hgroups] at hnil hchains hlinks
        have hline : line :: lines = ((line :: head :: tail) :: groups).flatten := by
          rw [hflatten]
          rfl
        rw [hline]
        refine List.splitBy_flatten ?_ ?_ ?_
        · simpa using hnil
        · rintro g (_ | ⟨_, hg⟩)
          · exact (hchains _ List.mem_cons_self).cons_cons htogether
          · exact hchains g (List.mem_cons_of_mem _ hg)
        · cases groups with
          | nil => simp
          | cons next more =>
            rw [List.isChain_cons_cons] at hlinks ⊢
            obtain ⟨⟨_, hnext, hlink⟩, hrest⟩ := hlinks
            refine ⟨⟨by simp, hnext, ?_⟩, hrest⟩
            rwa [List.getLast_cons (by simp)]
      rw [align?, align?, hwhole, hgroups, List.mapM_cons, List.mapM_cons, alignGroup?_cons kind hplain]
      cases alignGroup? kind (head :: tail) with
      | none => rfl
      | some aligned => cases groups.mapM (alignGroup? kind) <;> rfl

/-! ## All passes in parts -/

/-- What is done to lines is done part by part, and the lines between two parts stay. -/
def Splits (gap : List Line) (pass : List Line → Option (List Line)) : Prop :=
  ∀ first second, pass (first ++ gap ++ second) =
    (pass first).bind fun xs => (pass second).map fun ys => xs ++ gap ++ ys

theorem splits_some (gap : List Line) : Splits gap some := fun _ _ => rfl

theorem Splits.bind {gap : List Line} {pass next : List Line → Option (List Line)}
    (hpass : Splits gap pass) (hnext : Splits gap next) :
    Splits gap fun lines => (pass lines).bind next := by
  intro first second
  simp only [hpass first second]
  cases pass first with
  | none => rfl
  | some xs =>
    cases pass second with
    | none =>
      simp only [Option.bind_some, Option.map_none, Option.bind_none]
      cases next xs <;> rfl
    | some ys => exact hnext xs ys

/-- Empty lines separate what is aligned. -/
theorem splits_align (kind : AnchorKind) (n : Nat) :
    Splits (List.replicate (n + 1) (.empty 0)) (align? kind) := by
  intro first second
  have hgap : ∀ (count : Nat) (lines : List Line), align? kind (List.replicate count (.empty 0) ++ lines) =
      (align? kind lines).map (List.replicate count (.empty 0) ++ ·) := by
    intro count lines
    induction count with
    | zero => simp
    | succ count ih =>
      rw [List.replicate_succ, List.cons_append, align?_cons kind rfl, ih, Option.map_map]
      rfl
  rw [List.append_assoc, align?_append kind, hgap]
  · cases align? kind first with
    | none => rfl
    | some xs => cases align? kind second <;> simp
  · intro a _ b hb
    obtain rfl : b = .empty 0 := by simpa [List.replicate_succ] using hb.symm
    simp [together, Line.empty]

/-- **Parts with empty lines between them are aligned one by one.** Where nothing is aligned, no empty
line is needed. -/
theorem alignAll?_append {style : Style} {n : Nat}
    (h : 1 ≤ n ∨ (style.alignColumns = false ∧ style.alignAssignments = false ∧
      style.alignValues = false)) (first second : List Line) :
    alignAll? style (first ++ List.replicate n (.empty 0) ++ second) =
      (alignAll? style first).bind fun xs =>
        (alignAll? style second).map fun ys => xs ++ List.replicate n (.empty 0) ++ ys := by
  have hpass : ∀ (wanted : Bool) (kind : AnchorKind), 1 ≤ n ∨ wanted = false →
      Splits (List.replicate n (.empty 0)) fun lines =>
        if wanted then align? kind lines else some lines := by
    rintro wanted kind hwanted
    cases wanted with
    | false => exact splits_some _
    | true =>
      obtain ⟨n, rfl⟩ := Nat.exists_eq_add_of_le' (hwanted.resolve_right (by simp))
      exact splits_align kind n
  have hall := (hpass style.alignColumns .alias (h.imp_right (·.1))).bind
    ((hpass style.alignAssignments .assign (h.imp_right (·.2.1))).bind
      (hpass style.alignValues .value (h.imp_right (·.2.2))))
  have happend := hall first second
  simp only [alignAll?_eq]
  exact happend

end Alignment

end SqlFormat.Layout
