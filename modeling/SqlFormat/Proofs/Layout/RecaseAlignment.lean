import Mathlib
import SqlFormat.Proofs.Layout.Draft
import SqlFormat.Proofs.Layout.TwinAlignment

/-!
# Alignment in every case

Alignment asks how many bytes a character has, whether a line is empty, and for the anchors. A
letter has the same bytes in either case, so lines that show the same drafts are lined up alike:
with spaces at the same places, or not at all, where an anchor points into a character.

Results: `uniform_alignAll?`.
-/

namespace SqlFormat.Layout

open Text

/-! ## The same in every case -/

/-- How something of which the case of keywords is open is shown in a case, and the characters of
tokens in it. -/
structure Showing (δ α : Type) where
  shown : KeywordCase → δ → α
  marks : δ → List Cell

namespace Showing

variable {α β γ δ ε ζ : Type} {S : Showing δ α} {T : Showing ε β} {U : Showing ζ γ}
  {f : α → Option β} {g : β → Option γ} {d : δ} {ds : List δ}

/-- A list of such things. -/
def each (S : Showing δ α) : Showing (List δ) (List α) :=
  ⟨fun case => List.map (S.shown case), List.flatMap S.marks⟩

/-- Lines. -/
def line : Showing Draft Line := ⟨Draft.shown, Draft.marks⟩

/-- Lines and the numbers of spaces put into them so far. -/
def row : Showing (Draft × Nat) Alignment.Row :=
  ⟨fun case d => ⟨d.1.shown case, d.2⟩, fun d => d.1.marks⟩

/-- The function does the same in every case, and leaves the characters of tokens as they are. -/
def Uniform (S : Showing δ α) (T : Showing ε β) (f : α → Option β) (d : δ) : Prop :=
  ∃ r : Option ε, (∀ case, f (S.shown case d) = r.map (T.shown case)) ∧
    ∀ e ∈ r, T.marks e = S.marks d

theorem uniform_some : S.Uniform S some d :=
  ⟨some d, fun _ => rfl, fun e he => by rw [Option.mem_some_iff.mp he]⟩

theorem Uniform.bind (h : S.Uniform T f d) (hg : ∀ e, T.Uniform U g e) :
    S.Uniform U (fun a => (f a).bind g) d := by
  obtain ⟨r, hr, hmarks⟩ := h
  cases r with
  | none => exact ⟨none, fun case => congrArg (·.bind g) (hr case), by simp⟩
  | some e =>
    obtain ⟨r', hr', hmarks'⟩ := hg e
    refine ⟨r', fun case => ?_, fun z hz => ?_⟩
    · exact (congrArg (·.bind g) (hr case)).trans (hr' case)
    · rw [hmarks' z hz, hmarks e rfl]

theorem Uniform.ite (b : Prop) [Decidable b] {f' : α → Option β} (h : S.Uniform T f d)
    (h' : S.Uniform T f' d) : S.Uniform T (fun a => if b then f a else f' a) d := by
  by_cases hb : b
  · simpa only [if_pos hb] using h
  · simpa only [if_neg hb] using h'

/-- A function that does the same on every element does the same on the list. -/
theorem uniform_mapM (h : ∀ d, S.Uniform T f d) (ds : List δ) :
    S.each.Uniform T.each (List.mapM f) ds := by
  induction ds with
  | nil => exact ⟨some [], fun _ => rfl, fun es hes => by rw [← Option.mem_some_iff.mp hes]; rfl⟩
  | cons d ds ih =>
    obtain ⟨r, hr, hmarks⟩ := h d
    obtain ⟨rs, hrs, hmarks'⟩ := ih
    have hcons : ∀ case, (S.each.shown case (d :: ds)).mapM f =
        (r.map (T.shown case)).bind fun b =>
          (rs.map (T.each.shown case)).map (b :: ·) := by
      intro case
      rw [← hr, ← hrs]
      simp only [each, List.map_cons, List.mapM_cons]
      cases f (S.shown case d) with
      | none => rfl
      | some b => simp [Option.map_eq_bind, Function.comp_def]
    refine ⟨r.bind fun e => rs.map (e :: ·), fun case => ?_, fun es hes => ?_⟩
    · rw [hcons]
      cases r with
      | none => rfl
      | some e => cases rs <;> rfl
    · obtain ⟨e, he, hes⟩ := Option.bind_eq_some_iff.mp hes
      obtain ⟨es, hrest, rfl⟩ := Option.map_eq_some_iff.mp hes
      have hhead := hmarks e he
      have htail := hmarks' es hrest
      simp only [each] at htail ⊢
      rw [List.flatMap_cons, List.flatMap_cons, hhead, htail]

end Showing

open Showing

/-! ## Spaces -/

theorem insertSpaces?_zero (count : Nat) (cs : List Char) :
    insertSpaces? 0 count cs = some (List.replicate count ' ' ++ cs) := by
  cases cs with
  | nil => rw [List.append_nil]; rfl
  | cons c cs => rfl

/-- Spaces before everything. -/
theorem exists_insertSpaces_zero_shown (count : Nat) (cells : List Cell) :
    ∃ r : Option (List Cell),
      (∀ case, insertSpaces? 0 count (cells.map (·.shown case)) =
        r.map (List.map (·.shown case))) ∧
      ∀ next ∈ r, Cell.marks next = Cell.marks cells := by
  let spaces := Cell.all .layout (List.replicate count ' ')
  refine ⟨some (spaces ++ cells), fun case => ?_, fun next hnext => ?_⟩
  · rw [insertSpaces?_zero, Option.map_some, List.map_append, Cell.map_shown_all (by decide)]
  · rw [← Option.mem_some_iff.mp hnext, Cell.marks_append, Cell.marks_layout, List.nil_append]

/-- Spaces go between the same cells in every case. -/
theorem exists_insertSpaces_shown (offset count : Nat) (cells : List Cell) :
    ∃ r : Option (List Cell),
      (∀ case, insertSpaces? offset count (cells.map (·.shown case)) =
        r.map (List.map (·.shown case))) ∧
      ∀ next ∈ r, Cell.marks next = Cell.marks cells := by
  induction cells generalizing offset with
  | nil =>
    by_cases h : offset = 0
    · subst h
      exact exists_insertSpaces_zero_shown count []
    · exact ⟨none, fun case => if_neg h, by simp⟩
  | cons c cells ih =>
    have hsize : ∀ case, (c.shown case).utf8Size = c.char.utf8Size := fun case =>
      Cell.apply_shown ignoresCase_utf8Size case c
    by_cases h : offset = 0
    · subst h
      exact exists_insertSpaces_zero_shown count (c :: cells)
    · by_cases hle : c.char.utf8Size ≤ offset
      · obtain ⟨r, hr, hmarks⟩ := ih (offset - c.char.utf8Size)
        refine ⟨r.map (c :: ·), fun case => ?_, fun next hnext => ?_⟩
        · rw [List.map_cons, insertSpaces?, if_neg h, hsize, if_pos hle, hr, Option.map_map,
            Option.map_map]
          rfl
        · obtain ⟨next, hrest, rfl⟩ := Option.map_eq_some_iff.mp hnext
          rw [← List.singleton_append, Cell.marks_append, hmarks next hrest, ← Cell.marks_append,
            List.singleton_append]
      · refine ⟨none, fun case => ?_, by simp⟩
        rw [List.map_cons, insertSpaces?, if_neg h, hsize, if_neg hle]
        rfl

theorem uniform_pad? (offset count : Nat) (d : Draft) :
    line.Uniform line (·.pad? offset count) d := by
  obtain ⟨r, hr, hmarks⟩ := exists_insertSpaces_shown offset count d.cells
  refine ⟨r.map fun cells => { d with cells := cells }, fun case => ?_, fun e he => ?_⟩
  · simp only [line, Line.pad?, Draft.toList_shown, hr, Option.map_map]
    rfl
  · obtain ⟨cells, hcells, rfl⟩ := Option.map_eq_some_iff.mp he
    exact hmarks cells hcells

namespace Alignment

variable {kind : AnchorKind}

/-! ## One slot -/

theorem uniform_moveTo? (slot target : Nat) (d : Draft × Nat) :
    row.Uniform row (·.moveTo? kind slot target) d := by
  -- the anchors do not depend on the case
  have hanchor : ∀ case,
      (d.1.shown case).anchor? kind slot = (d.1.shown .preserve).anchor? kind slot := fun _ => rfl
  simp only [Uniform, row, Row.moveTo?, hanchor]
  cases (d.1.shown .preserve).anchor? kind slot with
  | none => exact uniform_some (S := row)
  | some a =>
    simp only
    by_cases hcount : target - (a.column + d.2) = 0
    · exact ⟨some d, fun case => if_pos hcount, fun e he => by rw [Option.mem_some_iff.mp he]⟩
    · obtain ⟨r, hr, hmarks⟩ := uniform_pad? (a.offset + d.2) (target - (a.column + d.2)) d.1
      refine ⟨r.map (·, d.2 + (target - (a.column + d.2))), fun case => (if_neg hcount).trans ?_,
        fun e he => ?_⟩
      · have hpad := hr case
        simp only [line] at hpad
        rw [hpad, Option.map_map, Option.map_map]
        rfl
      · obtain ⟨next, hnext, rfl⟩ := Option.map_eq_some_iff.mp he
        exact hmarks next hnext

theorem uniform_alignSlot? (slot : Nat) (ds : List (Draft × Nat)) :
    row.each.Uniform row.each (alignSlot? kind slot) ds := by
  have hcolumns : ∀ case, (row.each.shown case ds).filterMap (·.column? kind slot) =
      (row.each.shown .preserve ds).filterMap (·.column? kind slot) := by
    intro case
    simp only [each, List.filterMap_map]
    rfl
  simp only [Uniform, alignSlot?, hcolumns]
  split
  · exact uniform_some (S := row.each)
  · exact uniform_mapM (fun d => uniform_moveTo? slot _ d) ds

/-! ## All slots of a group -/

theorem uniform_alignSlots? (kind : AnchorKind) (slot count : Nat) (ds : List (Draft × Nat)) :
    row.each.Uniform row.each (alignSlots? kind slot count) ds := by
  induction count generalizing slot ds with
  | zero => exact uniform_some (S := row.each)
  | succ count ih => exact (uniform_alignSlot? slot ds).bind fun next => ih (slot + 1) next

theorem uniform_alignGroup? (kind : AnchorKind) (drafts : List Draft) :
    line.each.Uniform line.each (alignGroup? kind) drafts := by
  have hslots : ∀ case, slots kind (line.each.shown case drafts) =
      slots kind (line.each.shown .preserve drafts) := by
    intro case
    simp only [slots, each, List.flatMap_map]
    rfl
  simp only [Uniform, alignGroup?, hslots]
  cases (slots kind (line.each.shown .preserve drafts)).max? with
  | none => exact uniform_some (S := line.each)
  | some last =>
    obtain ⟨r, hr, hmarks⟩ := uniform_alignSlots? kind 0 (last + 1) (drafts.map (·, 0))
    refine ⟨r.map (List.map Prod.fst), fun case => ?_, fun e he => ?_⟩
    · have hrows : (line.each.shown case drafts).map (⟨·, 0⟩) =
          row.each.shown case (drafts.map (·, 0)) := by
        simp only [each, List.map_map]
        rfl
      simp only [hrows, hr, Option.map_map]
      refine congrArg (Option.map · r) (funext fun rows => ?_)
      simp only [each, Function.comp_apply, List.map_map]
      rfl
    · obtain ⟨rows, hrows, rfl⟩ := Option.map_eq_some_iff.mp he
      have hsame := hmarks rows hrows
      simp only [each, List.flatMap_map] at hsame ⊢
      exact hsame

/-! ## All groups and all kinds -/

/-- Lines are grouped by their drafts. -/
theorem splitBy_shown (case : KeywordCase) (drafts : List Draft) :
    (line.each.shown case drafts).splitBy together =
      line.each.each.shown case
        (drafts.splitBy fun d d' => together (d.shown .preserve) (d'.shown .preserve)) := by
  have hlines : List.Forall₂ (fun d l => Draft.shown case d = l) drafts
      (line.each.shown case drafts) := by
    rw [← List.forall₂_map_left_iff (f := Draft.shown case), List.forall₂_eq_eq_eq]
    rfl
  have hgroups := forall₂_splitBy (g := together)
    (f := fun d d' => together (d.shown .preserve) (d'.shown .preserve)) hlines
    fun d l hl d' l' hl' => by
      rw [← hl, ← hl', together, together, Draft.isEmpty_shown, Draft.isEmpty_shown]
      rfl
  have hinner : ∀ (ds : List Draft) (ls : List Line),
      List.Forall₂ (fun d l => Draft.shown case d = l) ds ls → line.each.shown case ds = ls := by
    intro ds ls h
    rw [← List.forall₂_map_left_iff (f := Draft.shown case), List.forall₂_eq_eq_eq] at h
    exact h
  have houter := hgroups.imp hinner
  rw [← List.forall₂_map_left_iff (f := line.each.shown case), List.forall₂_eq_eq_eq] at houter
  exact houter.symm

theorem uniform_align? (drafts : List Draft) :
    line.each.Uniform line.each (align? kind) drafts := by
  let groups := drafts.splitBy fun d d' => together (d.shown .preserve) (d'.shown .preserve)
  obtain ⟨r, hr, hmarks⟩ := uniform_mapM (uniform_alignGroup? kind) groups
  refine ⟨r.map List.flatten, fun case => ?_, fun e he => ?_⟩
  · rw [align?, splitBy_shown, hr, Option.map_map, Option.map_map]
    refine congrArg (Option.map · r) (funext fun next => ?_)
    simp only [each, Function.comp_apply, List.map_flatten]
  · obtain ⟨next, hnext, rfl⟩ := Option.map_eq_some_iff.mp he
    have hsame := hmarks next hnext
    simp only [each] at hsame ⊢
    have hflat : ∀ groups : List (List Draft), groups.flatten.flatMap line.marks =
        groups.flatMap (List.flatMap line.marks) := by
      intro groups
      rw [← List.flatMap_id, List.flatMap_assoc]
      rfl
    rw [hflat, hsame, ← hflat, List.flatten_splitBy]

/-- **Lines are lined up alike in every case**, or in no case. -/
theorem uniform_alignAll? (style : Style) (drafts : List Draft) :
    line.each.Uniform line.each (alignAll? style) drafts := by
  have hpass : ∀ (wanted : Bool) (kind : AnchorKind) (drafts : List Draft),
      line.each.Uniform line.each
        (fun lines => if wanted = true then align? kind lines else some lines) drafts := by
    intro wanted kind drafts
    exact .ite _ (uniform_align? drafts) uniform_some
  have heq : alignAll? style = fun lines =>
      ((if style.alignColumns then align? .alias lines else some lines).bind fun lines =>
        if style.alignAssignments then align? .assign lines else some lines).bind fun lines =>
          if style.alignValues then align? .value lines else some lines := by
    funext lines
    rw [alignAll?_eq, Option.bind_assoc]
  rw [heq]
  exact ((hpass _ _ drafts).bind (hpass _ _)).bind (hpass _ _)

end Alignment

end SqlFormat.Layout
