import Mathlib
import SqlFormat.Proofs.Layout.Alignment

/-!
# The columns that alignment makes

One pass over lines that belong together, for one kind of anchor. The spaces that are put into a line
are followed as a function from places to numbers beside the text, since that says at once what a pass
leaves as it is: the places of lower slots keep their spaces, and so the columns they have got.

After the pass every slot that two lines have stands in one column on all of them, the least one that
is possible with the spaces of the lower slots.

Results: `Alignment.alignSlots?_eq` (the pass on spaces), `Alignment.exists_linedUp`.
-/

namespace SqlFormat.Text

/-- The spaces put in before the byte `o`. -/
def spacesTo (pads : Nat → Nat) (o : Nat) : Nat :=
  ∑ i ∈ Finset.range o, pads i

variable {pads pads' : Nat → Nat} {o count start : Nat} {xs ys : List Char}

theorem spacesTo_succ (pads : Nat → Nat) (o : Nat) :
    spacesTo pads (o + 1) = spacesTo pads o + pads o :=
  Finset.sum_range_succ pads o

/-- Spaces at a place count for what is behind it. -/
theorem spacesTo_update (pads : Nat → Nat) (place count o : Nat) :
    spacesTo (Function.update pads place (pads place + count)) o =
      spacesTo pads o + if place < o then count else 0 := by
  induction o with
  | zero => rfl
  | succ o ih =>
    rw [spacesTo_succ, spacesTo_succ, ih]
    obtain hlt | rfl | hgt := lt_trichotomy place o
    · rw [if_pos hlt, if_pos (by omega), Function.update_of_ne hlt.ne']
      omega
    · rw [if_neg (lt_irrefl place), if_pos (by omega), Function.update_self]
      omega
    · rw [if_neg (by omega), if_neg (by omega), Function.update_of_ne hgt.ne]
      omega

/-- A text is spread part by part; the spaces where the parts meet stand with the first. -/
theorem spread_parts (pads : Nat → Nat) (start : Nat) (xs ys : List Char) :
    spread pads start (xs ++ ys) = spread pads start xs ++
      spread (Function.update pads (start + byteLength xs) 0) (start + byteLength xs) ys := by
  induction xs generalizing start with
  | nil =>
    cases ys with
    | nil => simp [spread, byteLength]
    | cons y ys =>
      have hpos := y.utf8Size_pos
      have hrest : spread (Function.update pads start 0) (start + y.utf8Size) ys =
          spread pads (start + y.utf8Size) ys :=
        spread_congr ys fun i hi => Function.update_of_ne (by omega) _ _
      simp [spread, byteLength, hrest]
  | cons x xs ih =>
    rw [List.cons_append, spread, spread, ih, byteLength, Nat.add_assoc]
    simp

theorem spacesTo_eq_of_le {place : Nat} (hle : place ≤ o) (h : ∀ i, place ≤ i → i < o → pads i = 0) :
    spacesTo pads o = spacesTo pads place := by
  induction o, hle using Nat.le_induction with
  | base => rfl
  | succ o hle ih =>
    rw [spacesTo_succ, h o hle o.lt_succ_self, Nat.add_zero,
      ih fun i hi hlt => h i hi (Nat.lt_succ_of_lt hlt)]

/-- Spaces between characters make a text longer by as many. -/
theorem length_spread (h : ∀ i, start ≤ i → i ≤ start + byteLength xs → pads i ≠ 0 →
      ∃ before after, xs = before ++ after ∧ i = start + byteLength before) :
    (spread pads start xs).length + spacesTo pads start =
      xs.length + spacesTo pads (start + byteLength xs + 1) := by
  induction xs generalizing start with
  | nil =>
    simp [spread, byteLength, spacesTo_succ]
    omega
  | cons x xs ih =>
    have hpos := x.utf8Size_pos
    have hinside : ∀ i, start + 1 ≤ i → i < start + x.utf8Size → pads i = 0 := by
      intro i hlt hlt'
      by_contra hne
      obtain ⟨before, after, hsplit, rfl⟩ := h i (by omega) (by simp only [byteLength]; omega) hne
      cases before with
      | nil => simp [byteLength] at hlt
      | cons b before =>
        obtain ⟨rfl, -⟩ := List.cons.inj hsplit
        simp only [byteLength] at hlt'
        omega
    have hplaces : ∀ i, start + x.utf8Size ≤ i → i ≤ start + x.utf8Size + byteLength xs →
        pads i ≠ 0 →
          ∃ before after, xs = before ++ after ∧ i = start + x.utf8Size + byteLength before := by
      intro i hle hle' hne
      obtain ⟨before, after, hsplit, rfl⟩ := h i (by omega) (by simp only [byteLength]; omega) hne
      cases before with
      | nil => simp only [byteLength] at hle; omega
      | cons b before =>
        obtain ⟨rfl, htail⟩ := List.cons.inj hsplit
        exact ⟨before, after, htail, by simp only [byteLength]; omega⟩
    have hrest := ih hplaces
    have hfirst : spacesTo pads (start + x.utf8Size) = spacesTo pads (start + 1) :=
      spacesTo_eq_of_le (by omega) hinside
    rw [hfirst, spacesTo_succ] at hrest
    rw [spread, byteLength, ← Nat.add_assoc start, List.length_append, List.length_replicate,
      List.length_cons, List.length_cons]
    omega

end SqlFormat.Text

namespace SqlFormat.Layout

open Text

/-- On the line the anchors of a kind have slots of their own, and those of higher slots stand further
to the right. -/
structure Line.Ranked (kind : AnchorKind) (line : Line) : Prop where
  single : ∀ a ∈ line.anchors, ∀ b ∈ line.anchors, a.kind = kind → b.kind = kind →
    a.slot = b.slot → a = b
  offsets : ∀ a ∈ line.anchors, ∀ b ∈ line.anchors, a.kind = kind → b.kind = kind →
    a.slot < b.slot → a.offset < b.offset

instance (kind : AnchorKind) (line : Line) : Decidable (line.Ranked kind) :=
  decidable_of_iff (_ ∧ _) ⟨fun h => ⟨h.1, h.2⟩, fun h => ⟨h.single, h.offsets⟩⟩

theorem Line.Ranked.lt {kind : AnchorKind} {line : Line} (h : line.Ranked kind) {slot slot' : Nat}
    {a b : Anchor} (ha : line.anchor? kind slot = some a) (hb : line.anchor? kind slot' = some b)
    (hlt : slot < slot') : a.offset < b.offset := by
  obtain ⟨hma, hka, rfl⟩ := Line.anchor?_eq_some ha
  obtain ⟨hmb, hkb, rfl⟩ := Line.anchor?_eq_some hb
  exact h.offsets a hma b hmb hka hkb hlt

namespace Alignment

variable {kind : AnchorKind} {slot slot' : Nat}

/-! ## Lines and their spaces -/

/-- A line and the spaces that are put into it, by the bytes before them. -/
structure Spaced where
  line : Line
  pads : Nat → Nat

namespace Spaced

variable {spaced : Spaced} {a b : Anchor}

/-- The line with its spaces. -/
def result (spaced : Spaced) : Line :=
  spaced.line.spread spaced.pads

/-- The column that an anchor has by the spaces of the places before it. -/
def reach (spaced : Spaced) (a : Anchor) : Nat :=
  a.column + spacesTo spaced.pads a.offset

/-- The column of an anchor in the line with its spaces. -/
def column (spaced : Spaced) (a : Anchor) : Nat :=
  a.column + spacesTo spaced.pads (a.offset + 1)

theorem column_eq (spaced : Spaced) (a : Anchor) :
    spaced.column a = spaced.reach a + spaced.pads a.offset := by
  rw [column, spacesTo_succ, reach, Nat.add_assoc]

/-- More spaces before an anchor. -/
def pad (spaced : Spaced) (a : Anchor) (count : Nat) : Spaced :=
  { spaced with pads := Function.update spaced.pads a.offset (spaced.pads a.offset + count) }

/-- Put spaces before a slot up to a column. -/
def move (kind : AnchorKind) (slot target : Nat) (spaced : Spaced) : Spaced :=
  match spaced.line.anchor? kind slot with
  | none => spaced
  | some a => spaced.pad a (target - spaced.reach a)

theorem move_none (h : spaced.line.anchor? kind slot = none) (target : Nat) :
    spaced.move kind slot target = spaced := by
  rw [move, h]

theorem move_some (h : spaced.line.anchor? kind slot = some a) (target : Nat) :
    spaced.move kind slot target = spaced.pad a (target - spaced.reach a) := by
  rw [move, h]

@[simp] theorem move_line (kind : AnchorKind) (slot target : Nat) (spaced : Spaced) :
    (spaced.move kind slot target).line = spaced.line := by
  unfold move
  split <;> rfl

/-- Spaces at a place move what stands behind it. -/
theorem reach_pad (count : Nat) (hle : b.offset ≤ a.offset) :
    (spaced.pad a count).reach b = spaced.reach b := by
  rw [reach, pad, spacesTo_update, if_neg (by omega)]
  rfl

theorem pads_pad_self (spaced : Spaced) (a : Anchor) (count : Nat) :
    (spaced.pad a count).pads a.offset = spaced.pads a.offset + count :=
  Function.update_self ..

theorem pads_pad_of_ne (count : Nat) (hne : b.offset ≠ a.offset) :
    (spaced.pad a count).pads b.offset = spaced.pads b.offset :=
  Function.update_of_ne hne _ _

/-- The anchors of lower slots keep their columns and their spaces. -/
theorem move_of_lt (hranked : spaced.line.Ranked kind) (target : Nat) (hlt : slot < slot')
    (ha : spaced.line.anchor? kind slot = some a) :
    (spaced.move kind slot' target).reach a = spaced.reach a ∧
      (spaced.move kind slot' target).pads a.offset = spaced.pads a.offset := by
  unfold move
  split
  · exact ⟨rfl, rfl⟩
  · next b hb =>
    have hoffset := hranked.lt ha hb hlt
    exact ⟨reach_pad _ hoffset.le, pads_pad_of_ne _ hoffset.ne⟩

/-- All spaces stand at anchors of lower slots. -/
def Below (kind : AnchorKind) (slot : Nat) (spaced : Spaced) : Prop :=
  ∀ o, spaced.pads o ≠ 0 → ∃ a ∈ spaced.line.anchors, a.kind = kind ∧ a.slot < slot ∧ a.offset = o

namespace Below

theorem lt (h : spaced.Below kind slot) (hranked : spaced.line.Ranked kind) (hle : slot ≤ slot')
    (hb : spaced.line.anchor? kind slot' = some b) {o : Nat} (ho : spaced.pads o ≠ 0) :
    o < b.offset := by
  obtain ⟨a, ha, hkind, hlt, rfl⟩ := h o ho
  obtain ⟨hmem, hkind', rfl⟩ := Line.anchor?_eq_some hb
  exact hranked.offsets a ha b hmem hkind hkind' (hlt.trans_le hle)

theorem pads_eq_zero (h : spaced.Below kind slot) (hranked : spaced.line.Ranked kind)
    (ha : spaced.line.anchor? kind slot = some a) : spaced.pads a.offset = 0 := by
  by_contra hne
  exact lt_irrefl _ (h.lt hranked le_rfl ha hne)

theorem mono (h : spaced.Below kind slot) (hle : slot ≤ slot') : spaced.Below kind slot' := by
  intro o ho
  obtain ⟨a, ha, hkind, hlt, hoffset⟩ := h o ho
  exact ⟨a, ha, hkind, hlt.trans_le hle, hoffset⟩

theorem move (h : spaced.Below kind slot) (target : Nat) :
    (spaced.move kind slot target).Below kind (slot + 1) := by
  unfold Spaced.move
  split
  · exact h.mono (Nat.le_succ slot)
  · next a ha =>
    intro o ho
    by_cases heq : o = a.offset
    · obtain ⟨hmem, hkind, hslot⟩ := Line.anchor?_eq_some ha
      exact ⟨a, hmem, hkind, by omega, heq.symm⟩
    · exact h.mono (Nat.le_succ slot) o ((Function.update_of_ne heq _ _).symm.trans_ne ho)

end Below

end Spaced

/-! ## One slot -/

/-- The columns at which lines have a slot. -/
def columnsOf (kind : AnchorKind) (slot : Nat) (lines : List Spaced) : List Nat :=
  lines.filterMap fun spaced => (spaced.line.anchor? kind slot).map spaced.reach

/-- Line up one slot, if at least two lines have it. -/
def spaceSlot (kind : AnchorKind) (slot : Nat) (lines : List Spaced) : List Spaced :=
  if (columnsOf kind slot lines).length < 2 then lines
  else lines.map (·.move kind slot ((columnsOf kind slot lines).foldl max 0))

/-- Line up the slots from `slot` on, `count` of them. -/
def spaceSlots (kind : AnchorKind) : (slot count : Nat) → List Spaced → List Spaced
  | _, 0, lines => lines
  | slot, count + 1, lines => spaceSlots kind (slot + 1) count (spaceSlot kind slot lines)

variable {lines : List Spaced} {spaced : Spaced} {row : Row} {rows : List Row}

/-- The row is the line with its spaces, all of which stand at anchors of lower slots. -/
structure Tracks (kind : AnchorKind) (slot : Nat) (spaced : Spaced) (row : Row) : Prop where
  line : row.line = spaced.result
  bytes : byteLength (spread spaced.pads 0 spaced.line.text.toList) =
    byteLength spaced.line.text.toList + row.shift
  total : ∀ o, (∀ o', spaced.pads o' ≠ 0 → o' < o) → spacesTo spaced.pads o = row.shift
  below : spaced.Below kind slot

namespace Tracks

theorem anchor? (h : Tracks kind slot spaced row) (slot' : Nat) :
    row.line.anchor? kind slot' = spaced.line.anchor? kind slot' := by
  rw [h.line]
  rfl

theorem reach_eq (h : Tracks kind slot spaced row) (hranked : spaced.line.Ranked kind) {a : Anchor}
    (ha : spaced.line.anchor? kind slot = some a) : spaced.reach a = a.column + row.shift := by
  rw [Spaced.reach, h.total a.offset fun o ho => h.below.lt hranked le_rfl ha ho]

theorem column?_eq (h : Tracks kind slot spaced row) (hranked : spaced.line.Ranked kind) :
    row.column? kind slot = (spaced.line.anchor? kind slot).map spaced.reach := by
  rw [Row.column?, h.anchor?]
  cases ha : spaced.line.anchor? kind slot with
  | none => rfl
  | some a => exact congrArg some (h.reach_eq hranked ha).symm

theorem next (h : Tracks kind slot spaced row) : Tracks kind (slot + 1) spaced row :=
  { h with below := h.below.mono (Nat.le_succ slot) }

/-- A move puts in the spaces that it is to put in. -/
theorem move (h : Tracks kind slot spaced row) (hanchored : spaced.line.Anchored kind)
    (hranked : spaced.line.Ranked kind) (target : Nat) :
    ∃ row', row.moveTo? kind slot target = some row' ∧
      Tracks kind (slot + 1) (spaced.move kind slot target) row' := by
  have hbelow := h.below.move target
  cases ha : spaced.line.anchor? kind slot with
  | none =>
    refine ⟨row, by rw [Row.moveTo?, h.anchor?, ha], ?_⟩
    rw [Spaced.move_none ha]
    exact h.next
  | some a =>
    obtain ⟨hmove, hbytes⟩ := moveTo?_eq ha (hanchored.cutAt ha) h.line h.bytes
      (fun o ho => (h.below.lt hranked le_rfl ha ho).le) target
    rw [← h.reach_eq hranked ha] at hmove hbytes
    rw [Spaced.move_some ha] at hbelow ⊢
    refine ⟨_, hmove, rfl, hbytes, fun o ho => ?_, hbelow⟩
    generalize target - spaced.reach a = count at ho
    have hold : ∀ o', spaced.pads o' ≠ 0 → o' < o := fun o' hne => by
      have hlt := h.below.lt hranked le_rfl ha hne
      exact ho o' ((Function.update_of_ne hlt.ne _ _).trans_ne hne)
    have hplace : count ≠ 0 → a.offset < o := fun hne =>
      ho a.offset ((Function.update_self ..).trans_ne (by omega))
    change spacesTo (Function.update _ _ (_ + count)) o = row.shift + count
    rw [spacesTo_update, h.total o hold]
    split <;> omega

end Tracks

/-- What a pass asks of lines, for one kind of anchor. -/
def Workable (kind : AnchorKind) (lines : List Spaced) : Prop :=
  ∀ spaced ∈ lines, spaced.line.Anchored kind ∧ spaced.line.Ranked kind

theorem columnsOf_eq (hwork : Workable kind lines)
    (h : List.Forall₂ (Tracks kind slot) lines rows) :
    rows.filterMap (·.column? kind slot) = columnsOf kind slot lines := by
  induction h with
  | nil => rfl
  | @cons spaced row lines rows hrow _ ih =>
    obtain ⟨-, hranked⟩ := hwork spaced List.mem_cons_self
    have hrest := ih fun spaced hmem => hwork spaced (List.mem_cons_of_mem _ hmem)
    rw [List.filterMap_cons, hrow.column?_eq hranked, hrest, columnsOf, columnsOf,
      List.filterMap_cons]

theorem workable_spaceSlot (hwork : Workable kind lines) (slot : Nat) :
    Workable kind (spaceSlot kind slot lines) := by
  unfold spaceSlot
  split
  · exact hwork
  · intro moved hmem
    obtain ⟨spaced, hspaced, rfl⟩ := List.mem_map.mp hmem
    rw [Spaced.move_line]
    exact hwork spaced hspaced

/-- Lining up one slot of the rows puts the spaces into the lines. -/
theorem alignSlot?_eq (hwork : Workable kind lines)
    (h : List.Forall₂ (Tracks kind slot) lines rows) :
    ∃ rows', alignSlot? kind slot rows = some rows' ∧
      List.Forall₂ (Tracks kind (slot + 1)) (spaceSlot kind slot lines) rows' := by
  unfold alignSlot? spaceSlot
  simp only [columnsOf_eq hwork h]
  split
  · exact ⟨rows, rfl, h.imp fun spaced row => Tracks.next⟩
  · generalize (columnsOf kind slot lines).foldl max 0 = target
    obtain ⟨rows', hrows', hall⟩ := exists_mapM h fun spaced hmem row hrow =>
      hrow.move (hwork spaced hmem).1 (hwork spaced hmem).2 target
    exact ⟨rows', hrows', List.forall₂_map_left_iff.mpr hall⟩

/-- Lining up slots of the rows puts the spaces into the lines. -/
theorem alignSlots?_eq (hwork : Workable kind lines)
    (h : List.Forall₂ (Tracks kind slot) lines rows) (count : Nat) :
    ∃ rows', alignSlots? kind slot count rows = some rows' ∧
      List.Forall₂ (Tracks kind (slot + count)) (spaceSlots kind slot count lines) rows' := by
  induction count generalizing slot lines rows with
  | zero => exact ⟨rows, rfl, h⟩
  | succ count ih =>
    obtain ⟨rows', hslot, hrows'⟩ := alignSlot?_eq hwork h
    obtain ⟨rows'', hslots, hrows''⟩ := ih (workable_spaceSlot hwork slot) hrows'
    refine ⟨rows'', by rw [alignSlots?, hslot]; exact hslots, ?_⟩
    rwa [show slot + (count + 1) = slot + 1 + count by omega]

/-! ## What is lined up -/

/-- On every line that has the slot, its anchor is as stated. -/
def EachAt (kind : AnchorKind) (slot : Nat) (lines : List Spaced) (p : Spaced → Anchor → Prop) :
    Prop :=
  ∀ spaced ∈ lines, ∀ a, spaced.line.anchor? kind slot = some a → p spaced a

/-- Two lines or more have the slot. -/
def Shared (kind : AnchorKind) (slot : Nat) (lines : List Spaced) : Prop :=
  2 ≤ lines.countP fun spaced => (spaced.line.anchor? kind slot).isSome

/-- The slot is lined up: if two lines have it, it stands in one column on all lines that have it, the
least one that is not left of any of them with the spaces before it; else no spaces stand there. -/
structure LinedUp (kind : AnchorKind) (slot : Nat) (lines : List Spaced) : Prop where
  shared : Shared kind slot lines → ∃ target,
    IsLeast {c | EachAt kind slot lines fun spaced a => spaced.reach a ≤ c} target ∧
      EachAt kind slot lines fun spaced a => spaced.column a = target
  alone : ¬Shared kind slot lines → EachAt kind slot lines fun spaced a => spaced.pads a.offset = 0

theorem eachAt_map_iff {f : Spaced → Spaced} (hline : ∀ spaced, (f spaced).line = spaced.line)
    {p q : Spaced → Anchor → Prop}
    (h : ∀ spaced ∈ lines, ∀ a, spaced.line.anchor? kind slot = some a →
      (p (f spaced) a ↔ q spaced a)) :
    EachAt kind slot (lines.map f) p ↔ EachAt kind slot lines q := by
  unfold EachAt
  rw [List.forall_mem_map]
  refine forall₂_congr fun spaced hmem => ?_
  rw [hline]
  exact forall₂_congr fun a ha => h spaced hmem a ha

theorem shared_map_iff {f : Spaced → Spaced} (hline : ∀ spaced, (f spaced).line = spaced.line) :
    Shared kind slot (lines.map f) ↔ Shared kind slot lines := by
  unfold Shared
  rw [List.countP_map]
  simp only [Function.comp_def, hline]

/-- A slot stays lined up while columns and spaces at it stay. -/
theorem LinedUp.map {f : Spaced → Spaced} (h : LinedUp kind slot lines)
    (hline : ∀ spaced, (f spaced).line = spaced.line)
    (hsame : ∀ spaced ∈ lines, ∀ a, spaced.line.anchor? kind slot = some a →
      (f spaced).reach a = spaced.reach a ∧ (f spaced).pads a.offset = spaced.pads a.offset) :
    LinedUp kind slot (lines.map f) where
  shared hshared := by
    obtain ⟨target, hleast, hcolumn⟩ := h.shared ((shared_map_iff hline).mp hshared)
    refine ⟨target, ?_, (eachAt_map_iff hline fun spaced hmem a ha => ?_).mpr hcolumn⟩
    · have hset : ∀ c, EachAt kind slot (lines.map f) (fun spaced a => spaced.reach a ≤ c) ↔
          EachAt kind slot lines fun spaced a => spaced.reach a ≤ c := fun c =>
        eachAt_map_iff hline fun spaced hmem a ha => by rw [(hsame spaced hmem a ha).1]
      simpa only [hset] using hleast
    · obtain ⟨hreach, hpads⟩ := hsame spaced hmem a ha
      rw [Spaced.column_eq, Spaced.column_eq, hreach, hpads]
  alone halone := by
    refine (eachAt_map_iff hline fun spaced hmem a ha => ?_).mpr
      (h.alone fun hshared => halone ((shared_map_iff hline).mpr hshared))
    rw [(hsame spaced hmem a ha).2]

theorem length_columnsOf (kind : AnchorKind) (slot : Nat) (lines : List Spaced) :
    (columnsOf kind slot lines).length =
      lines.countP fun spaced => (spaced.line.anchor? kind slot).isSome := by
  rw [columnsOf, List.length_filterMap_eq_countP]
  simp only [Option.isSome_map]

theorem mem_columnsOf {c : Nat} : c ∈ columnsOf kind slot lines ↔
    ∃ spaced ∈ lines, ∃ a, spaced.line.anchor? kind slot = some a ∧ spaced.reach a = c := by
  simp only [columnsOf, List.mem_filterMap, Option.map_eq_some_iff]

/-- The greatest column of a slot is the least one that is not left of any. -/
theorem isLeast_foldl_max (kind : AnchorKind) (slot : Nat) (lines : List Spaced) :
    IsLeast {c | EachAt kind slot lines fun spaced a => spaced.reach a ≤ c}
      ((columnsOf kind slot lines).foldl max 0) := by
  have hbound : ∀ c, (columnsOf kind slot lines).foldl max 0 ≤ c ↔
      EachAt kind slot lines fun spaced a => spaced.reach a ≤ c := by
    intro c
    rw [foldl_max_le_iff, and_iff_right (Nat.zero_le c)]
    constructor
    · exact fun h spaced hmem a ha => h _ (mem_columnsOf.mpr ⟨spaced, hmem, a, ha, rfl⟩)
    · intro h c hc
      obtain ⟨spaced, hmem, a, ha, rfl⟩ := mem_columnsOf.mp hc
      exact h spaced hmem a ha
  exact ⟨(hbound _).mp le_rfl, fun c hc => (hbound c).mpr hc⟩

/-- One step lines up its slot. -/
theorem linedUp_spaceSlot (hwork : Workable kind lines)
    (hbelow : ∀ spaced ∈ lines, spaced.Below kind slot) :
    LinedUp kind slot (spaceSlot kind slot lines) := by
  have hzero : ∀ spaced ∈ lines, ∀ a, spaced.line.anchor? kind slot = some a →
      spaced.pads a.offset = 0 := fun spaced hmem a ha =>
    (hbelow spaced hmem).pads_eq_zero (hwork spaced hmem).2 ha
  unfold spaceSlot
  rw [length_columnsOf]
  split
  · next hfew => exact ⟨fun hshared => absurd hshared (by rw [Shared]; omega), fun _ => hzero⟩
  · next hmany =>
    have hleast := isLeast_foldl_max kind slot lines
    generalize (columnsOf kind slot lines).foldl max 0 = target at hleast
    have hline : ∀ spaced : Spaced, (spaced.move kind slot target).line = spaced.line :=
      Spaced.move_line kind slot target
    have hreach : ∀ spaced ∈ lines, ∀ a, spaced.line.anchor? kind slot = some a →
        (spaced.move kind slot target).reach a = spaced.reach a := fun spaced _ a ha => by
      rw [Spaced.move_some ha, Spaced.reach_pad _ le_rfl]
    refine ⟨fun _ => ⟨target, ?_, ?_⟩, fun halone => absurd ((shared_map_iff hline).mpr ?_) halone⟩
    · have hset : ∀ c, EachAt kind slot (lines.map (·.move kind slot target))
          (fun spaced a => spaced.reach a ≤ c) ↔
          EachAt kind slot lines fun spaced a => spaced.reach a ≤ c := fun c =>
        eachAt_map_iff hline fun spaced hmem a ha => by rw [hreach spaced hmem a ha]
      simpa only [hset] using hleast
    · refine (eachAt_map_iff hline fun spaced hmem a ha => ?_).mpr hleast.1
      have hle : spaced.reach a ≤ target := hleast.1 spaced hmem a ha
      have hpads : (spaced.move kind slot target).pads a.offset = target - spaced.reach a := by
        rw [Spaced.move_some ha, Spaced.pads_pad_self, hzero spaced hmem a ha, Nat.zero_add]
      rw [Spaced.column_eq, hreach spaced hmem a ha, hpads]
      exact iff_of_true (by omega) hle
    · exact Nat.le_of_not_lt hmany

/-- Later steps leave a slot as it is. -/
theorem LinedUp.spaceSlot (h : LinedUp kind slot lines) (hwork : Workable kind lines)
    (hlt : slot < slot') : LinedUp kind slot (Alignment.spaceSlot kind slot' lines) := by
  unfold Alignment.spaceSlot
  split
  · exact h
  · exact h.map (Spaced.move_line kind slot' _) fun spaced hmem a ha =>
      Spaced.move_of_lt (hwork spaced hmem).2 _ hlt ha

theorem below_spaceSlot (hbelow : ∀ spaced ∈ lines, spaced.Below kind slot) :
    ∀ spaced ∈ spaceSlot kind slot lines, spaced.Below kind (slot + 1) := by
  unfold spaceSlot
  split
  · exact fun spaced hmem => (hbelow spaced hmem).mono (Nat.le_succ slot)
  · rw [List.forall_mem_map]
    exact fun spaced hmem => (hbelow spaced hmem).move _

theorem below_spaceSlots (hbelow : ∀ spaced ∈ lines, spaced.Below kind slot) (count : Nat) :
    ∀ spaced ∈ spaceSlots kind slot count lines, spaced.Below kind (slot + count) := by
  induction count generalizing slot lines with
  | zero => exact hbelow
  | succ count ih =>
    rw [show slot + (count + 1) = slot + 1 + count by omega]
    exact ih (below_spaceSlot hbelow)

/-- A run lines up all its slots, and leaves those before it as they are. -/
theorem linedUp_spaceSlots (hwork : Workable kind lines)
    (hbelow : ∀ spaced ∈ lines, spaced.Below kind slot)
    (hdone : ∀ slot' < slot, LinedUp kind slot' lines) (count : Nat) :
    ∀ slot' < slot + count, LinedUp kind slot' (spaceSlots kind slot count lines) := by
  induction count generalizing slot lines with
  | zero => exact hdone
  | succ count ih =>
    intro slot' hlt
    refine ih (workable_spaceSlot hwork slot) (below_spaceSlot hbelow) (fun done hle => ?_) slot'
      (by omega)
    obtain hlt | rfl := Nat.lt_succ_iff_lt_or_eq.mp hle
    · exact (hdone done hlt).spaceSlot hwork hlt
    · exact linedUp_spaceSlot hwork hbelow

/-! ## The pass -/

/-- Spaces are put in before anchors of the kind, and nothing else is changed. Up to an anchor the
text grows by as much as its column does. -/
structure Spaced.Inserted (kind : AnchorKind) (spaced : Spaced) : Prop where
  places : spaced.line.At [kind] spaced.pads
  same : (∀ a ∈ spaced.line.anchors, a.kind ≠ kind) → spaced.result = spaced.line
  text : ∀ a ∈ spaced.line.anchors, a.kind = kind → ∀ before after,
    spaced.line.text.toList = before ++ after → byteLength before = a.offset →
      spread spaced.pads 0 before <+: spaced.result.text.toList ∧
        (spread spaced.pads 0 before).length + a.column = before.length + spaced.column a

theorem prefix_of_byteLength_le {xs ys zs : List Char} (hxs : xs <+: zs) (hys : ys <+: zs)
    (hle : byteLength xs ≤ byteLength ys) : xs <+: ys := by
  obtain h | ⟨rest, rfl⟩ := List.prefix_or_prefix_of_prefix hxs hys
  · exact h
  · cases rest with
    | nil => rw [List.append_nil]
    | cons c rest =>
      have hpos := c.utf8Size_pos
      simp only [byteLength_append, byteLength] at hle
      omega

theorem Spaced.Below.inserted (h : spaced.Below kind slot) (hanchored : spaced.line.Anchored kind) :
    spaced.Inserted kind where
  places o ho := by
    obtain ⟨a, hmem, hkind, -, hoffset⟩ := h o ho
    exact ⟨a, hmem, List.mem_singleton.mpr hkind, hoffset⟩
  same hnone := by
    refine Line.spread_zero fun o => ?_
    by_contra hne
    obtain ⟨a, hmem, hkind, -⟩ := h o hne
    exact hnone a hmem hkind
  text a _ _ before after htext hoffset := by
    rw [Spaced.result, Line.spread, String.toList_ofList, htext, spread_parts]
    refine ⟨List.prefix_append _ _, ?_⟩
    have hplaces : ∀ i, 0 ≤ i → i ≤ 0 + byteLength before → spaced.pads i ≠ 0 →
        ∃ front middle, before = front ++ middle ∧ i = 0 + byteLength front := by
      intro i _ hi hne
      obtain ⟨b, hmem, hkind, -, rfl⟩ := h i hne
      obtain ⟨front, back, hsplit, hfront⟩ := hanchored b hmem hkind
      have hprefix : front <+: before := prefix_of_byteLength_le ⟨back, hsplit.symm⟩
        ⟨after, htext.symm⟩ (by omega)
      obtain ⟨middle, hmiddle⟩ := hprefix
      exact ⟨front, middle, hmiddle.symm, by omega⟩
    have hlength := length_spread hplaces
    rw [Nat.zero_add, hoffset] at hlength
    have hstart : spacesTo spaced.pads 0 = 0 := rfl
    rw [Spaced.column]
    omega

theorem map_line_spaceSlots (kind : AnchorKind) (slot count : Nat) (lines : List Spaced) :
    (spaceSlots kind slot count lines).map Spaced.line = lines.map Spaced.line := by
  induction count generalizing slot lines with
  | zero => rfl
  | succ count ih =>
    rw [spaceSlots, ih]
    unfold spaceSlot
    split
    · rfl
    · rw [List.map_map]
      exact List.map_congr_left fun spaced _ => Spaced.move_line ..

theorem tracks_start (kind : AnchorKind) (line : Line) :
    Tracks kind 0 ⟨line, fun _ => 0⟩ ⟨line, 0⟩ where
  line := (Line.spread_zero fun _ => rfl).symm
  bytes := by rw [spread_eq _ fun _ _ => rfl]; rfl
  total _ _ := Finset.sum_const_zero
  below _ hne := absurd rfl hne

theorem mem_slots {line : Line} {a : Anchor} {group : List Line} (hmem : line ∈ group)
    (ha : line.anchor? kind slot = some a) : slot ∈ slots kind group := by
  obtain ⟨hanchor, rfl, rfl⟩ := Line.anchor?_eq_some ha
  exact List.mem_filterMap.mpr ⟨a, List.mem_flatMap.mpr ⟨line, hmem, hanchor⟩, by simp⟩

/-- A slot that no line has is lined up. -/
theorem linedUp_of_notMem (h : slot ∉ slots kind (lines.map Spaced.line)) :
    LinedUp kind slot lines := by
  have hall : ∀ p, EachAt kind slot lines p := fun p spaced hmem a ha =>
    absurd (mem_slots (List.mem_map_of_mem hmem) ha) h
  exact ⟨fun _ => ⟨0, ⟨hall _, fun c _ => Nat.zero_le c⟩, hall _⟩, fun _ => hall _⟩

/-- **One pass**: spaces are put in at anchors of the kind, and then every slot is lined up. -/
theorem exists_linedUp {group : List Line}
    (h : ∀ line ∈ group, line.Anchored kind ∧ line.Ranked kind) :
    ∃ lines : List Spaced, lines.map Spaced.line = group ∧
      alignGroup? kind group = some (lines.map Spaced.result) ∧
      (∀ spaced ∈ lines, spaced.Inserted kind) ∧ ∀ slot, LinedUp kind slot lines := by
  let start : List Spaced := group.map (⟨·, fun _ => 0⟩)
  have hstart : start.map Spaced.line = group := by rw [List.map_map]; exact List.map_id group
  have hwork : Workable kind start := List.forall_mem_map.mpr h
  have hbelow : ∀ spaced ∈ start, spaced.Below kind 0 :=
    List.forall_mem_map.mpr fun _ _ _ hne => absurd rfl hne
  unfold alignGroup?
  cases hlast : (slots kind group).max? with
  | none =>
    refine ⟨start, hstart, ?_, ?_, fun slot => linedUp_of_notMem ?_⟩
    · have hresult : Spaced.result ∘ (⟨·, fun _ => 0⟩) = id :=
        funext fun line => Line.spread_zero fun _ => rfl
      rw [List.map_map, hresult, List.map_id]
    · exact fun spaced hmem => (hbelow spaced hmem).inserted (hwork spaced hmem).1
    · rw [hstart, List.max?_eq_none_iff.mp hlast]
      exact List.not_mem_nil
  | some last =>
    have htracks : List.Forall₂ (Tracks kind 0) start (group.map (⟨·, 0⟩)) :=
      List.forall₂_map_left_iff.mpr (List.forall₂_map_right_iff.mpr
        (List.forall₂_same.mpr fun line _ => tracks_start kind line))
    obtain ⟨rows, hslots, hrows⟩ := alignSlots?_eq hwork htracks (last + 1)
    have hlines : (spaceSlots kind 0 (last + 1) start).map Spaced.line = group :=
      (map_line_spaceSlots ..).trans hstart
    refine ⟨spaceSlots kind 0 (last + 1) start, hlines, ?_, fun spaced hmem => ?_, fun slot => ?_⟩
    · have hresults : List.Forall₂ Eq ((spaceSlots kind 0 (last + 1) start).map Spaced.result)
          (rows.map Row.line) :=
        List.forall₂_map_left_iff.mpr
          (List.forall₂_map_right_iff.mpr (hrows.imp fun _ _ htracks => htracks.line.symm))
      rw [List.forall₂_eq_eq_eq] at hresults
      simp only [hslots, Option.map_some, hresults]
    · have hline : spaced.line ∈ group := hlines ▸ List.mem_map_of_mem hmem
      exact (below_spaceSlots hbelow _ spaced hmem).inserted (h spaced.line hline).1
    · by_cases hslot : slot ≤ last
      · exact linedUp_spaceSlots hwork hbelow (fun _ hlt => absurd hlt (Nat.not_lt_zero _)) _ slot
          (by omega)
      · refine linedUp_of_notMem fun hmem => hslot ?_
        rw [hlines] at hmem
        exact (List.max?_eq_some_iff.mp hlast).2 slot hmem

/-- Two tuples, one with a letter of two bytes, and between them a line without values. -/
def tuples : List Line :=
  [⟨0, "(ä, 1, x)", 9, [⟨.value, 0, 1, 1⟩, ⟨.value, 1, 5, 4⟩, ⟨.value, 2, 8, 7⟩]⟩,
    ⟨0, "--", 2, []⟩,
    ⟨0, "(bcd, 22)", 9, [⟨.value, 0, 1, 1⟩, ⟨.value, 1, 6, 6⟩]⟩]

theorem exists_linedUp_tuples :
    alignGroup? .value tuples =
        some [{ tuples[0] with text := "(ä,   1, x)" }, tuples[1], tuples[2]] ∧
      ∃ lines : List Spaced, lines.map Spaced.line = tuples ∧
        alignGroup? .value tuples = some (lines.map Spaced.result) ∧
        (∀ spaced ∈ lines, spaced.Inserted .value) ∧ ∀ slot, LinedUp .value slot lines := by
  have hplaces : ∀ line ∈ tuples, ∀ a ∈ line.anchors, a.kind = .value →
      ∃ n < 10, a.offset = byteLength (line.text.toList.take n) := by decide
  have hranked : ∀ line ∈ tuples, line.Ranked .value := by decide
  refine ⟨by decide, exists_linedUp fun line hmem => ⟨?_, hranked line hmem⟩⟩
  intro a ha hkind
  obtain ⟨n, -, hn⟩ := hplaces line hmem a ha hkind
  exact ⟨_, _, (List.take_append_drop n _).symm, hn⟩

end Alignment

end SqlFormat.Layout
