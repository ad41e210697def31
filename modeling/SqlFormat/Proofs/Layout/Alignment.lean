import Mathlib
import SqlFormat.Proofs.Text.Spread

/-!
# What alignment does to lines

Alignment puts spaces into lines at their anchors and changes nothing else. It relies on two things:
every anchor stands between two characters of its line, and the anchors that it goes by stand in the
order in which it can use them: those of a later pass are not behind those of an earlier one, and
those of a higher slot are not before those of a lower one. Then no padding moves a place that is
still to be used, and there is always a result.

Results: `exists_align` (one kind), `exists_alignAll`.
-/

namespace SqlFormat.Layout

open Text

/-! ## Lines with anchors -/

/-- The anchors of a kind stand between characters of the line. -/
def Line.Anchored (kind : AnchorKind) (line : Line) : Prop :=
  ∀ a ∈ line.anchors, a.kind = kind →
    ∃ before after, line.text.toList = before ++ after ∧ a.offset = byteLength before

/-- The number of the pass that goes by anchors of a kind. -/
def AnchorKind.pass : AnchorKind → Nat
  | .alias => 0
  | .assign => 1
  | .value => 2

/-- Of the first anchors of two slots, the one that a later pass goes by is not further to the right;
of two that the same pass goes by, the one with the lower slot is not. -/
structure Line.Orderly (line : Line) : Prop where
  kinds : ∀ a ∈ line.anchors, ∀ b ∈ line.anchors, line.anchor? a.kind a.slot = some a →
    line.anchor? b.kind b.slot = some b → a.kind.pass < b.kind.pass → b.offset ≤ a.offset
  slots : ∀ a ∈ line.anchors, ∀ b ∈ line.anchors, line.anchor? a.kind a.slot = some a →
    line.anchor? b.kind b.slot = some b → a.kind = b.kind → a.slot ≤ b.slot → a.offset ≤ b.offset

instance (line : Line) : Decidable line.Orderly :=
  decidable_of_iff (_ ∧ _) ⟨fun h => ⟨h.1, h.2⟩, fun h => ⟨h.kinds, h.slots⟩⟩

/-- The line with spaces put in. -/
def Line.spread (line : Line) (pads : Nat → Nat) : Line :=
  { line with text := String.ofList (Text.spread pads 0 line.text.toList) }

/-- Spaces are put in at anchors of some kinds only. -/
def Line.At (line : Line) (kinds : List AnchorKind) (pads : Nat → Nat) : Prop :=
  ∀ o, pads o ≠ 0 → ∃ a ∈ line.anchors, a.kind ∈ kinds ∧ a.offset = o

/-- Spaces are put in at the first anchors of slots of some kinds only. -/
def Line.AtFirst (line : Line) (kinds : List AnchorKind) (pads : Nat → Nat) : Prop :=
  ∀ o, pads o ≠ 0 → ∃ kind ∈ kinds, ∃ slot a, line.anchor? kind slot = some a ∧ a.offset = o

/-- A character of the line starts at the place, or the line ends there. -/
def Line.CutAt (line : Line) (offset : Nat) : Prop :=
  ∃ before after, line.text.toList = before ++ after ∧ offset = byteLength before

namespace Line

variable {line : Line} {kind : AnchorKind} {slot : Nat} {a : Anchor} {pads : Nat → Nat}

theorem spread_zero (h : ∀ o, pads o = 0) : line.spread pads = line := by
  rw [spread, spread_eq _ fun o _ => h o, String.ofList_toList]

theorem anchor?_eq_some (h : line.anchor? kind slot = some a) :
    a ∈ line.anchors ∧ a.kind = kind ∧ a.slot = slot := by
  have hfound := List.find?_some h
  simp only [Bool.and_eq_true, beq_iff_eq] at hfound
  exact ⟨List.mem_of_find?_eq_some h, hfound.1, hfound.2⟩

theorem Anchored.cutAt (h : line.Anchored kind) (ha : line.anchor? kind slot = some a) :
    line.CutAt a.offset := by
  obtain ⟨hmem, hkind, -⟩ := anchor?_eq_some ha
  exact h a hmem hkind

theorem AtFirst.at {kinds : List AnchorKind} (h : line.AtFirst kinds pads) :
    line.At kinds pads := by
  intro o ho
  obtain ⟨kind, hmem, slot, a, ha, hoffset⟩ := h o ho
  obtain ⟨hanchor, rfl, -⟩ := anchor?_eq_some ha
  exact ⟨a, hanchor, hmem, hoffset⟩

theorem Orderly.offset_le (h : line.Orderly) {slot' : Nat} {b : Anchor}
    (ha : line.anchor? kind slot = some a) (hb : line.anchor? kind slot' = some b)
    (hle : slot ≤ slot') : a.offset ≤ b.offset := by
  obtain ⟨hma, rfl, rfl⟩ := anchor?_eq_some ha
  obtain ⟨hmb, hkind, rfl⟩ := anchor?_eq_some hb
  exact h.slots a hma b hmb ha (hkind ▸ hb) hkind.symm hle

theorem Orderly.offset_le_of_pass (h : line.Orderly) {kind' : AnchorKind} {slot' : Nat} {b : Anchor}
    (ha : line.anchor? kind slot = some a) (hb : line.anchor? kind' slot' = some b)
    (hlt : kind.pass < kind'.pass) : b.offset ≤ a.offset := by
  obtain ⟨hma, rfl, rfl⟩ := anchor?_eq_some ha
  obtain ⟨hmb, rfl, rfl⟩ := anchor?_eq_some hb
  exact h.kinds a hma b hmb ha hb hlt

end Line

namespace Alignment

variable {line : Line} {kind : AnchorKind} {slot : Nat} {row : Row} {lines : List Line}
  {rows : List Row}

/-! ## One slot -/

/-- The row is the line with spaces put in at anchors of a kind, none of them behind an anchor of
`slot` or of a higher slot. -/
structure Padded (kind : AnchorKind) (slot : Nat) (line : Line) (row : Row) (pads : Nat → Nat) :
    Prop where
  eq : row.line = line.spread pads
  shift : byteLength (spread pads 0 line.text.toList) = byteLength line.text.toList + row.shift
  places : line.AtFirst [kind] pads
  before : ∀ o, pads o ≠ 0 → ∀ slot' a, slot ≤ slot' → line.anchor? kind slot' = some a →
    o ≤ a.offset

theorem padded_start (kind : AnchorKind) (line : Line) :
    Padded kind 0 line ⟨line, 0⟩ fun _ => 0 where
  eq := (Line.spread_zero fun _ => rfl).symm
  shift := by rw [spread_eq _ fun _ _ => rfl]; rfl
  places _ h := absurd rfl h
  before _ h := absurd rfl h

theorem Padded.next {pads : Nat → Nat} (h : Padded kind slot line row pads) :
    Padded kind (slot + 1) line row pads where
  eq := h.eq
  shift := h.shift
  places := h.places
  before o ho slot' a hle := h.before o ho slot' a (Nat.le_of_succ_le hle)

/-- A move puts in the spaces that are missing at the anchor, behind all those that are there. -/
theorem moveTo?_eq {a : Anchor} {pads : Nat → Nat} (ha : line.anchor? kind slot = some a)
    (hcut : line.CutAt a.offset) (hline : row.line = line.spread pads)
    (hshift : byteLength (spread pads 0 line.text.toList) = byteLength line.text.toList + row.shift)
    (hbefore : ∀ o, pads o ≠ 0 → o ≤ a.offset) (target : Nat) :
    let count := target - (a.column + row.shift)
    let more := Function.update pads a.offset (pads a.offset + count)
    row.moveTo? kind slot target = some ⟨line.spread more, row.shift + count⟩ ∧
      byteLength (spread more 0 line.text.toList) =
        byteLength line.text.toList + (row.shift + count) := by
  intro count more
  obtain ⟨before, after, htext, hoffset⟩ := hcut
  have hpads : ∀ o, byteLength before < o → pads o = 0 := by
    intro o ho
    by_contra hne
    have := hbefore o hne
    omega
  rw [htext] at hshift
  obtain ⟨hinsert, hlength⟩ := insertSpaces?_spread count hpads hshift
  rw [← htext, ← hoffset] at hinsert hlength
  refine ⟨?_, hlength⟩
  have hfound : row.line.anchor? kind slot = some a := by rw [hline]; exact ha
  unfold Row.moveTo?
  rw [hfound]
  simp only
  split
  · next hzero =>
    have hmore : more = pads := by
      rw [show more = Function.update pads a.offset (pads a.offset) from
        congrArg (fun n => Function.update pads a.offset (pads a.offset + n)) hzero,
        Function.update_eq_self]
    rw [hmore, ← hline, show row.shift + count = row.shift from congrArg (row.shift + ·) hzero]
  · rw [Line.pad?, hline, Line.spread, String.toList_ofList, hinsert]
    rfl

/-- One move is possible, and puts in spaces at the anchor. -/
theorem exists_moveTo (hcut : ∀ a, line.anchor? kind slot = some a → line.CutAt a.offset)
    (horderly : line.Orderly) {pads : Nat → Nat} (h : Padded kind slot line row pads) (target : Nat) :
    ∃ row' pads', row.moveTo? kind slot target = some row' ∧
      Padded kind (slot + 1) line row' pads' := by
  cases ha : line.anchor? kind slot with
  | none =>
    have hline : row.line.anchor? kind slot = none := by rw [h.eq]; exact ha
    exact ⟨row, pads, by rw [Row.moveTo?, hline], h.next⟩
  | some a =>
    obtain ⟨hmove, hlength⟩ := moveTo?_eq ha (hcut a ha) h.eq h.shift
      (fun o ho => h.before o ho slot a le_rfl ha) target
    refine ⟨_, _, hmove, rfl, hlength, ?_, ?_⟩
    · intro o ho
      by_cases heq : o = a.offset
      · exact ⟨kind, List.mem_singleton_self kind, slot, a, ha, heq.symm⟩
      · rw [Function.update_of_ne heq] at ho
        exact h.places o ho
    · intro o ho slot' b hle hb
      by_cases heq : o = a.offset
      · exact heq ▸ horderly.offset_le ha hb (Nat.le_of_succ_le hle)
      · rw [Function.update_of_ne heq] at ho
        exact h.before o ho slot' b (Nat.le_of_succ_le hle) hb

/-! ## All slots of a group -/

theorem foldl_max_le_iff {values : List Nat} {first bound : Nat} :
    values.foldl max first ≤ bound ↔ first ≤ bound ∧ ∀ value ∈ values, value ≤ bound := by
  induction values generalizing first with
  | nil => simp
  | cons value values ih =>
    rw [List.foldl_cons, ih, max_le_iff, List.forall_mem_cons, and_assoc]

theorem exists_mapM {α β γ : Type} {f : β → Option γ} {r : α → β → Prop} {q : α → γ → Prop}
    {as : List α} {bs : List β} (h : List.Forall₂ r as bs)
    (hf : ∀ a ∈ as, ∀ b, r a b → ∃ c, f b = some c ∧ q a c) :
    ∃ cs, bs.mapM f = some cs ∧ List.Forall₂ q as cs := by
  induction h with
  | nil => exact ⟨[], rfl, .nil⟩
  | @cons a b as bs hab _ ih =>
    obtain ⟨c, hc, hac⟩ := hf a (by simp) b hab
    obtain ⟨cs, hcs, hall⟩ := ih fun a ha => hf a (List.mem_cons_of_mem _ ha)
    exact ⟨c :: cs, by simp [List.mapM_cons, hc, hcs], .cons hac hall⟩

/-- Rows of which each is its line with spaces put in. -/
def AllPadded (kind : AnchorKind) (slot : Nat) (lines : List Line) (rows : List Row) : Prop :=
  List.Forall₂ (fun line row => ∃ pads, Padded kind slot line row pads) lines rows

/-- What alignment asks of lines, for one kind of anchor. -/
def Ready (kind : AnchorKind) (lines : List Line) : Prop :=
  ∀ line ∈ lines, (∀ slot a, line.anchor? kind slot = some a → line.CutAt a.offset) ∧ line.Orderly

theorem exists_alignSlot (hready : Ready kind lines) (h : AllPadded kind slot lines rows) :
    ∃ rows', alignSlot? kind slot rows = some rows' ∧ AllPadded kind (slot + 1) lines rows' := by
  unfold alignSlot?
  simp only
  split
  · refine ⟨rows, rfl, h.imp ?_⟩
    rintro line row ⟨pads, hpads⟩
    exact ⟨pads, hpads.next⟩
  · refine exists_mapM h ?_
    rintro line hline row ⟨pads, hpads⟩
    obtain ⟨row', pads', hmove, hpads'⟩ :=
      exists_moveTo ((hready line hline).1 slot) (hready line hline).2 hpads _
    exact ⟨row', hmove, pads', hpads'⟩

theorem exists_alignSlots (hready : Ready kind lines) (h : AllPadded kind slot lines rows)
    (count : Nat) :
    ∃ rows', alignSlots? kind slot count rows = some rows' ∧
      AllPadded kind (slot + count) lines rows' := by
  induction count generalizing slot rows with
  | zero => exact ⟨rows, rfl, h⟩
  | succ count ih =>
    obtain ⟨rows', hslot, hrows'⟩ := exists_alignSlot hready h
    obtain ⟨rows'', hslots, hrows''⟩ := ih hrows'
    refine ⟨rows'', by rw [alignSlots?, hslot]; exact hslots, ?_⟩
    rwa [show slot + (count + 1) = slot + 1 + count by omega]

/-- A line and what alignment made of it. -/
def Spread (kinds : List AnchorKind) (line aligned : Line) : Prop :=
  ∃ pads, aligned = line.spread pads ∧ line.AtFirst kinds pads

theorem Spread.refl (kinds : List AnchorKind) (line : Line) : Spread kinds line line :=
  ⟨fun _ => 0, (Line.spread_zero fun _ => rfl).symm, fun _ h => absurd rfl h⟩

theorem exists_alignGroup (hready : Ready kind lines) :
    ∃ aligned, alignGroup? kind lines = some aligned ∧
      List.Forall₂ (Spread [kind]) lines aligned := by
  unfold alignGroup?
  cases (slots kind lines).max? with
  | none => exact ⟨lines, rfl, List.forall₂_same.mpr fun line _ => .refl _ line⟩
  | some last =>
    have hstart : AllPadded kind 0 lines (lines.map (⟨·, 0⟩)) :=
      List.forall₂_map_right_iff.mpr
        (List.forall₂_same.mpr fun line _ => ⟨_, padded_start kind line⟩)
    obtain ⟨rows, hslots, hrows⟩ := exists_alignSlots hready hstart (last + 1)
    refine ⟨rows.map (·.line), by simp only [hslots]; rfl, ?_⟩
    refine List.forall₂_map_right_iff.mpr (hrows.imp ?_)
    rintro line row ⟨pads, hpads⟩
    exact ⟨pads, hpads.eq, hpads.places⟩

/-! ## All groups and all kinds -/

/-- Lines can be lined up by the anchors of a kind, which puts in spaces at these anchors. -/
theorem exists_align (hready : Ready kind lines) :
    ∃ aligned, align? kind lines = some aligned ∧ List.Forall₂ (Spread [kind]) lines aligned := by
  have hgroup : ∀ group ∈ lines.splitBy together, ∀ group', group = group' →
      ∃ aligned, alignGroup? kind group' = some aligned ∧
        List.Forall₂ (Spread [kind]) group aligned := by
    rintro group hmem _ rfl
    refine exists_alignGroup fun line hline => hready line ?_
    rw [← List.flatten_splitBy together lines]
    exact List.mem_flatten_of_mem hmem hline
  obtain ⟨aligned, haligned, hall⟩ :=
    exists_mapM (List.forall₂_same.mpr fun _ _ => rfl) hgroup
  refine ⟨aligned.flatten, by rw [align?, haligned]; rfl, ?_⟩
  have hflatten := List.rel_flatten hall
  rwa [List.flatten_splitBy] at hflatten

variable {kinds : List AnchorKind} {aligned : Line}

theorem Spread.orderly (h : Spread kinds line aligned) (horderly : line.Orderly) :
    aligned.Orderly := by
  obtain ⟨pads, rfl, -⟩ := h
  exact ⟨horderly.kinds, horderly.slots⟩

/-- The kinds are those that the passes before that for `kind` go by. -/
def Passed (kind : AnchorKind) (kinds : List AnchorKind) : Prop :=
  ∀ other, other ∈ kinds ↔ other.pass < kind.pass

theorem passed_alias : Passed .alias [] := by intro other; cases other <;> decide

theorem passed_assign : Passed .assign [.alias] := by intro other; cases other <;> decide

theorem passed_value : Passed .value [.assign, .alias] := by intro other; cases other <;> decide

/-- Earlier passes put nothing before an anchor that is still to be used, so it stands where it
stood. -/
theorem Spread.cutAt (h : Spread kinds line aligned) (horderly : line.Orderly)
    (hpassed : Passed kind kinds) (hanchored : line.Anchored kind) {a : Anchor}
    (ha : aligned.anchor? kind slot = some a) : aligned.CutAt a.offset := by
  obtain ⟨pads, rfl, hat⟩ := h
  obtain ⟨before, after, htext, hoffset⟩ := hanchored.cutAt ha
  refine ⟨before, spread pads (0 + byteLength before) after, ?_, hoffset⟩
  rw [Line.spread, String.toList_ofList, htext]
  refine spread_front after fun o _ hlt => ?_
  by_contra hne
  obtain ⟨earlier, hmem, slot', b, hb, hplace⟩ := hat o hne
  have hle := horderly.offset_le_of_pass hb ha ((hpassed earlier).mp hmem)
  omega

theorem Spread.trans {aligned' : Line} (h : Spread kinds line aligned)
    (h' : Spread [kind] aligned aligned') (horderly : line.Orderly)
    (hpassed : Passed kind kinds) : Spread (kind :: kinds) line aligned' := by
  obtain ⟨pads, rfl, hat⟩ := h
  obtain ⟨more, rfl, hat'⟩ := h'
  refine ⟨fun o => pads o + more o, ?_, fun o ho => ?_⟩
  · rw [Line.spread, Line.spread, Line.spread, String.toList_ofList, spread_spread]
    intro o o' ho ho'
    obtain ⟨kind', hmem, slot, a, ha, rfl⟩ := hat' o ho
    obtain ⟨earlier, hmem', slot', b, hb, rfl⟩ := hat o' ho'
    obtain rfl := List.mem_singleton.mp hmem
    exact horderly.offset_le_of_pass hb ha ((hpassed earlier).mp hmem')
  · by_cases hold : pads o = 0
    · obtain ⟨kind', hmem, hfirst⟩ := hat' o fun hmore => ho (by simp only [hold, hmore])
      exact ⟨kind', List.mem_cons.mpr (.inl (List.mem_singleton.mp hmem)), hfirst⟩
    · obtain ⟨earlier, hmem, hfirst⟩ := hat o hold
      exact ⟨earlier, List.mem_cons_of_mem _ hmem, hfirst⟩

/-- Lines that alignment can work on: their anchors stand between characters and in order. -/
def Sound (lines : List Line) : Prop :=
  ∀ line ∈ lines, (∀ kind, line.Anchored kind) ∧ line.Orderly

/-- One pass over lines that have been changed for other kinds only. -/
theorem exists_pass {current : List Line} (hsound : Sound lines) (hpassed : Passed kind kinds)
    (h : List.Forall₂ (Spread kinds) lines current) (wanted : Bool) :
    ∃ next, (if wanted then align? kind current else some current) = some next ∧
      List.Forall₂ (Spread (kind :: kinds)) lines next := by
  have hready : Ready kind current := by
    clear wanted
    induction h with
    | nil => simp [Ready]
    | @cons line aligned lines current hline _ ih =>
      obtain ⟨hanchored, horderly⟩ := hsound line (by simp)
      rintro other (_ | ⟨_, hmem⟩)
      · exact ⟨fun slot a ha => hline.cutAt horderly hpassed (hanchored kind) ha,
          hline.orderly horderly⟩
      · exact ih (fun l hl => hsound l (List.mem_cons_of_mem _ hl)) other hmem
  obtain ⟨next, hnext, hall⟩ : ∃ next,
      (if wanted then align? kind current else some current) = some next ∧
        List.Forall₂ (Spread [kind]) current next := by
    cases wanted with
    | false => exact ⟨current, rfl, List.forall₂_same.mpr fun line _ => .refl _ line⟩
    | true => exact exists_align hready
  refine ⟨next, hnext, ?_⟩
  clear hnext hready
  induction h generalizing next with
  | nil =>
    cases hall
    exact .nil
  | @cons line aligned lines current hline _ ih =>
    obtain ⟨_, horderly⟩ := hsound line (by simp)
    cases hall with
    | cons hnext hrest =>
      exact .cons (hline.trans hnext horderly hpassed)
        (ih (fun l hl => hsound l (List.mem_cons_of_mem _ hl)) _ hrest)

theorem alignAll?_eq (style : Style) (lines : List Line) :
    alignAll? style lines =
      (if style.alignColumns then align? .alias lines else some lines).bind fun lines =>
      (if style.alignAssignments then align? .assign lines else some lines).bind fun lines =>
      if style.alignValues then align? .value lines else some lines := by
  unfold alignAll?
  cases style.alignColumns <;> cases style.alignAssignments <;> rfl

/-- Lines can be lined up in any style, which puts in spaces at their anchors and does nothing
else. -/
theorem exists_alignAll (style : Style) (hsound : Sound lines) :
    ∃ aligned, alignAll? style lines = some aligned ∧
      List.Forall₂ (Spread [.value, .assign, .alias]) lines aligned := by
  have hstart : List.Forall₂ (Spread []) lines lines :=
    List.forall₂_same.mpr fun line _ => .refl _ line
  obtain ⟨first, hfirst, h⟩ := exists_pass hsound passed_alias hstart
    style.alignColumns
  obtain ⟨second, hsecond, h⟩ := exists_pass hsound passed_assign h
    style.alignAssignments
  obtain ⟨third, hthird, h⟩ := exists_pass hsound passed_value h
    style.alignValues
  refine ⟨third, ?_, h⟩
  rw [alignAll?_eq, hfirst, Option.bind_some, hsecond, Option.bind_some, hthird]

end Alignment

end SqlFormat.Layout
