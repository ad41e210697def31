import Mathlib
import SqlFormat.Proofs.Layout.Alignment
import SqlFormat.Proofs.Layout.Twin

/-!
# Alignment in colour

Alignment goes by columns, which do not count control sequences, and puts its spaces in by bytes, which
do. As the anchors of a coloured line stand before the same spans as those of the plain line, the spaces
go between the same spans, and so they do after every move, as long as the anchors stand in order.

Results: `exists_alignAll_twin`.
-/

namespace SqlFormat.Layout

open Text SqlFormat.Span

/-! ## Lists of pairs -/

section Lists

variable {α β γ δ : Type} {r : α → β → Prop} {q : γ → δ → Prop} {as : List α} {bs : List β}

theorem filterMap_eq_of_forall₂ {f : α → Option γ} {g : β → Option γ} (h : List.Forall₂ r as bs)
    (hfg : ∀ a b, r a b → f a = g b) : as.filterMap f = bs.filterMap g := by
  induction h with
  | nil => rfl
  | @cons a b as bs hab _ ih => rw [List.filterMap_cons, List.filterMap_cons, hfg a b hab, ih]

theorem exists_mapM₂ {f : α → Option γ} {g : β → Option δ} (h : List.Forall₂ r as bs)
    (hfg : ∀ a b, r a b → ∃ c d, f a = some c ∧ g b = some d ∧ q c d) :
    ∃ cs ds, as.mapM f = some cs ∧ bs.mapM g = some ds ∧ List.Forall₂ q cs ds := by
  induction h with
  | nil => exact ⟨[], [], rfl, rfl, .nil⟩
  | @cons a b as bs hab _ ih =>
    obtain ⟨c, d, hc, hd, hcd⟩ := hfg a b hab
    obtain ⟨cs, ds, hcs, hds, hall⟩ := ih
    exact ⟨c :: cs, d :: ds, by simp [List.mapM_cons, hc, hcs], by simp [List.mapM_cons, hd, hds],
      .cons hcd hall⟩

theorem forall₂_splitBy {f : α → α → Bool} {g : β → β → Bool} (h : List.Forall₂ r as bs)
    (hfg : ∀ a b, r a b → ∀ a' b', r a' b' → f a a' = g b b') :
    List.Forall₂ (List.Forall₂ r) (as.splitBy f) (bs.splitBy g) := by
  have hloop : ∀ {as : List α} {bs : List β}, List.Forall₂ r as bs → ∀ {a b}, r a b →
      ∀ {group group'}, List.Forall₂ r group group' → ∀ {groups groups'},
        List.Forall₂ (List.Forall₂ r) groups groups' →
          List.Forall₂ (List.Forall₂ r) (List.splitBy.loop f as a group groups)
            (List.splitBy.loop g bs b group' groups') := by
    intro as bs h
    induction h with
    | nil =>
      intro a b hab group group' hgroup groups groups' hgroups
      exact List.rel_reverse (.cons (List.rel_reverse (.cons hab hgroup)) hgroups)
    | @cons a' b' as bs hab' _ ih =>
      intro a b hab group group' hgroup groups groups' hgroups
      rw [List.splitBy.loop, List.splitBy.loop, hfg a b hab a' b' hab']
      cases g b b' with
      | true => exact ih hab' (.cons hab hgroup) hgroups
      | false => exact ih hab' .nil (.cons (List.rel_reverse (.cons hab hgroup)) hgroups)
  cases h with
  | nil => exact .nil
  | cons hab hrest => exact hloop hrest hab .nil .nil

theorem mapM_rel {f : α → Option γ} {g : β → Option δ} (h : List.Forall₂ r as bs)
    (hfg : ∀ a b, r a b → Option.Rel q (f a) (g b)) :
    Option.Rel (List.Forall₂ q) (as.mapM f) (bs.mapM g) := by
  induction h with
  | nil => exact .some .nil
  | @cons a b as bs hab _ ih =>
    rw [List.mapM_cons, List.mapM_cons]
    have hhead := hfg a b hab
    revert hhead ih
    generalize f a = c, g b = d, as.mapM f = cs, bs.mapM g = ds
    intro ih hhead
    cases hhead with
    | none => exact .none
    | some hhead =>
      cases ih with
      | none => exact .none
      | some htail => exact .some (.cons hhead htail)

theorem rel_map {r' : γ → δ → Prop} {x : Option α} {y : Option β} (h : Option.Rel r x y) {f : α → γ}
    {g : β → δ} (hfg : ∀ a b, r a b → r' (f a) (g b)) : Option.Rel r' (x.map f) (y.map g) := by
  cases h with
  | none => exact .none
  | some hab => exact .some (hfg _ _ hab)

theorem rel_bind {x : Option α} {y : Option β} (h : Option.Rel r x y) {f : α → Option γ}
    {g : β → Option δ} (hfg : ∀ a b, r a b → Option.Rel q (f a) (g b)) :
    Option.Rel q (x.bind f) (y.bind g) := by
  cases h with
  | none => exact .none
  | some hab => exact hfg _ _ hab

end Lists

/-! ## Places between spans -/

theorem eq_nil_of_byteLength {cs : List Char} (h : byteLength cs = 0) : cs = [] := by
  cases cs with
  | nil => rfl
  | cons c cs =>
    have := c.utf8Size_pos
    rw [byteLength] at h
    omega

/-- Spans that add nothing to the plain text add nothing to the coloured one. -/
theorem eq_nil_of_byteLength_le {before mid : List Span} (hgood : ∀ s ∈ mid, s.Good)
    (hle : byteLength (plainAll (before ++ mid)) ≤ byteLength (plainAll before)) :
    plainAll mid = [] ∧ paintAll mid = [] := by
  rw [plainAll_append, byteLength_append] at hle
  have hplain : plainAll mid = [] := eq_nil_of_byteLength (by omega)
  exact ⟨hplain, (paintAll_eq_nil hgood).mpr hplain⟩

/-- Of two places between spans, the one that is further on in the plain text is so in the coloured
text. -/
theorem exists_mid {spans before after before' after' : List Span} (hgood : ∀ s ∈ spans, s.Good)
    (h : spans = before ++ after) (h' : spans = before' ++ after')
    (hle : byteLength (plainAll before) ≤ byteLength (plainAll before')) :
    ∃ mid rest, after = mid ++ rest ∧
      byteLength (paintAll before') = byteLength (paintAll before) + byteLength (paintAll mid) ∧
      byteLength (plainAll before') = byteLength (plainAll before) + byteLength (plainAll mid) := by
  rcases List.append_eq_append_iff.mp (h.symm.trans h') with ⟨mid, rfl, rfl⟩ | ⟨mid, rfl, rfl⟩
  · refine ⟨mid, after', rfl, ?_, ?_⟩
    · rw [paintAll_append, byteLength_append]
    · rw [plainAll_append, byteLength_append]
  · obtain ⟨hplain, hpaint⟩ :=
      eq_nil_of_byteLength_le (fun s hs => hgood s (by simp [h, hs])) hle
    refine ⟨[], after, rfl, ?_, ?_⟩
    · rw [paintAll_append, hpaint, List.append_nil]
      rfl
    · rw [plainAll_append, hplain, List.append_nil]
      rfl

/-- A place between spans stays one when spans are put in there or further on. -/
theorem Cut.insert {spans before after : List Span} {m n : Nat} (h : Cut spans m n)
    (hgood : ∀ s ∈ spans, s.Good) (hspans : spans = before ++ after)
    (hle : n ≤ byteLength (plainAll before)) (middle : List Span) :
    Cut (before ++ (middle ++ after)) m n := by
  obtain ⟨before', after', hspans', rfl, rfl⟩ := h
  rcases List.append_eq_append_iff.mp (hspans'.symm.trans hspans) with
    ⟨mid, rfl, rfl⟩ | ⟨mid, rfl, rfl⟩
  · exact ⟨before', mid ++ (middle ++ after), List.append_assoc .., rfl, rfl⟩
  · obtain ⟨hplain, hpaint⟩ :=
      eq_nil_of_byteLength_le (fun s hs => hgood s (by simp [hspans, hs])) hle
    refine ⟨before, middle ++ (mid ++ after'), rfl, ?_, ?_⟩
    · rw [paintAll_append, hpaint, List.append_nil]
    · rw [plainAll_append, hplain, List.append_nil]

variable {kinds : List AnchorKind} {kind : AnchorKind} {slot : Nat} {spans : List Span} {c p : Line}

theorem Line.Twin.cons (h : Line.Twin kinds spans c p) (kind : AnchorKind) :
    Line.Twin (kind :: kinds) spans c p :=
  { h with cuts := fun other hother => h.cuts other fun hmem => hother (List.mem_cons_of_mem _ hmem) }

theorem AnchorKind.pass_injective : Function.Injective AnchorKind.pass := by
  intro a b h
  cases a <;> cases b <;> first | rfl | cases h

/-- A line in colour and the same line without, whose anchors stand in order. -/
def Line.Twinned (kinds : List AnchorKind) (c p : Line) : Prop :=
  p.Orderly ∧ ∃ spans, Line.Twin kinds spans c p

namespace Alignment

variable {row row' : Row} {rows rows' : List Row} {lines lines' : List Line}

/-! ## One slot -/

/-- A row in colour and the same row without. The anchors of `slot` and of higher slots stand before
the same spans, once the spaces put in so far are counted. -/
structure Row.Twin (kinds : List AnchorKind) (kind : AnchorKind) (slot : Nat) (spans : List Span)
    (row row' : Row) : Prop where
  line : Line.Twin (kind :: kinds) spans row.line row'.line
  shift : row.shift = row'.shift
  orderly : row'.line.Orderly
  later : ∀ slot' a b, slot ≤ slot' → row.line.anchor? kind slot' = some a →
    row'.line.anchor? kind slot' = some b → Cut spans (a.offset + row.shift) (b.offset + row'.shift)

theorem Row.Twin.next (h : Row.Twin kinds kind slot spans row row') :
    Row.Twin kinds kind (slot + 1) spans row row' :=
  ⟨h.line, h.shift, h.orderly, fun slot' a b hle => h.later slot' a b (Nat.le_of_succ_le hle)⟩

theorem Row.Twin.column? (h : Row.Twin kinds kind slot spans row row') (slot' : Nat) :
    row.column? kind slot' = row'.column? kind slot' := by
  have hanchor := h.line.anchor? kind slot'
  unfold Row.column?
  revert hanchor
  generalize row.line.anchor? kind slot' = a
  generalize row'.line.anchor? kind slot' = b
  intro hanchor
  cases hanchor with
  | none => rfl
  | some hab => simp only [Option.map_some, hab.column, h.shift]

/-- Spaces put in between two spans. -/
theorem pad?_cut {line : Line} {before after : List Char} (h : line.text.toList = before ++ after)
    (count : Nat) : line.pad? (byteLength before) count =
      some { line with text := String.ofList (before ++ (List.replicate count ' ' ++ after)) } := by
  rw [Line.pad?, h, insertSpaces?_append]
  rfl

/-- The same spaces are put before the same span. -/
theorem Row.Twin.pad (h : Row.Twin kinds kind slot spans row row') (hpassed : Passed kind kinds)
    {a b : Anchor} (ha : row.line.anchor? kind slot = some a)
    (hb : row'.line.anchor? kind slot = some b) (count : Nat) :
    ∃ line line', row.line.pad? (a.offset + row.shift) count = some line ∧
      row'.line.pad? (b.offset + row'.shift) count = some line' ∧
      ∃ spans', Row.Twin kinds kind (slot + 1) spans' ⟨line, row.shift + count⟩
        ⟨line', row'.shift + count⟩ := by
  obtain ⟨before, after, hspans, hm, hn⟩ := h.later slot a b le_rfl ha hb
  have hcoloured : row.line.text.toList = paintAll before ++ paintAll after := by
    rw [h.line.coloured, hspans, paintAll_append]
  have hplain : row'.line.text.toList = plainAll before ++ plainAll after := by
    rw [h.line.plain, hspans, plainAll_append]
  set spaces := String.ofList (List.replicate count ' ') with hspaces
  have hlist : spaces.toList = List.replicate count ' ' := by rw [hspaces, String.toList_ofList]
  rw [hm, hn, pad?_cut hcoloured, pad?_cut hplain]
  refine ⟨_, _, rfl, rfl, before ++ blank spaces :: after,
    ⟨h.line.indent, h.line.width, ?_, ?_, ?_, h.line.anchors, ?_⟩, congrArg (· + count) h.shift,
    ⟨h.orderly.kinds, h.orderly.slots⟩, ?_⟩
  · rw [String.toList_ofList, paintAll_append, paintAll_cons, painted_blank, hlist]
  · rw [String.toList_ofList, plainAll_append, plainAll_cons, ← hlist]
    rfl
  · intro s hs
    simp only [List.mem_append, List.mem_cons] at hs
    rcases hs with hs | rfl | hs
    · exact h.line.good s (by simp [hspans, hs])
    · refine good_blank fun hmem => ?_
      rw [hlist] at hmem
      exact absurd (List.eq_of_mem_replicate hmem) (by decide)
    · exact h.line.good s (by simp [hspans, hs])
  · -- anchors of later passes are not behind the spaces
    intro other hother slot' a' b' ha' hb'
    obtain ⟨hne, hmem⟩ := not_or.mp (List.mem_cons.not.mp hother)
    have hlater : kind.pass < other.pass :=
      lt_of_le_of_ne (Nat.le_of_not_lt (hmem ∘ (hpassed other).mpr))
        (AnchorKind.pass_injective.ne (Ne.symm hne))
    have hle : b'.offset ≤ b.offset := h.orderly.offset_le_of_pass hb hb' hlater
    exact (h.line.cuts other hother slot' a' b' ha' hb').insert h.line.good hspans (by omega)
      [blank spaces]
  · intro slot' a' b' hle ha' hb'
    obtain ⟨before', after', hspans', hm', hn'⟩ := h.later slot' a' b' (Nat.le_of_succ_le hle) ha' hb'
    have hoffset : b.offset ≤ b'.offset := h.orderly.offset_le hb hb' (Nat.le_of_succ_le hle)
    obtain ⟨mid, rest, rfl, hpaint, hplain'⟩ := exists_mid h.line.good hspans hspans'
      (by rw [← hn, ← hn']; exact Nat.add_le_add_right hoffset _)
    refine ⟨before ++ blank spaces :: mid, rest, by simp, ?_, ?_⟩
    · show a'.offset + (row.shift + count) = byteLength (paintAll (before ++ blank spaces :: mid))
      rw [paintAll_append, paintAll_cons, painted_blank, hlist]
      simp only [byteLength_append, byteLength_spaces]
      omega
    · show b'.offset + (row'.shift + count) = byteLength (plainAll (before ++ blank spaces :: mid))
      rw [plainAll_append, plainAll_cons, blank, hlist]
      simp only [byteLength_append, byteLength_spaces]
      omega

/-- A move puts the same spaces before the same span. -/
theorem exists_moveTo_twin (hpassed : Passed kind kinds)
    (h : Row.Twin kinds kind slot spans row row') (target : Nat) :
    ∃ next next', row.moveTo? kind slot target = some next ∧
      row'.moveTo? kind slot target = some next' ∧
      ∃ spans', Row.Twin kinds kind (slot + 1) spans' next next' := by
  have hanchor := h.line.anchor? kind slot
  unfold Row.moveTo?
  cases ha : row.line.anchor? kind slot with
  | none =>
    cases hb : row'.line.anchor? kind slot with
    | none => exact ⟨row, row', rfl, rfl, spans, h.next⟩
    | some b =>
      rw [ha, hb] at hanchor
      cases hanchor
  | some a =>
    cases hb : row'.line.anchor? kind slot with
    | none =>
      rw [ha, hb] at hanchor
      cases hanchor
    | some b =>
      rw [ha, hb] at hanchor
      obtain ⟨hab⟩ := hanchor
      have hcolumn : a.column + row.shift = b.column + row'.shift := by rw [hab.column, h.shift]
      simp only [hcolumn]
      generalize target - (b.column + row'.shift) = count
      split
      · exact ⟨row, row', rfl, rfl, spans, h.next⟩
      · obtain ⟨line, line', hline, hline', htwin⟩ := h.pad hpassed ha hb count
        rw [hline, hline']
        exact ⟨_, _, rfl, rfl, htwin⟩

/-! ## All slots of a group -/

/-- Rows in colour and the same rows without. -/
def TwinRows (kinds : List AnchorKind) (kind : AnchorKind) (slot : Nat) (rows rows' : List Row) :
    Prop :=
  List.Forall₂ (fun row row' => ∃ spans, Row.Twin kinds kind slot spans row row') rows rows'

theorem exists_alignSlot_twin (hpassed : Passed kind kinds)
    (h : TwinRows kinds kind slot rows rows') :
    ∃ next next', alignSlot? kind slot rows = some next ∧ alignSlot? kind slot rows' = some next' ∧
      TwinRows kinds kind (slot + 1) next next' := by
  have hcolumns : rows.filterMap (·.column? kind slot) = rows'.filterMap (·.column? kind slot) :=
    filterMap_eq_of_forall₂ h fun row row' hrow => hrow.elim fun _ hrow => hrow.column? slot
  unfold alignSlot?
  rw [hcolumns]
  simp only
  split
  · exact ⟨rows, rows', rfl, rfl, h.imp fun row row' hrow => hrow.imp fun _ hrow => hrow.next⟩
  · exact exists_mapM₂ h fun row row' hrow => hrow.elim fun _ hrow => exists_moveTo_twin hpassed hrow _

theorem exists_alignSlots_twin (hpassed : Passed kind kinds)
    (h : TwinRows kinds kind slot rows rows') (count : Nat) :
    ∃ next next', alignSlots? kind slot count rows = some next ∧
      alignSlots? kind slot count rows' = some next' ∧
      TwinRows kinds kind (slot + count) next next' := by
  induction count generalizing slot rows rows' with
  | zero => exact ⟨rows, rows', rfl, rfl, h⟩
  | succ count ih =>
    obtain ⟨next, next', hnext, hnext', htwin⟩ := exists_alignSlot_twin hpassed h
    obtain ⟨last, last', hlast, hlast', htwin⟩ := ih htwin
    refine ⟨last, last', by rw [alignSlots?, hnext]; exact hlast,
      by rw [alignSlots?, hnext']; exact hlast', ?_⟩
    rwa [Nat.succ_add_eq_add_succ] at htwin

theorem Row.twin_start (hpassed : Passed kind kinds) (h : Line.Twinned kinds c p) :
    ∃ spans, Row.Twin kinds kind 0 spans ⟨c, 0⟩ ⟨p, 0⟩ := by
  obtain ⟨horderly, spans, hline⟩ := h
  have hkind : kind ∉ kinds := fun hmem => lt_irrefl _ ((hpassed kind).mp hmem)
  exact ⟨spans, hline.cons kind, rfl, horderly, fun slot' a b _ => hline.cuts kind hkind slot' a b⟩

theorem Row.Twin.twinned (h : Row.Twin kinds kind slot spans row row') :
    Line.Twinned (kind :: kinds) row.line row'.line :=
  ⟨h.orderly, spans, h.line⟩

theorem slots_twin (h : List.Forall₂ (Line.Twinned kinds) lines lines') :
    slots kind lines = slots kind lines' := by
  have hanchors : List.Forall₂ (fun a b : Anchor => a.kind = b.kind ∧ a.slot = b.slot)
      (lines.flatMap (·.anchors)) (lines'.flatMap (·.anchors)) :=
    List.rel_flatMap h fun c p hline => by
      obtain ⟨-, spans, hline⟩ := hline
      exact hline.anchors.imp fun a b hab => ⟨hab.kind, hab.slot⟩
  exact filterMap_eq_of_forall₂ hanchors fun a b hab => by rw [hab.1, hab.2]

theorem exists_alignGroup_twin (hpassed : Passed kind kinds)
    (h : List.Forall₂ (Line.Twinned kinds) lines lines') :
    ∃ next next', alignGroup? kind lines = some next ∧ alignGroup? kind lines' = some next' ∧
      List.Forall₂ (Line.Twinned (kind :: kinds)) next next' := by
  unfold alignGroup?
  rw [slots_twin h]
  cases (slots kind lines').max? with
  | none =>
    refine ⟨lines, lines', rfl, rfl, h.imp fun c p hline => ⟨hline.1, ?_⟩⟩
    exact hline.2.imp fun _ hline => hline.cons kind
  | some last =>
    have hstart : TwinRows kinds kind 0 (lines.map (⟨·, 0⟩)) (lines'.map (⟨·, 0⟩)) := by
      rw [TwinRows, List.forall₂_map_left_iff, List.forall₂_map_right_iff]
      exact h.imp fun c p hline => Row.twin_start hpassed hline
    obtain ⟨rows, rows', hrows, hrows', htwin⟩ := exists_alignSlots_twin hpassed hstart (last + 1)
    refine ⟨rows.map (·.line), rows'.map (·.line), by simp only [hrows]; rfl,
      by simp only [hrows']; rfl, ?_⟩
    rw [List.forall₂_map_left_iff, List.forall₂_map_right_iff]
    exact htwin.imp fun row row' hrow => hrow.elim fun _ hrow => hrow.twinned

/-! ## All groups and all kinds -/

theorem together_twin {c' p' : Line} (h : Line.Twinned kinds c p) (h' : Line.Twinned kinds c' p') :
    together c c' = together p p' := by
  obtain ⟨-, spans, hline⟩ := h
  obtain ⟨-, spans', hline'⟩ := h'
  rw [together, together, hline.indent, hline'.indent, hline'.isEmpty_eq]

theorem exists_align_twin (hpassed : Passed kind kinds)
    (h : List.Forall₂ (Line.Twinned kinds) lines lines') :
    ∃ next next', align? kind lines = some next ∧ align? kind lines' = some next' ∧
      List.Forall₂ (Line.Twinned (kind :: kinds)) next next' := by
  have hgroups := forall₂_splitBy h fun c p hline c' p' hline' => together_twin hline hline'
  obtain ⟨groups, groups', hnext, hnext', htwin⟩ :=
    exists_mapM₂ hgroups fun group group' hgroup => exists_alignGroup_twin hpassed hgroup
  refine ⟨groups.flatten, groups'.flatten, by rw [align?, hnext]; rfl, by rw [align?, hnext']; rfl, ?_⟩
  exact List.rel_flatten htwin

/-- One pass, if the style asks for it. -/
theorem exists_pass_twin (hpassed : Passed kind kinds)
    (h : List.Forall₂ (Line.Twinned kinds) lines lines') (wanted : Bool) :
    ∃ next next', (if wanted then align? kind lines else some lines) = some next ∧
      (if wanted then align? kind lines' else some lines') = some next' ∧
      List.Forall₂ (Line.Twinned (kind :: kinds)) next next' := by
  cases wanted with
  | true => exact exists_align_twin hpassed h
  | false =>
    refine ⟨lines, lines', rfl, rfl, h.imp fun c p hline => ⟨hline.1, ?_⟩⟩
    exact hline.2.imp fun _ hline => hline.cons kind

/-- **Lines are lined up alike in colour and without**, where their anchors stand in order. -/
theorem exists_alignAll_twin (style : Style) (h : List.Forall₂ (Line.Twinned []) lines lines') :
    ∃ next next', alignAll? style.coloured lines = some next ∧
      alignAll? style.uncoloured lines' = some next' ∧
      List.Forall₂ (Line.Twinned [.value, .assign, .alias]) next next' := by
  obtain ⟨first, first', hfirst, hfirst', h⟩ :=
    exists_pass_twin passed_alias h style.alignColumns
  obtain ⟨second, second', hsecond, hsecond', h⟩ :=
    exists_pass_twin passed_assign h style.alignAssignments
  obtain ⟨third, third', hthird, hthird', h⟩ :=
    exists_pass_twin passed_value h style.alignValues
  refine ⟨third, third', ?_, ?_, h⟩
  · simp only [alignAll?_eq, Style.coloured, hfirst, Option.bind_some, hsecond, hthird]
  · simp only [alignAll?_eq, Style.uncoloured, hfirst', Option.bind_some, hsecond', hthird']

end Alignment

end SqlFormat.Layout
