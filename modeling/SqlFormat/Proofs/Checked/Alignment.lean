import Mathlib
import SqlFormat.Checked.Layout
import SqlFormat.Proofs.Checked.Step
import SqlFormat.Proofs.Layout.Alignment

/-!
# Alignment and its one fault

The lines that are found by index to belong together are those of the lists, and no line is moved to a
column before the one that it has. So all that alignment can fail with is an insertion inside a
character, and it does where it has no result on lists.

Results: `alignAll_eq`, `render_eq`, `layout_eq`.
-/

namespace SqlFormat.Checked

open SqlFormat.Layout Text

/-! ## A fault that stands for no result -/

section Expect

variable {α β : Type} {fault : Fault}

@[simp] theorem expect_some (a : α) : expect fault (some a) = .ok a := rfl

@[simp] theorem expect_none : expect fault (none : Option α) = .error fault := rfl

theorem expect_bind {o : Option α} {f : α → Checked β} {g : α → Option β}
    (h : ∀ a ∈ o, f a = expect fault (g a)) :
    (expect fault o >>= f) = expect fault (o.bind g) := by
  cases o with
  | none => rfl
  | some a => exact h a rfl

theorem mapM_expect {as : List α} {f : α → Checked β} {g : α → Option β}
    (h : ∀ a ∈ as, f a = expect fault (g a)) :
    as.mapM f = expect fault (as.mapM g) := by
  induction as with
  | nil => rfl
  | cons a as ih =>
    rw [List.mapM_cons, List.mapM_cons, h a List.mem_cons_self,
      ih fun a' hmem => h a' (List.mem_cons_of_mem _ hmem)]
    cases g a with
    | none => rfl
    | some b => cases as.mapM g <;> rfl

end Expect

namespace Alignment

open SqlFormat.Layout.Alignment

variable {kind : AnchorKind} {slot : Nat} {row : Row} {rows : List Row} {lines : List Line}

/-! ## Rows -/

/-- Nothing is subtracted below zero when a row is moved to the right. -/
theorem moveTo_eq {target : Nat} (h : ∀ column ∈ row.column? kind slot, column ≤ target) :
    moveTo row kind slot target = expect .insertion (row.moveTo? kind slot target) := by
  rw [moveTo, Row.moveTo?]
  cases ha : row.line.anchor? kind slot with
  | none => rfl
  | some a =>
    have hle : a.column + row.shift ≤ target := h _ (by rw [Row.column?, ha]; rfl)
    simp only [minus_eq hle, ok_bind]
    split
    · rfl
    · cases row.line.pad? (a.offset + row.shift) (target - (a.column + row.shift)) <;> rfl

theorem alignSlot_eq (kind : AnchorKind) (slot : Nat) (rows : List Row) :
    alignSlot kind slot rows = expect .insertion (alignSlot? kind slot rows) := by
  rw [alignSlot, alignSlot?]
  split
  · rfl
  · -- the target is the greatest of the columns, so no row has to be moved to the left
    refine mapM_expect fun row hrow => moveTo_eq fun column hcolumn => ?_
    exact (foldl_max_le_iff.mp le_rfl).2 column (List.mem_filterMap.mpr ⟨row, hrow, hcolumn⟩)

theorem alignSlots_eq (kind : AnchorKind) (slot count : Nat) (rows : List Row) :
    alignSlots kind slot count rows = expect .insertion (alignSlots? kind slot count rows) := by
  induction count generalizing slot rows with
  | zero => rfl
  | succ count ih =>
    rw [alignSlots, alignSlots?, alignSlot_eq]
    exact expect_bind fun rows' _ => ih (slot + 1) rows'

theorem alignGroup_eq (kind : AnchorKind) (lines : List Line) :
    alignGroup kind lines = expect .insertion (alignGroup? kind lines) := by
  rw [alignGroup, alignGroup?]
  cases (slots kind lines).max? with
  | none => rfl
  | some last =>
    simp only [alignSlots_eq]
    cases alignSlots? kind 0 (last + 1) (lines.map (⟨·, 0⟩)) <;> rfl

/-! ## Groups of lines -/

/-- The line goes on a group with this indentation. -/
def continues (indent : Nat) (line : Line) : Bool :=
  line.indent == indent && !line.text.isEmpty

theorem following_eq (lines : Array Line) (indent i : Nat) :
    following lines indent i =
      .ok ((lines.toList.drop i).takeWhile (continues indent)).length := by
  fun_induction following lines indent i with
  | case1 i h ih =>
    have hdrop : lines.toList.drop i = lines[i] :: lines.toList.drop (i + 1) :=
      List.drop_eq_getElem_cons (by simpa using h)
    rw [element_eq (Array.getElem?_eq_getElem h), ok_bind, hdrop, List.takeWhile_cons, continues]
    split
    · rw [ih, ok_bind, List.length_cons]
      rfl
    · rfl
  | case2 i h =>
    rw [List.drop_eq_nil_of_le (by simpa using h)]
    rfl

theorem together_eq {first second : Line} {indent : Nat} (h : first.indent = indent) :
    together first second = continues indent second := by
  rw [together, continues, h]

/-- A line is grouped with the lines behind it for as long as they go on its group. -/
theorem splitBy_cons (first : Line) (rest : List Line) :
    (first :: rest).splitBy together =
      (first :: rest.takeWhile (continues first.indent)) ::
        (rest.dropWhile (continues first.indent)).splitBy together := by
  have hindent : ∀ line ∈ first :: rest.takeWhile (continues first.indent),
      line.indent = first.indent := by
    refine List.forall_mem_cons.mpr ⟨rfl, fun line hmem => ?_⟩
    have hgoes := List.mem_takeWhile_imp hmem
    rw [continues, Bool.and_eq_true, beq_iff_eq] at hgoes
    exact hgoes.1
  -- lines that go on the group of the first one are together, whichever two of them are compared
  have hgroup : (first :: rest.takeWhile (continues first.indent)).IsChain (together · ·) := by
    refine List.Pairwise.isChain (List.pairwise_cons.mpr ⟨fun line hmem => ?_, ?_⟩)
    · rw [together_eq rfl]
      exact List.mem_takeWhile_imp hmem
    · refine List.pairwise_of_forall_mem_list fun line hmem line' hmem' => ?_
      rw [together_eq (hindent line (List.mem_cons_of_mem _ hmem))]
      exact List.mem_takeWhile_imp hmem'
  have hstop : ∀ line ∈ (first :: rest.takeWhile (continues first.indent)).getLast?,
      ∀ next ∈ (rest.dropWhile (continues first.indent)).head?, together line next = false := by
    intro line hline next hnext
    rw [together_eq (hindent line (List.mem_of_getLast? hline))]
    have hfails := List.head?_dropWhile_not (continues first.indent) rest
    rw [Option.mem_def.mp hnext] at hfails
    exact hfails
  conv_lhs => rw [← List.takeWhile_append_dropWhile (p := continues first.indent) (l := rest)]
  rw [← List.cons_append, List.splitBy_append hstop,
    List.splitBy_of_isChain (List.cons_ne_nil _ _) hgroup]
  rfl

/-- The first group is lined up, then the lines behind it. -/
theorem align?_cons (kind : AnchorKind) (first : Line) (rest : List Line) :
    align? kind (first :: rest) =
      (alignGroup? kind (first :: rest.takeWhile (continues first.indent))).bind fun group =>
        (align? kind (rest.dropWhile (continues first.indent))).map (group ++ ·) := by
  rw [align?, align?, splitBy_cons, List.mapM_cons]
  cases alignGroup? kind (first :: rest.takeWhile (continues first.indent)) with
  | none => rfl
  | some group =>
    cases ((rest.dropWhile (continues first.indent)).splitBy together).mapM (alignGroup? kind) <;>
      rfl

theorem part_append {α : Type} {xs : Array α} {start : Nat} {group behind : List α}
    (hne : group ≠ []) (h : xs.toList.drop start = group ++ behind) :
    part xs start (start + group.length) = .ok group.toArray := by
  have hlength := congrArg List.length h
  have hpos := List.length_pos_of_ne_nil hne
  rw [List.length_drop, Array.length_toList, List.length_append] at hlength
  rw [part_eq (Nat.le_add_right _ _) (by omega), Except.ok.injEq, ← Array.toList_inj,
    Array.toList_extract, List.extract_eq_take_drop, h, Nat.add_sub_cancel_left, List.take_left]

theorem alignFrom_eq (kind : AnchorKind) (lines : Array Line) (start : Nat) :
    alignFrom kind lines start = expect .insertion (align? kind (lines.toList.drop start)) := by
  fun_induction alignFrom kind lines start with
  | case1 start h ih =>
    have hdrop : lines.toList.drop start = lines[start] :: lines.toList.drop (start + 1) :=
      List.drop_eq_getElem_cons (by simpa using h)
    rw [element_eq (Array.getElem?_eq_getElem h), ok_bind, following_eq, ok_bind, hdrop, align?_cons]
    generalize hgroup : (lines.toList.drop (start + 1)).takeWhile (continues lines[start].indent) =
      group
    generalize hbehind : (lines.toList.drop (start + 1)).dropWhile (continues lines[start].indent) =
      behind
    have hsplit : lines.toList.drop start = (lines[start] :: group) ++ behind := by
      rw [hdrop, ← hgroup, ← hbehind, List.cons_append, List.takeWhile_append_dropWhile]
    have hpart := part_append (List.cons_ne_nil _ _) hsplit
    have hnext : lines.toList.drop (start + (lines[start] :: group).length) = behind := by
      rw [← List.drop_drop, hsplit, List.drop_left]
    rw [List.length_cons, Nat.add_comm group.length, ← Nat.add_assoc] at hpart hnext
    rw [hpart, ok_bind, alignGroup_eq, ih, hnext]
    refine expect_bind fun aligned _ => ?_
    cases align? kind behind <;> rfl
  | case2 start h =>
    rw [List.drop_eq_nil_of_le (by simpa using h)]
    rfl

theorem align_eq (kind : AnchorKind) (lines : List Line) :
    align kind lines = expect .insertion (align? kind lines) := by
  rw [align, alignFrom_eq, List.toList_toArray, List.drop_zero]

/-- A pass that the style may not ask for, and what comes after it. -/
theorem pass_eq {wanted : Bool} {after : List Line → Checked (List Line)}
    {after? : List Line → Option (List Line)}
    (h : ∀ lines, after lines = expect .insertion (after? lines)) (kind : AnchorKind)
    (lines : List Line) :
    (if wanted then align kind lines >>= after else after lines) =
      expect .insertion ((if wanted then align? kind lines else some lines).bind after?) := by
  cases wanted with
  | true =>
    rw [if_pos rfl, if_pos rfl, align_eq]
    exact expect_bind fun lines' _ => h lines'
  | false => exact h lines

/-- **Alignment**: all that can go wrong is that spaces would split a character. -/
theorem alignAll_eq (style : Style) (lines : List Line) :
    alignAll style lines = expect .insertion (alignAll? style lines) := by
  rw [alignAll, alignAll?_eq]
  refine pass_eq (fun aliases => ?_) .alias lines
  refine pass_eq (fun assigned => ?_) .assign aliases
  cases style.alignValues with
  | true => exact align_eq .value assigned
  | false => rfl

end Alignment

/-- The white space at the end of a text starts where a character does. -/
theorem render_eq (unit : String) (lines : List Line) :
    render unit lines = .ok (Layout.render unit lines) := by
  rw [render, Layout.render]
  generalize String.join (lines.map (renderLine unit)) = text
  obtain ⟨white, htext, -⟩ := dropWhileEnd_spec isWhite text.toList
  have hcut := substring_append [] (dropWhileEnd isWhite text.toList) white
  rw [List.nil_append, ← htext, String.ofList_toList] at hcut
  rw [trimEnd, ← Lexer.byteLength_eq]
  rwa [byteLength, Nat.zero_add] at hcut

/-- **Layout**: all that can go wrong is that alignment would split a character. -/
theorem layout_eq (ctx : Context) (tokens : List Token) :
    layout ctx tokens.toArray = expect .insertion (layout? ctx tokens) := by
  rw [layout, layout?, linesOf_eq, ok_bind, Alignment.alignAll_eq]
  cases Alignment.alignAll? ctx.style (Layout.linesOf ctx tokens) with
  | none => rfl
  | some lines => exact render_eq _ _

end SqlFormat.Checked
