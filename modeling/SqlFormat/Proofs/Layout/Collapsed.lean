import Mathlib
import SqlFormat.Proofs.Groups.Matching
import SqlFormat.Proofs.Layout.Column

/-!
# Groups on one line fit

A bracket group is kept on one line if there is room for its tokens, each with a space. While the
group is open nothing starts a line, and no token takes more columns than it was measured with, so
the line is no longer than it may be when the closing bracket is written.

The group has to stay open for that. A closer that closes nothing in the group closes a block
further out, if there is one for it, and the group with it. What comes then is laid out like the
rest of what is around the group, although its closing bracket has not been read.

Results: `KeepsInline.reached`, `KeepsInline.reach_le`.
-/

namespace SqlFormat

namespace Groups

variable {tokens : List Token} {i j w : Nat}

/-! ## Measured groups -/

/-- A group with a width has nothing in it that has to start a line, and its tokens take one column
more than the width. -/
theorem of_inlineWidth? (h : (ofTokens tokens).inlineWidth? i = some w) :
    ∃ j, (ofTokens tokens).matchingClose? i = some j ∧
      (∀ m, i ≤ m → m ≤ j → ∀ t ∈ tokens[m]?, t.breaksLine = false) ∧
      ((tokens.map Token.width).take (j + 1)).sum ≤
        ((tokens.map Token.width).take i).sum + w + 1 := by
  unfold inlineWidth? at h
  split at h
  case h_2 => cases h
  next j hclose =>
  split at h
  case isFalse => cases h
  next hbreaks =>
  have hpair := pair_of_matchingClose? hclose
  obtain ⟨-, u, -, hu, -⟩ := hpair.forms
  have hj : j + 1 ≤ tokens.length := (List.getElem?_eq_some_iff.mp hu).1
  have hlt := hpair.lt
  refine ⟨j, hclose, fun m him hmj t ht => ?_, ?_⟩
  · obtain ⟨n, rfl⟩ := Nat.exists_eq_add_of_le him
    exact calm_of_breaks hj hbreaks (by omega) n (by omega) t ht
  · rw [width?, hclose, Option.map_some, widths_getD tokens hj, widths_getD tokens (by omega)] at h
    have hw := Option.some.inj h
    omega

end Groups

namespace Layout

open Text

variable {ctx : Context} {items : List Item} {item : Item} {v : Sight} {depth i j : Nat}
  {key : String}

/-! ## Inside a group -/

/-- The block on top of so many others is a bracket group with this opening bracket, and it stays on
one line with all that is open inside it. -/
def Nesting.Within (n : Nesting) (depth : Nat) (key : String) : Prop :=
  ∃ inner f outer, n.stack = inner ++ f :: outer ∧ outer.length = depth ∧ f.key = key ∧
    ∀ g ∈ inner ++ [f], g.inline = true

namespace Nesting.Within

variable {n m : Nesting}

theorem inInline (h : n.Within depth key) : n.inInline = true := by
  obtain ⟨inner, f, outer, hstack, -, -, hinline⟩ := h
  cases inner with
  | nil => simpa [Nesting.inInline, top?, hstack] using hinline
  | cons g inner =>
    simpa [Nesting.inInline, top?, hstack] using hinline g (by simp)

theorem goes (h : n.Within depth key) (hgoes : n.Goes m) : m.Within depth key := by
  obtain ⟨inner, f, outer, hstack, hdepth, hkey, hinline⟩ := h
  rcases hgoes.stack with hsame | ⟨g, g', below, hg, hm, hframe, hgkey⟩
  · exact ⟨inner, f, outer, hsame.trans hstack, hdepth, hkey, hinline⟩
  · rw [hstack] at hg
    cases inner with
    | nil =>
      obtain ⟨rfl, rfl⟩ := List.cons.inj hg
      refine ⟨[], g', outer, hm, hdepth, hgkey.trans hkey, fun other hother => ?_⟩
      rw [List.mem_singleton.mp hother, hframe.inline]
      exact hinline f (by simp)
    | cons first inner =>
      obtain ⟨rfl, rfl⟩ := List.cons.inj hg
      refine ⟨g' :: inner, f, outer, hm, hdepth, hkey, fun other hother => ?_⟩
      rcases List.mem_cons.mp hother with rfl | hother
      · rw [hframe.inline]
        exact hinline first (by simp)
      · exact hinline other (List.mem_cons_of_mem _ hother)

theorem push (h : n.Within depth key) {f : Frame} (hf : f.inline = true) :
    (n.push f).Within depth key := by
  obtain ⟨inner, g, outer, hstack, hdepth, hkey, hinline⟩ := h
  refine ⟨f :: inner, g, outer, by rw [Nesting.push, hstack]; rfl, hdepth, hkey, ?_⟩
  intro other hother
  rcases List.mem_cons.mp hother with rfl | hother
  · exact hf
  · exact hinline other hother

/-- A closer inside the group closes a frame of the group, or one further out and the group with
it. -/
theorem close? (h : n.Within depth key) {closes : String → Bool} {f : Frame}
    (hclose : n.close? (fun f => closes f.key) = some (f, m)) :
    (f.inline = true ∧ (m.Within depth key ∨ m.stack.length = depth)) ∨
      (m.stack.length < depth ∧ closes key = false) := by
  obtain ⟨inner, g, outer, hstack, rfl, rfl, hinline⟩ := h
  obtain ⟨pre, hpre, hfail, -, -⟩ := close?_eq_some hclose
  have hg : g.inline = true := hinline g (by simp)
  rcases List.append_eq_append_iff.mp (hstack.symm.trans hpre) with
    ⟨mid, hmid, hrest⟩ | ⟨mid, hmid, hrest⟩
  · cases mid with
    | nil =>
      obtain ⟨rfl, rfl⟩ := List.cons.inj hrest
      exact .inl ⟨hg, .inr rfl⟩
    | cons first mid =>
      -- the frame of the group is passed over
      have houter : outer = mid ++ f :: m.stack := (List.cons.inj hrest).2
      have hcloses : closes g.key = false := hfail g (by
        rw [hmid, (List.cons.inj hrest).1]
        simp)
      refine .inr ⟨?_, hcloses⟩
      rw [houter, List.length_append, List.length_cons]
      omega
  · cases mid with
    | nil =>
      obtain ⟨rfl, rfl⟩ := List.cons.inj hrest
      exact .inl ⟨hg, .inr rfl⟩
    | cons first mid =>
      obtain ⟨rfl, hbelow⟩ := List.cons.inj hrest
      refine .inl ⟨hinline f (by simp [hmid]), .inl ⟨mid, g, outer, hbelow, rfl, rfl, ?_⟩⟩
      intro other hother
      refine hinline other ?_
      rw [hmid, List.append_assoc]
      exact List.mem_append_right _ (List.mem_cons_of_mem _ hother)

end Nesting.Within

/-- The token is put on the line that is there, and no line is started after it. -/
def State.Decision.Stays (d : State.Decision) : Prop :=
  d.placed = none ∧ d.settled = none

namespace Sight

/-- A token that need not start a line keeps the group open and on its line, unless it closes it. -/
theorem within_decision (ctx : Context) (v : Sight) (hsound : v.nesting.Sound)
    (h : v.nesting.Within depth key) (hcalm : item.token.breaksLine = false) :
    ((v.decision ctx item).Stays ∧ ((v.decision ctx item).nesting.Within depth key ∨
        (v.decision ctx item).nesting.stack.length = depth)) ∨
      ((v.decision ctx item).nesting.stack.length < depth ∧
        item.token.kind = .closeParen ∧
        ctx.dialect.lexicon.closes (State.closerKey item.token) key = false) := by
  have hinline := h.inInline
  have hcontent : v.content.Stays ∧ (v.content.nesting.Within depth key ∨
      v.content.nesting.stack.length = depth) := ⟨⟨rfl, rfl⟩, .inl h⟩
  have hgoes : ∀ {d : State.Decision}, v.nesting.Goes d.nesting ∧ v.Quiet d →
      d.Stays ∧ (d.nesting.Within depth key ∨ d.nesting.stack.length = depth) := fun hd =>
    ⟨⟨hd.2.placed hinline, hd.2.settled hinline⟩, .inl (h.goes hd.1)⟩
  simp only [Token.breaksLine, Bool.or_eq_false_iff] at hcalm
  obtain ⟨⟨hkinds, hsemi⟩, hword⟩ := hcalm
  unfold decision
  cases hkind : item.token.kind with
  | reservedTopLevel | reservedTopLevelNoIndent | reservedNewline | lineComment | blockComment =>
    rw [hkind] at hkinds
    cases hkinds
  | openParen =>
    have hbracket : item.token.isBracket = true := by simpa [hkind] using hword
    refine .inl ?_
    simp only [opener, hbracket, if_true]
    split
    · exact hcontent
    · simp only [bracket, hinline, Bool.true_or, if_true]
      exact ⟨⟨rfl, rfl⟩, .inl (h.push rfl)⟩
  | closeParen =>
    simp only [closer]
    split
    · exact .inl hcontent
    · split
      · exact .inl hcontent
      · next f m hclose =>
        rcases h.close? hclose with ⟨hf, hm⟩ | ⟨hm, hcloses⟩
        · exact .inl ⟨⟨by simp [hf], rfl⟩, hm⟩
        · exact .inr ⟨hm, trivial, hcloses⟩
  | operator =>
    have htext : (item.token.text == ";") = false := by
      simpa [Token.isOperator, hkind] using hsemi
    simp only [htext, Bool.false_eq_true, if_false]
    split
    · exact .inl (hgoes v.goes_comma)
    · exact .inl hcontent
  | reserved =>
    simp only
    split
    · next hends => exact .inl (hgoes (goes_headerEnd hsound hends))
    · exact .inl hcontent
  | whitespace | word | string | number | indexedPlaceholder | namedPlaceholder =>
    exact .inl hcontent

end Sight

/-! ## Items -/

theorem Item.getElem?_measure (groups : Groups) (n : Nat) (items : List Item) (k : Nat) :
    (Item.measure groups n items)[k]? =
      items[k]?.map fun item => { item with inlineWidth := groups.inlineWidth? (n + k) } := by
  induction items generalizing n k with
  | nil => simp [Item.measure]
  | cons item items ih =>
    cases k with
    | zero => rfl
    | succ k =>
      rw [Item.measure, List.getElem?_cons_succ, ih, List.getElem?_cons_succ, Nat.add_assoc,
        Nat.add_comm 1]

/-- An item notes the width of the group that it opens. -/
theorem Item.inlineWidth_ofTokens {tokens : List Token}
    (h : (Item.ofTokens tokens)[i]? = some item) :
    item.inlineWidth =
      (Groups.ofTokens ((Item.ofTokens tokens).map (·.token))).inlineWidth? i := by
  rw [Item.ofTokens, Item.map_token_measure]
  rw [Item.ofTokens, Item.getElem?_measure, Nat.zero_add] at h
  obtain ⟨other, -, rfl⟩ := Option.map_eq_some_iff.mp h
  rfl

/-- A pair of brackets, as items. -/
theorem brackets_of_matchingClose?
    (h : (Groups.ofTokens (items.map (·.token))).matchingClose? i = some j) :
    ∃ opener closer, items[i]? = some opener ∧ items[j]? = some closer ∧
      closer.token.isBracket = true ∧ (closer.token.text = ")" ∨ closer.token.text = "]") ∧
      opener.token.text = Groups.openingOf closer.token.text := by
  obtain ⟨t, u, ht, hu, hbracket, hnot, hform⟩ := (Groups.pair_of_matchingClose? h).forms
  rw [List.getElem?_map] at ht hu
  obtain ⟨opener, hopener, rfl⟩ := Option.map_eq_some_iff.mp ht
  obtain ⟨closer, hcloser, rfl⟩ := Option.map_eq_some_iff.mp hu
  refine ⟨opener, closer, hopener, hcloser, hbracket, ?_, hform⟩
  simp only [Bool.or_eq_false_iff, beq_eq_false_iff_ne, ne_eq] at hnot
  have htexts := hbracket
  simp only [Token.isBracket, Bool.and_eq_true, Bool.or_eq_true, beq_iff_eq] at htexts
  rcases htexts.2 with ((h | h) | h) | h
  · exact absurd h hnot.1
  · exact .inl h
  · exact absurd h hnot.2
  · exact .inr h

theorem exists_of_fitsIn {width : Option Nat} {room : Nat}
    (h : Groups.fitsIn width (some room) = true) : ∃ w, width = some w ∧ w ≤ room := by
  cases width with
  | none => cases h
  | some w => exact ⟨w, rfl, by simpa [Groups.fitsIn] using h⟩

/-- The tokens of a text are no white space, and keywords among them are phrases. -/
theorem phrases_itemsOfText (dialect : Dialect) (style : Style) (text : String) :
    ∀ item ∈ itemsOfText dialect style text,
      item.token.kind ≠ .whitespace ∧ item.token.IsPhrase := by
  intro item hitem
  obtain ⟨hmem, hkind⟩ := Item.mem_of_mem_ofTokens hitem
  obtain ⟨t, ht, heq⟩ := List.mem_map.mp hmem
  have hsound : t.Sound dialect := Lexer.sound_of_mem dialect .start 0 text.toList t ht
  exact ⟨hkind, heq ▸ isPhrase_substitute style.params hsound⟩

/-! ## A group that is kept on one line -/

/-- Layout keeps the bracket group on one line that opens behind `i` items, and it is in no other
such group: what comes after its opening bracket is in a block on one line, the bracket is not. -/
structure KeepsInline (ctx : Context) (items : List Item) (i : Nat) : Prop where
  bracket : items[i]?.any (isOpeningBracket ·.token) = true
  outside : (stateAt ctx items i).nesting.inInline = false
  inside : (stateAt ctx items (i + 1)).nesting.inInline = true

instance (ctx : Context) (items : List Item) (i : Nat) : Decidable (KeepsInline ctx items i) :=
  decidable_of_iff (_ ∧ _ ∧ _)
    ⟨fun h => ⟨h.1, h.2.1, h.2.2⟩, fun h => ⟨h.bracket, h.outside, h.inside⟩⟩

/-- The frame of the group that opens behind `i` items is there until the item behind `j` items is
read. -/
def StaysOpen (ctx : Context) (items : List Item) (i j : Nat) : Prop :=
  ∀ k < j + 1, i < k → (stateAt ctx items i).nesting.stack.length <
    (stateAt ctx items k).nesting.stack.length

instance (ctx : Context) (items : List Item) (i j : Nat) : Decidable (StaysOpen ctx items i j) :=
  inferInstanceAs (Decidable (∀ k < j + 1, i < k → _))

/-- What is decided for the item behind `k` items. -/
def decisionAt (ctx : Context) (items : List Item) (k : Nat) (item : Item) : State.Decision :=
  ((stateAt ctx items k).sight ctx item.token).decision ctx item

theorem nesting_stateAt_succ (ctx : Context) {k : Nat} (hk : items[k]? = some item)
    (hcomment : item.token.kind.isComment = false) :
    (stateAt ctx items (k + 1)).nesting = (decisionAt ctx items k item).nesting := by
  rw [stateAt_succ ctx hk]
  exact (State.step_decision ctx _ hcomment).1

/-- The group has been found to fit. -/
theorem KeepsInline.opened (h : KeepsInline ctx items i) (hi : items[i]? = some item)
    (hopen : isOpeningBracket item.token = true) :
    (decisionAt ctx items i item).Stays ∧
      (stateAt ctx items (i + 1)).nesting.Within (stateAt ctx items i).nesting.stack.length
        item.token.text ∧
      Groups.fitsIn item.inlineWidth ((stateAt ctx items i).available ctx) = true := by
  simp only [isOpeningBracket, Bool.and_eq_true, beq_iff_eq] at hopen
  obtain ⟨hkind, hbracket⟩ := hopen
  have hnesting := nesting_stateAt_succ ctx hi (by rw [hkind]; rfl)
  have hinline := h.inside
  rw [hnesting] at hinline ⊢
  set s := stateAt ctx items i
  have hdecision : decisionAt ctx items i item = (s.sight ctx item.token).opener ctx item := by
    rw [decisionAt, Sight.decision, hkind]
  have houtside : (s.sight ctx item.token).nesting.inInline = false := h.outside
  rw [hdecision] at hinline ⊢
  simp only [Sight.opener, hbracket, if_true] at hinline ⊢
  split at hinline
  · -- an opener beyond the limit gets no frame
    exact absurd (houtside.symm.trans hinline) Bool.false_ne_true
  · next hfull =>
    simp only [Sight.bracket, houtside, Bool.false_or] at hinline
    have hfits : Groups.fitsIn item.inlineWidth (s.sight ctx item.token).room = true := hinline
    rw [if_neg hfull]
    simp only [Sight.bracket, houtside, Bool.false_or, if_pos hfits]
    refine ⟨⟨rfl, rfl⟩, ⟨[], _, s.nesting.stack, rfl, rfl, rfl, fun g hg => ?_⟩, hfits⟩
    rw [List.mem_singleton.mp hg]
    exact hfits

/-- A token that stays on the line takes no more columns than it was measured with. -/
theorem reach_stateAt_succ_le (hplain : ctx.decorate = fun _ text => text) {k : Nat}
    (hk : items[k]? = some item) (hcomment : item.token.kind.isComment = false)
    (hitem : item.token.kind ≠ .whitespace ∧ item.token.IsPhrase)
    (hstays : (decisionAt ctx items k item).Stays) (unit : Nat) :
    (stateAt ctx items (k + 1)).page.breakAt = none ∧
      (stateAt ctx items (k + 1)).page.reach unit + 1 ≤
        (stateAt ctx items k).page.column unit + (!(stateAt ctx items k).page.atLineStart).toNat +
          item.token.width := by
  have hmeasured : (stateAt ctx items k).page.Measured := measured_run (s := .start) hplain rfl _
  have hshort := length_displayText_lt ctx hitem.1 hitem.2
  rw [stateAt_succ ctx hk, State.step, if_neg (by simp [hcomment]), State.significant_eq]
  obtain ⟨hplaced, hsettled⟩ := hstays
  unfold decisionAt at hplaced hsettled
  generalize ((stateAt ctx items k).sight ctx item.token).decision ctx item = d at hplaced hsettled
  have hreach := reach_written_le hplain hmeasured unit item
    (d.anchor.or (stateAt ctx items k).pendingAnchor)
  simp only [State.decided, hplaced, hsettled, Page.settle]
  exact ⟨State.breakAt_written .., by omega⟩

/-- The columns of the tokens before an item, each with a space. -/
def widthBefore (items : List Item) (k : Nat) : Nat :=
  (((items.map (·.token)).map Token.width).take k).sum

theorem widthBefore_succ {k : Nat} (hk : items[k]? = some item) :
    widthBefore items (k + 1) = widthBefore items k + item.token.width := by
  rw [widthBefore, widthBefore, List.take_add_one, List.getElem?_map, List.getElem?_map, hk]
  simp

/-- What holds in a group on one line: no line is about to start, and no more columns are taken than
the tokens since its opening bracket were measured with. -/
structure Reached (ctx : Context) (items : List Item) (unit i k : Nat) : Prop where
  line : (stateAt ctx items k).page.breakAt = none
  reach : (stateAt ctx items k).page.reach unit + 1 + widthBefore items i ≤
    (stateAt ctx items i).page.column unit + (!(stateAt ctx items i).page.atLineStart).toNat +
      widthBefore items k

theorem Reached.succ (hplain : ctx.decorate = fun _ text => text) {unit k : Nat}
    (h : Reached ctx items unit i k) (hk : items[k]? = some item)
    (hcomment : item.token.kind.isComment = false)
    (hitem : item.token.kind ≠ .whitespace ∧ item.token.IsPhrase)
    (hstays : (decisionAt ctx items k item).Stays) : Reached ctx items unit i (k + 1) := by
  obtain ⟨hline, hreach⟩ := reach_stateAt_succ_le hplain hk hcomment hitem hstays unit
  refine ⟨hline, ?_⟩
  have hcolumn : (stateAt ctx items k).page.column unit =
      (stateAt ctx items k).page.reach unit := by
    rw [Page.column, h.line, Page.reach]
  have hspace := Bool.toNat_le (!(stateAt ctx items k).page.atLineStart)
  have hbefore := h.reach
  rw [widthBefore_succ hk]
  omega

theorem isComment_of_calm {t : Token} (hcalm : t.breaksLine = false) :
    t.kind.isComment = false := by
  simp only [Token.breaksLine, Bool.or_eq_false_iff] at hcalm
  revert hcalm
  cases t.kind <;> simp [TokenKind.breaksInlineGroup, TokenKind.isComment]

/-- An item of a group that stays open goes on its line, and the group is open behind it, unless it
is the closing bracket. -/
theorem StaysOpen.stays (h : StaysOpen ctx items i j) {k : Nat} (hik : i + 1 ≤ k) (hkj : k ≤ j)
    (hk : items[k]? = some item) (hcalm : item.token.breaksLine = false)
    (hcloses : k = j → ctx.dialect.lexicon.closes (State.closerKey item.token) key = true)
    (hwithin : (stateAt ctx items k).nesting.Within
      (stateAt ctx items i).nesting.stack.length key) :
    (decisionAt ctx items k item).Stays ∧ (k < j → (stateAt ctx items (k + 1)).nesting.Within
      (stateAt ctx items i).nesting.stack.length key) := by
  rw [nesting_stateAt_succ ctx hk (isComment_of_calm hcalm)]
  have hsound : (stateAt ctx items k).nesting.Sound := State.run_sound ctx Nesting.sound_start _
  have hlater : k < j → (stateAt ctx items i).nesting.stack.length <
      (decisionAt ctx items k item).nesting.stack.length := by
    intro hkj
    rw [← nesting_stateAt_succ ctx hk (isComment_of_calm hcalm)]
    exact h (k + 1) (Nat.succ_lt_succ hkj) (Nat.lt_succ_of_lt hik)
  rcases Sight.within_decision ctx ((stateAt ctx items k).sight ctx item.token) hsound hwithin hcalm
    with ⟨hstays, hnext⟩ | ⟨hclosed, -, hother⟩
  · refine ⟨hstays, fun hkj => hnext.resolve_right fun hlength => ?_⟩
    exact absurd (hlater hkj) (by rw [decisionAt, hlength]; exact lt_irrefl _)
  · -- no item of the group closes a block further out, and the closing bracket closes the group
    exfalso
    rcases Nat.lt_or_eq_of_le hkj with hkj | hkj
    · exact absurd (hlater hkj) (Nat.lt_asymm hclosed)
    · rw [hcloses hkj] at hother
      cases hother

/-- What layout reaches in a group on one line, up to its closing bracket. -/
theorem KeepsInline.reached (hplain : ctx.decorate = fun _ text => text)
    (hitems : ∀ item ∈ items, item.token.kind ≠ .whitespace ∧ item.token.IsPhrase)
    (h : KeepsInline ctx items i) {opener closer : Item} (hi : items[i]? = some opener)
    (hopener : isOpeningBracket opener.token = true) (hj : items[j]? = some closer)
    (hcloses : ctx.dialect.lexicon.closes (State.closerKey closer.token) opener.token.text = true)
    (hcalm : ∀ m, i ≤ m → m ≤ j → ∀ item ∈ items[m]?, item.token.breaksLine = false)
    (hopen : StaysOpen ctx items i j) (unit : Nat) {k : Nat} (hik : i + 1 ≤ k) (hkj : k ≤ j + 1) :
    Reached ctx items unit i k ∧ (k ≤ j → (stateAt ctx items k).nesting.Within
      (stateAt ctx items i).nesting.stack.length opener.token.text) := by
  have hmem : ∀ {m : Nat} {item : Item}, items[m]? = some item → item ∈ items :=
    fun hm => List.mem_of_getElem? hm
  induction k, hik using Nat.le_induction with
  | base =>
    have hquiet := hcalm i le_rfl (by omega) opener hi
    obtain ⟨hstays, hwithin, -⟩ := h.opened hi hopener
    obtain ⟨hline, hreach⟩ := reach_stateAt_succ_le hplain hi (isComment_of_calm hquiet)
      (hitems opener (hmem hi)) hstays unit
    refine ⟨⟨hline, ?_⟩, fun _ => hwithin⟩
    rw [widthBefore_succ hi]
    omega
  | succ k hik ih =>
    obtain ⟨hreached, hwithin⟩ := ih (by omega)
    have hkj' : k ≤ j := by omega
    have hlt : k < items.length := lt_of_le_of_lt hkj' (List.getElem?_eq_some_iff.mp hj).1
    have hk : items[k]? = some items[k] := List.getElem?_eq_getElem hlt
    have hquiet := hcalm k (Nat.le_of_succ_le hik) hkj' _ hk
    have hlast : k = j → ctx.dialect.lexicon.closes (State.closerKey items[k].token)
        opener.token.text = true := by
      rintro rfl
      rwa [Option.some.inj (hk.symm.trans hj)]
    obtain ⟨hstays, hnext⟩ := hopen.stays hik hkj' hk hquiet hlast (hwithin hkj')
    exact ⟨hreached.succ hplain hk (isComment_of_calm hquiet) (hitems _ (hmem hk)) hstays, hnext⟩

theorem width_of_isBracket {t : Token} (h : t.isBracket = true) : t.width = 2 := by
  simp only [Token.isBracket, Bool.and_eq_true, Bool.or_eq_true, beq_iff_eq] at h
  obtain ⟨hkind, htext⟩ := h
  have hlength : t.text.length = 1 := by
    rcases htext with ((h | h) | h) | h <;> rw [h] <;> rfl
  rcases hkind with hkind | hkind <;> simp [Token.width, hkind, TokenKind.isReserved, hlength]

theorem widthBefore_mono {k m : Nat} (h : k ≤ m) : widthBefore items k ≤ widthBefore items m :=
  (List.take_sublist_take_left h).sum_le_sum fun _ _ => Nat.zero_le _

/-- A group that is kept on one line has a width, for which there was room. -/
theorem KeepsInline.fits {tokens : List Token} (hitems : items = Item.ofTokens tokens)
    (hlimit : 0 < ctx.style.maxLineLength) (h : KeepsInline ctx items i)
    (hi : items[i]? = some item) (hopen : isOpeningBracket item.token = true) :
    ∃ w, (Groups.ofTokens (items.map (·.token))).inlineWidth? i = some w ∧
      w ≤ ctx.style.maxLineLength - ((stateAt ctx items i).page.column ctx.style.indentWidth +
        (!(stateAt ctx items i).page.atLineStart).toNat) := by
  obtain ⟨-, -, hfits⟩ := h.opened hi hopen
  have hroom : (stateAt ctx items i).available ctx = some (ctx.style.maxLineLength -
      ((stateAt ctx items i).page.column ctx.style.indentWidth +
        (!(stateAt ctx items i).page.atLineStart).toNat)) :=
    if_neg (Nat.pos_iff_ne_zero.mp hlimit)
  rw [hroom] at hfits
  obtain ⟨w, hw, hle⟩ := exists_of_fitsIn hfits
  subst hitems
  exact ⟨w, (Item.inlineWidth_ofTokens hi).symm.trans hw, hle⟩

/-- **A group that is kept on one line ends where a line has to end, or before**, if it is open
until then. -/
theorem KeepsInline.reach_le (hplain : ctx.decorate = fun _ text => text) {text : String}
    (hitems : items = itemsOfText ctx.dialect ctx.style text) (hlimit : 0 < ctx.style.maxLineLength)
    (h : KeepsInline ctx items i)
    (hclose : (Groups.ofTokens (items.map (·.token))).matchingClose? i = some j)
    (hopen : StaysOpen ctx items i j) :
    (stateAt ctx items (j + 1)).page.reach ctx.style.indentWidth ≤ ctx.style.maxLineLength := by
  obtain ⟨opener, closer, hi, hj, hbracket, htexts, hform⟩ := brackets_of_matchingClose? hclose
  have hopening : isOpeningBracket opener.token = true := by
    have hbracket := h.bracket
    rwa [hi] at hbracket
  obtain ⟨w, hw, hle⟩ := h.fits hitems hlimit hi hopening
  obtain ⟨j', hclose', hcalm, hsum⟩ := Groups.of_inlineWidth? hw
  obtain rfl : j' = j := Option.some.inj (hclose'.symm.trans hclose)
  have hlt : i < j' := (Groups.pair_of_matchingClose? hclose).lt
  -- the closing bracket closes the group
  have hcloses : ctx.dialect.lexicon.closes (State.closerKey closer.token) opener.token.text =
      true := by
    rw [State.closerKey, if_pos hbracket, closes_bracket _ htexts, hform]
    exact beq_self_eq_true _
  have hquiet : ∀ m, i ≤ m → m ≤ j' → ∀ item ∈ items[m]?, item.token.breaksLine = false := by
    intro m him hmj other hother
    refine hcalm m him hmj other.token ?_
    rw [List.getElem?_map, hother]
    rfl
  have hphrases : ∀ item ∈ items, item.token.kind ≠ .whitespace ∧ item.token.IsPhrase := by
    subst hitems
    exact phrases_itemsOfText ctx.dialect ctx.style text
  have hnext : i + 1 ≤ j' + 1 := Nat.succ_le_succ hlt.le
  obtain ⟨⟨-, hreach⟩, -⟩ := h.reached hplain hphrases hi hopening hj hcloses hquiet hopen
    ctx.style.indentWidth hnext le_rfl
  have hwide : widthBefore items i + 2 ≤ widthBefore items (j' + 1) := by
    have hpair : opener.token.isBracket = true := by
      simp only [isOpeningBracket, Bool.and_eq_true] at hopening
      exact hopening.2
    calc widthBefore items i + 2 = widthBefore items (i + 1) := by
          rw [widthBefore_succ hi, width_of_isBracket hpair]
      _ ≤ widthBefore items (j' + 1) := widthBefore_mono hnext
  have htotal : widthBefore items (j' + 1) ≤ widthBefore items i + w + 1 := hsum
  omega

/-! ## The closing bracket on the page -/

theorem Page.suffix_upTo_write (unit : String) (page : Page) {text : String} (hne : text ≠ "")
    (width : Nat) : text.toList <:+ (page.write text width).upTo unit := by
  have hline : page.line.text ++ text ≠ "" := by
    rw [Ne, ← String.toList_inj, String.toList_append]
    simp [hne]
  rw [Page.upTo, Page.write, Line.chars_of_ne hline, String.toList_append]
  exact (List.suffix_append_of_suffix (List.suffix_append_of_suffix (List.suffix_append _ _)))

/-- What is on the page after a token that is written as it is ends with the token. -/
theorem suffix_upTo_stateAt_succ (hplain : ctx.decorate = fun _ text => text) {k : Nat}
    (hk : items[k]? = some item) (hcomment : item.token.kind.isComment = false)
    (hkeyword : item.token.isKeyword = false) (hne : item.token.text ≠ "") (unit : String) :
    item.token.text.toList <:+ (stateAt ctx items (k + 1)).page.upTo unit := by
  have hdisplay : State.displayText ctx item.token = item.token.text := by
    rw [State.displayText, hkeyword]
    rfl
  rw [stateAt_succ ctx hk, State.step, if_neg (by simp [hcomment]), State.significant_eq]
  simp only [State.decided, Page.upTo_settle, State.written, hplain, hdisplay]
  exact Page.suffix_upTo_write unit _ hne _

/-- What is on the page after a bracket ends with it. -/
theorem suffix_upTo_of_isBracket (hplain : ctx.decorate = fun _ text => text) {k : Nat}
    (hk : items[k]? = some item) (hbracket : item.token.isBracket = true) (unit : String) :
    item.token.text.toList <:+ (stateAt ctx items (k + 1)).page.upTo unit := by
  have hkinds : item.token.kind = .openParen ∨ item.token.kind = .closeParen := by
    simp only [Token.isBracket, Bool.and_eq_true, Bool.or_eq_true, beq_iff_eq] at hbracket
    exact hbracket.1
  have hcomment : item.token.kind.isComment = false := by
    rcases hkinds with h | h <;> rw [h] <;> rfl
  have hkeyword : item.token.isKeyword = false := by
    rcases hkinds with h | h <;> simp [Token.isKeyword, h, hbracket, TokenKind.isReserved]
  have hne : item.token.text ≠ "" := by
    intro hempty
    simp [Token.isBracket, hempty] at hbracket
  exact suffix_upTo_stateAt_succ hplain hk hcomment hkeyword hne unit

end Layout

end SqlFormat
