import Mathlib
import SqlFormat.Proofs.Layout.Collapsed

/-!
# `BETWEEN` and its `AND`

The `AND` of a `BETWEEN` stays on its line, every other `AND` starts one. Layout does not pair the two
by their nesting: one flag says that a `BETWEEN` waits. The next `AND` takes it, wherever that stands,
and a semicolon or a clause that starts a line gives up the wait. The flag is a function of the tokens
and of where clauses start lines, so that it can be told for every `AND` which of the two it is.

Results: `between_stateAt` (when the flag is set), `and_of_between`, `and_after_subquery` (an operand
that gives up the wait).
-/

namespace SqlFormat

namespace Token

/-- A `BETWEEN`. -/
def isBetween (t : Token) : Bool :=
  t.kind == .reserved && (t.keyText == "between" || t.keyText == "not between")

/-- An `AND`. -/
def isAnd (t : Token) : Bool :=
  t.kind == .reservedNewline && t.keyText == "and"

/-- A keyword that starts a clause, or ends one. -/
def isTopLevel (t : Token) : Bool :=
  t.kind == .reservedTopLevel || t.kind == .reservedTopLevelNoIndent

/-- A token that may end the line that it stands on. -/
def mayEndLine (lexicon : Lexicon) (t : Token) : Bool :=
  match t.kind with
  | .reservedTopLevel | .reservedTopLevelNoIndent | .openParen | .lineComment | .blockComment => true
  | .reservedNewline => lexicon.isBlockSection t.keyText
  | .operator => t.text == ";" || t.text == ","
  | .reserved => t.keyText == "then" || t.keyText == "do"
  | _ => false

end Token

/-- In every dialect the words that end headers are the same two. -/
theorem Dialect.openers_headerEnd (dialect : Dialect) :
    dialect.lexicon.openers.all
      (fun e => e.2.headerEnd.all fun word => word == "then" || word == "do") = true := by
  cases dialect <;> decide

namespace Layout

open State (Decision)

variable {ctx : Context} {s : State} {v : Sight} {item : Item} {items : List Item} {k m : Nat}

/-! ## Headers -/

/-- A header ends with `THEN` or with `DO`. -/
def Frame.EndsKnown (f : Frame) : Prop :=
  ∀ word ∈ f.headerEnd, word = "then" ∨ word = "do"

theorem Frame.EndsKnown.of_eq {f g : Frame} (h : f.EndsKnown) (heq : g.headerEnd = f.headerEnd) :
    g.EndsKnown := by
  intro word hword
  rw [heq] at hword
  exact h word hword

theorem Frame.endsKnown_of_none {f : Frame} (h : f.headerEnd = none) : f.EndsKnown := by
  intro word hword
  simp [h] at hword

theorem endsKnown_of_opener? {dialect : Dialect} {key : String} {opener : Opener}
    (h : dialect.lexicon.opener? key = some opener) :
    ∀ word ∈ opener.headerEnd, word = "then" ∨ word = "do" := by
  unfold Lexicon.opener? at h
  split at h
  · cases h
    simp
  · obtain ⟨l, r, heq, -⟩ := List.lookup_eq_some_iff.mp h
    have hall := List.all_eq_true.mp dialect.openers_headerEnd (key, opener) (by simp [heq])
    intro word hword
    simpa using (Option.all_eq_true ..).mp hall word hword

/-- The header of every open block ends so. -/
def Nesting.EndsKnown (n : Nesting) : Prop :=
  ∀ f ∈ n.stack, f.EndsKnown

theorem Nesting.EndsKnown.push {n : Nesting} (h : n.EndsKnown) {f : Frame} (hf : f.EndsKnown) :
    (n.push f).EndsKnown := by
  rintro g (_ | ⟨_, hg⟩)
  · exact hf
  · exact h g hg

namespace Sight

section EndsKnown

variable (h : v.nesting.EndsKnown)
include h

theorem endsKnown_clause (clause : Option Clause) : (v.clause clause).nesting.EndsKnown := by
  unfold Sight.clause
  split
  · exact h
  · exact Nesting.forall_setClause h fun _ hf => hf.of_eq rfl

theorem endsKnown_keyword (lexicon : Lexicon) (key : String) :
    (v.keyword lexicon key).nesting.EndsKnown := by
  have hdivision : ∀ frame, (v.division frame key).nesting.EndsKnown := by
    intro frame
    unfold division
    split
    · -- an `ELSIF` has a header of its own, up to its `THEN`
      refine Nesting.forall_modifyTop h fun _ _ word hword => .inl ?_
      exact (Option.some.inj hword).symm
    · exact Nesting.forall_modifyTop h fun _ hf => hf.of_eq rfl
  unfold keyword
  split
  · exact h
  · split
    · exact h
    · split
      · split
        · exact hdivision _
        · split <;> exact h
      · exact h

theorem endsKnown_opener (ctx : Context) (item : Item) : (v.opener ctx item).nesting.EndsKnown := by
  unfold opener
  split
  · exact h
  · split
    · exact h.push (Frame.endsKnown_of_none rfl)
    · split
      · exact h
      · next o hopener =>
        have hblock : (v.block item.token.keyText o.headerEnd).nesting.EndsKnown :=
          h.push (endsKnown_of_opener? hopener)
        split
        · unfold procedural
          split
          · split
            · exact Nesting.forall_modifyTop h fun _ hf => hf.of_eq rfl
            · exact hblock
          · exact hblock
        · exact h.push (Frame.endsKnown_of_none rfl)

theorem endsKnown_closer (lexicon : Lexicon) (token : Token) :
    (v.closer lexicon token).nesting.EndsKnown := by
  unfold closer
  split
  · exact h
  · split
    · exact h
    · next hclose => exact Nesting.forall_close? h hclose

theorem endsKnown_semicolon (lines : Nat) : (v.semicolon lines).nesting.EndsKnown := by
  have hclear : v.nesting.clear.EndsKnown := Nesting.forall_truncate h 0
  unfold semicolon
  simp only
  split
  · split
    · next hblock =>
      obtain ⟨-, -, -, -, -, -, rfl, -⟩ := Nesting.toProcedural?_eq_some hblock
      exact Nesting.forall_modifyTop (Nesting.forall_truncate h _) fun _ _ =>
        Frame.endsKnown_of_none rfl
    · exact hclear
  · exact hclear

theorem endsKnown_comma : v.comma.nesting.EndsKnown := by
  unfold comma
  simp only
  split
  · exact Nesting.forall_modifyTop h fun _ hf => hf.of_eq rfl
  · exact h

/-- Every decision keeps the ends of headers known. -/
theorem endsKnown_decision (ctx : Context) (item : Item) :
    (v.decision ctx item).nesting.EndsKnown := by
  unfold decision
  cases hkind : item.token.kind with
  | reservedTopLevel | reservedTopLevelNoIndent => exact endsKnown_clause h _
  | reservedNewline => exact endsKnown_keyword h _ _
  | openParen => exact endsKnown_opener h _ _
  | closeParen => exact endsKnown_closer h _ _
  | operator =>
    simp only
    split
    · exact endsKnown_semicolon h _
    · split
      · exact endsKnown_comma h
      · exact h
  | reserved =>
    simp only
    split
    · exact Nesting.forall_modifyTop h fun _ _ => Frame.endsKnown_of_none rfl
    · exact h
  | whitespace | word | string | number | lineComment | blockComment | indexedPlaceholder
    | namedPlaceholder => exact h

theorem eq_of_endsHeader {token : Token} (hends : v.endsHeader token = true) : token.keyText = "then" ∨ token.keyText = "do" := by
  unfold endsHeader at hends
  obtain ⟨word, hword, heq⟩ := (Option.any_eq_true ..).mp hends
  obtain ⟨f, hf, hheader⟩ := Option.bind_eq_some_iff.mp hword
  rw [beq_iff_eq.mp heq]
  exact h f (List.mem_of_mem_head? hf) word hheader

/-- A token that does not end its line lets the next one be written there. -/
theorem settled_decision (ctx : Context)
    (hend : item.token.mayEndLine ctx.dialect.lexicon = false) :
    (v.decision ctx item).settled = none := by
  unfold Token.mayEndLine at hend
  unfold decision
  cases hkind : item.token.kind with
  | reservedTopLevel | reservedTopLevelNoIndent | openParen | lineComment | blockComment =>
    rw [hkind] at hend
    cases hend
  | reservedNewline =>
    simp only [hkind] at hend
    simp only [keyword, hend, Bool.false_eq_true, if_false]
    split
    · rfl
    · split
      · rfl
      · split
        · split <;> rfl
        · rfl
  | closeParen =>
    simp only [closer]
    split
    · rfl
    · split <;> rfl
  | operator =>
    simp only [hkind, Bool.or_eq_false_iff] at hend
    simp only [hend.1, hend.2, Bool.false_eq_true, if_false]
    rfl
  | reserved =>
    simp only [hkind, Bool.or_eq_false_iff, beq_eq_false_iff_ne] at hend
    simp only
    split
    · next hends =>
      rcases eq_of_endsHeader h hends with heq | heq
      · exact absurd heq hend.1
      · exact absurd heq hend.2
    · rfl
  | whitespace | word | string | number | indexedPlaceholder | namedPlaceholder => rfl

end EndsKnown

end Sight

theorem stateAt_of_none (hk : items[k]? = none) : stateAt ctx items (k + 1) = stateAt ctx items k := by
  have hlen := List.getElem?_eq_none_iff.mp hk
  rw [stateAt, stateAt, List.take_of_length_le hlen, List.take_of_length_le (hlen.trans (Nat.le_succ k))]

theorem endsKnown_stateAt (ctx : Context) (items : List Item) (k : Nat) :
    (stateAt ctx items k).nesting.EndsKnown := by
  induction k with
  | zero => simp [stateAt, State.run, State.start, Nesting.start, Nesting.EndsKnown]
  | succ k ih =>
    cases hk : items[k]? with
    | none => rwa [stateAt_of_none hk]
    | some item =>
      by_cases hcomment : item.token.kind.isComment = true
      · rw [stateAt_succ ctx hk, State.step, if_pos hcomment, State.comment_nesting]
        exact ih
      · rw [nesting_stateAt_succ ctx hk (by simpa using hcomment)]
        exact Sight.endsKnown_decision ih ctx item

/-! ## The flag -/

/-- The token makes no `BETWEEN` wait any longer that waits in this state. -/
def State.givesUp (s : State) (token : Token) : Bool :=
  token.isAnd || token.isOperator ";" || (token.isTopLevel && !s.keepsLine)

/-- A `BETWEEN` waits after a token if the token is one, or if one has waited and the token does not end
that. -/
theorem State.between_step (ctx : Context) (h : s.nesting.EndsKnown) (item : Item) :
    (s.step ctx item).between = true ↔
      item.token.isBetween = true ∨ s.between = true ∧ s.givesUp item.token = false := by
  unfold givesUp Token.isBetween Token.isAnd Token.isOperator Token.isTopLevel
  by_cases hcomment : item.token.kind.isComment = true
  · rw [State.step, if_pos hcomment, comment_eq]
    cases hkind : item.token.kind with
    | lineComment | blockComment => simp
    | _ =>
      rw [hkind] at hcomment
      cases hcomment
  · have hbetween : (s.step ctx item).between = (s.sight ctx item.token).betweenAfter item.token := by
      rw [State.step, if_neg hcomment, significant_eq]
      rfl
    have hkeeps : (s.sight ctx item.token).keepsLine = s.keepsLine := rfl
    have hwaits : (s.sight ctx item.token).between = s.between := rfl
    rw [hbetween, Sight.betweenAfter, hkeeps, hwaits]
    cases hkind : item.token.kind with
    | reservedTopLevel | reservedTopLevelNoIndent => simp [and_comm]
    | reservedNewline | operator => simp
    | reserved =>
      -- a header does not end with `BETWEEN`
      have hheader : (item.token.keyText == "between" || item.token.keyText == "not between") = true →
          (s.sight ctx item.token).endsHeader item.token = false := by
        intro hkey
        rw [Bool.eq_false_iff]
        intro hends
        rcases Sight.eq_of_endsHeader h hends with heq | heq <;> rw [heq] at hkey <;> cases hkey
      cases hkey : (item.token.keyText == "between" || item.token.keyText == "not between") with
      | true => simp [hheader hkey]
      | false => simp
    | _ => simp

/-- The item behind `k` items makes no `BETWEEN` wait any longer. -/
def givesUp (ctx : Context) (items : List Item) (k : Nat) : Bool :=
  items[k]?.any fun item => (stateAt ctx items k).givesUp item.token

/-- The item behind `k` items is a `BETWEEN`. -/
def isBetweenAt (items : List Item) (k : Nat) : Bool :=
  items[k]?.any (·.token.isBetween)

/-- A `BETWEEN` waits before the item behind `k` items. -/
def Waits (ctx : Context) (items : List Item) (k : Nat) : Prop :=
  ∃ m < k, isBetweenAt items m = true ∧ ∀ n < k, m < n → givesUp ctx items n = false

instance (ctx : Context) (items : List Item) (k : Nat) : Decidable (Waits ctx items k) :=
  inferInstanceAs (Decidable (∃ m < k, isBetweenAt items m = true ∧ ∀ n < k, m < n → _))

theorem waits_succ (ctx : Context) (items : List Item) (k : Nat) :
    Waits ctx items (k + 1) ↔
      isBetweenAt items k = true ∨ Waits ctx items k ∧ givesUp ctx items k = false := by
  constructor
  · rintro ⟨m, hm, hbetween, hwait⟩
    rcases Nat.lt_succ_iff_lt_or_eq.mp hm with hlt | rfl
    · exact .inr ⟨⟨m, hlt, hbetween, fun n hn => hwait n (Nat.lt_succ_of_lt hn)⟩,
        hwait k (Nat.lt_succ_self k) hlt⟩
    · exact .inl hbetween
  · rintro (hbetween | ⟨⟨m, hm, hbetween, hwait⟩, hlast⟩)
    · exact ⟨k, Nat.lt_succ_self k, hbetween, fun n hn hkn => by omega⟩
    · refine ⟨m, Nat.lt_succ_of_lt hm, hbetween, fun n hn hmn => ?_⟩
      rcases Nat.lt_succ_iff_lt_or_eq.mp hn with hlt | rfl
      · exact hwait n hlt hmn
      · exact hlast

/-- **When the flag is set**: just if a `BETWEEN` waits. -/
theorem between_stateAt (ctx : Context) (items : List Item) (k : Nat) :
    (stateAt ctx items k).between = true ↔ Waits ctx items k := by
  induction k with
  | zero =>
    refine ⟨fun h => ?_, fun ⟨m, hm, _⟩ => absurd hm (Nat.not_lt_zero m)⟩
    cases h
  | succ k ih =>
    rw [waits_succ, ← ih]
    cases hk : items[k]? with
    | none => simp [stateAt_of_none hk, isBetweenAt, givesUp, hk]
    | some item =>
      rw [stateAt_succ ctx hk, State.between_step ctx (endsKnown_stateAt ctx items k)]
      simp [isBetweenAt, givesUp, hk]

/-! ## Where an `AND` stands -/

/-- The item behind `k` items is written on the line of what is before it. -/
def ContinuesLine (ctx : Context) (items : List Item) (k : Nat) : Prop :=
  ∃ item, items[k]? = some item ∧ ∃ gap ∈ ["", " "],
    (stateAt ctx items (k + 1)).page.done = (stateAt ctx items k).page.done ∧
    (stateAt ctx items (k + 1)).page.line.text = (stateAt ctx items k).page.line.text ++ gap ++
      ctx.decorate item.token.kind (State.displayText ctx item.token)

/-- The item behind `k` items is the first of its line. -/
def StartsLine (ctx : Context) (items : List Item) (k : Nat) : Prop :=
  ∃ item, items[k]? = some item ∧ (stateAt ctx items (k + 1)).page.line.text =
    ctx.decorate item.token.kind (State.displayText ctx item.token)

/-- What stands between a `BETWEEN` with `m` items before it and the item behind `k` items is one
operand: there is something, nothing in it gives up the wait, and it does not end its line. -/
structure IsOperand (ctx : Context) (items : List Item) (m k : Nat) : Prop where
  nonempty : m + 1 < k
  waits : ∀ n < k, m < n → givesUp ctx items n = false
  last : items[k - 1]?.any (·.token.mayEndLine ctx.dialect.lexicon) = false

theorem Page.note_text (page : Page) (anchor : Option (AnchorKind × Nat)) :
    (page.note anchor).line.text = page.line.text ∧ (page.note anchor).done = page.done := by
  cases anchor <;> exact ⟨rfl, rfl⟩

theorem Page.settle_text (page : Page) (indent : Option Nat) (lines : Nat) :
    (page.settle indent lines).line.text = page.line.text ∧
      (page.settle indent lines).done = page.done := by
  cases indent <;> exact ⟨rfl, rfl⟩

/-- A token that is not put on a line of its own goes on with the line that is there. -/
theorem State.written_of_none (ctx : Context) (item : Item) (anchor : Option (AnchorKind × Nat))
    (hbreak : s.page.breakAt = none) :
    ∃ gap ∈ ["", " "], (s.written ctx item none anchor).done = s.page.done ∧
      (s.written ctx item none anchor).line.text = s.page.line.text ++ gap ++
        ctx.decorate item.token.kind (displayText ctx item.token) := by
  have hadvance : ∃ gap ∈ ["", " "],
      (s.page.advance (s.spaceBefore ctx item)).done = s.page.done ∧
        (s.page.advance (s.spaceBefore ctx item)).line.text = s.page.line.text ++ gap := by
    rw [Page.advance, hbreak]
    simp only
    split
    · exact ⟨" ", by simp, rfl, rfl⟩
    · exact ⟨"", by simp, rfl, (String.append_empty).symm⟩
  obtain ⟨gap, hgap, hdone, htext⟩ := hadvance
  obtain ⟨hnote, hnoteDone⟩ := Page.note_text (s.page.advance (s.spaceBefore ctx item)) anchor
  refine ⟨gap, hgap, hnoteDone.trans hdone, ?_⟩
  rw [← htext, ← hnote]
  rfl

theorem Page.advance_of_some {page : Page} {indent : Nat} (hbreak : page.breakAt = some indent)
    (space : Bool) : (page.advance space).line.text = "" := by
  rw [advance, hbreak]
  simp only
  split
  · next hempty => exact String.isEmpty_iff.mp hempty
  · rfl

theorem State.written_of_some (ctx : Context) (item : Item) (indent : Nat)
    (anchor : Option (AnchorKind × Nat)) :
    (s.written ctx item (some indent) anchor).line.text =
      ctx.decorate item.token.kind (displayText ctx item.token) := by
  have hadvance : ((s.page.newline indent).advance (s.spaceBefore ctx item)).line.text = "" :=
    Page.advance_of_some rfl _
  obtain ⟨hnote, -⟩ := Page.note_text ((s.page.newline indent).advance (s.spaceBefore ctx item)) anchor
  change (((s.page.newline indent).advance (s.spaceBefore ctx item)).note anchor).line.text ++ _ = _
  rw [hnote, hadvance, String.empty_append]

theorem page_stateAt_succ (ctx : Context) (hk : items[k]? = some item)
    (hcomment : item.token.kind.isComment = false) :
    (stateAt ctx items (k + 1)).page =
      ((stateAt ctx items k).written ctx item (decisionAt ctx items k item).placed
        ((decisionAt ctx items k item).anchor.or (stateAt ctx items k).pendingAnchor)).settle
          (decisionAt ctx items k item).settled (decisionAt ctx items k item).blank := by
  rw [stateAt_succ ctx hk, State.step, if_neg (by simp [hcomment]), State.significant_eq]
  rfl

theorem continuesLine_of_placed (hk : items[k]? = some item)
    (hcomment : item.token.kind.isComment = false)
    (hbreak : (stateAt ctx items k).page.breakAt = none)
    (hplaced : (decisionAt ctx items k item).placed = none) : ContinuesLine ctx items k := by
  obtain ⟨gap, hgap, hdone, htext⟩ := State.written_of_none ctx item
    ((decisionAt ctx items k item).anchor.or (stateAt ctx items k).pendingAnchor) hbreak
  refine ⟨item, hk, gap, hgap, ?_⟩
  rw [page_stateAt_succ ctx hk hcomment, hplaced, (Page.settle_text ..).1, (Page.settle_text ..).2]
  exact ⟨hdone, htext⟩

theorem startsLine_of_placed {indent : Nat} (hk : items[k]? = some item)
    (hcomment : item.token.kind.isComment = false)
    (hplaced : (decisionAt ctx items k item).placed = some indent) : StartsLine ctx items k := by
  refine ⟨item, hk, ?_⟩
  rw [page_stateAt_succ ctx hk hcomment, hplaced, (Page.settle_text ..).1, State.written_of_some]

/-- After a token that does not end its line, no line is to be started. -/
theorem breakAt_stateAt_succ (hk : items[k]? = some item)
    (hend : item.token.mayEndLine ctx.dialect.lexicon = false) :
    (stateAt ctx items (k + 1)).page.breakAt = none := by
  have hcomment : item.token.kind.isComment = false := by
    unfold Token.mayEndLine at hend
    cases hkind : item.token.kind <;> rw [hkind] at hend <;> first | rfl | cases hend
  have hsettled : (decisionAt ctx items k item).settled = none :=
    Sight.settled_decision (endsKnown_stateAt ctx items k) ctx hend
  rw [page_stateAt_succ ctx hk hcomment, hsettled]
  exact State.breakAt_written ..

/-- Where an `AND` is put: on the line that is there if a `BETWEEN` waits, and else on one of its own,
unless nothing starts a line there. -/
theorem placed_of_isAnd (ctx : Context) (items : List Item) (k : Nat) (hand : item.token.isAnd = true) :
    ((stateAt ctx items k).between = true → (decisionAt ctx items k item).placed = none) ∧
      ((stateAt ctx items k).between = false → (stateAt ctx items k).keepsLine = false →
        ∃ indent, (decisionAt ctx items k item).placed = some indent) := by
  simp only [Token.isAnd, Bool.and_eq_true, beq_iff_eq] at hand
  obtain ⟨hkind, hkey⟩ := hand
  have hdecision : decisionAt ctx items k item =
      ((stateAt ctx items k).sight ctx item.token).keyword ctx.dialect.lexicon "and" := by
    rw [decisionAt, Sight.decision, hkind, hkey]
  have hkeeps : ((stateAt ctx items k).sight ctx item.token).keepsLine =
      (stateAt ctx items k).keepsLine := rfl
  have hwaits : ((stateAt ctx items k).sight ctx item.token).between =
      (stateAt ctx items k).between := rfl
  rw [hdecision, Sight.keyword, hkeeps, hwaits]
  constructor
  · intro hbetween
    rw [hbetween]
    rfl
  · intro hbetween hkeep
    rw [hbetween, hkeep]
    simp only [Bool.and_false, Bool.false_eq_true, if_false]
    split
    · split
      · unfold Sight.division
        split <;> exact ⟨_, rfl⟩
      · split <;> exact ⟨_, rfl⟩
    · exact ⟨_, rfl⟩

/-- **`BETWEEN` and its `AND`**: the `AND` behind the operand of a `BETWEEN` stands on its line. An `AND`
for which no `BETWEEN` waits starts a line, outside of groups on one line and of headers. -/
theorem and_of_between (ctx : Context) (items : List Item) {k : Nat}
    (hand : items[k]?.any (·.token.isAnd) = true) :
    (∀ m, isBetweenAt items m = true → IsOperand ctx items m k → ContinuesLine ctx items k) ∧
      (¬ Waits ctx items k → (stateAt ctx items k).keepsLine = false → StartsLine ctx items k) := by
  obtain ⟨item, hk, hitem⟩ := (Option.any_eq_true ..).mp hand
  have hcomment : item.token.kind.isComment = false := by
    simp only [Token.isAnd, Bool.and_eq_true, beq_iff_eq] at hitem
    rw [hitem.1]
    rfl
  obtain ⟨hplaced, hstarts⟩ := placed_of_isAnd ctx items k hitem
  constructor
  · intro m hbetween hoperand
    have hflag : (stateAt ctx items k).between = true := by
      have := hoperand.nonempty
      exact (between_stateAt ctx items k).mpr ⟨m, by omega, hbetween, hoperand.waits⟩
    -- the operand is not empty, so that its last token is the one before the `AND`
    have hbreak : (stateAt ctx items k).page.breakAt = none := by
      obtain ⟨n, rfl⟩ : ∃ n, k = n + 1 := ⟨k - 1, by have := hoperand.nonempty; omega⟩
      have hlast := hoperand.last
      have hn : n < items.length := by
        have := (List.getElem?_eq_some_iff.mp hk).1
        omega
      rw [Nat.add_sub_cancel, List.getElem?_eq_getElem hn, Option.any_some] at hlast
      exact breakAt_stateAt_succ (List.getElem?_eq_getElem hn) hlast
    exact continuesLine_of_placed hk hcomment hbreak (hplaced hflag)
  · intro hwaits hkeeps
    have hflag : (stateAt ctx items k).between = false := by
      rw [Bool.eq_false_iff]
      exact mt (between_stateAt ctx items k).mp hwaits
    obtain ⟨indent, hindent⟩ := hstarts hflag hkeeps
    exact startsLine_of_placed hk hcomment hindent

/-- A condition with two `AND`s, of which the first belongs to the `BETWEEN`. -/
theorem and_of_between_condition :
    let ctx : Context := ⟨.standard, .standard, fun _ text => text⟩
    let items := itemsOfText .standard .standard "a BETWEEN 1 AND 5 AND b"
    ContinuesLine ctx items 3 ∧ StartsLine ctx items 5 := by
  intro ctx items
  refine ⟨(and_of_between ctx items (k := 3) (by decide +kernel)).1 1 (by decide +kernel) ⟨?_, ?_, ?_⟩,
    (and_of_between ctx items (k := 5) (by decide +kernel)).2 (by decide +kernel) (by decide +kernel)⟩
  all_goals decide +kernel

/-- A subquery as the operand: its `SELECT` gives up the wait, so that the `AND` behind the closing
bracket starts a line. -/
theorem and_after_subquery :
    let ctx : Context := ⟨.standard, .standard, fun _ text => text⟩
    let tokens := tokenize Dialect.standard.lexicon "a BETWEEN (SELECT 1) AND 2"
    let items := Item.ofTokens tokens
    items.map (·.token.text) = ["a", "BETWEEN", "(", "SELECT", "1", ")", "AND", "2"] ∧
      isBetweenAt items 1 = true ∧ items[6]?.any (·.token.isAnd) = true ∧
      (Groups.ofTokens (items.map (·.token))).matchingClose? 2 = some 5 ∧
      layout? ctx tokens = some "a BETWEEN (\n  SELECT\n    1\n)\nAND 2" := by
  decide +kernel

end Layout

end SqlFormat
