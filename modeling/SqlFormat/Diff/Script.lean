import SqlFormat.Diff.MiddleSnake

/-!
# Edit scripts

A shortest edit script of two lists, by divide and conquer: what they have in common at both ends is
kept, and the rest is divided at a point on a shortest path. Then each change is moved up and down as
far as it goes, so that changes next to each other become one: insertions slide past kept items that
are equal to their own, deletions stay between the items that are kept around them.
-/

namespace SqlFormat.Diff

/-- What a script does with items. -/
inductive Tag where
  | keep
  | delete
  | insert
deriving DecidableEq, Repr

/-- Items that a script treats alike. -/
structure Hunk (α : Type) where
  tag : Tag
  items : List α
deriving Repr

variable {α : Type} [DecidableEq α]

/-- The number of items that two lists have in common at the beginning. -/
def commonStart : List α → List α → Nat
  | a :: as, b :: bs => if a = b then commonStart as bs + 1 else 0
  | _, _ => 0

/-- The number of items that two lists have in common at the end. -/
def commonEnd (as bs : List α) : Nat :=
  commonStart as.reverse bs.reverse

/-- A hunk, left out if it has no items. -/
def hunk (tag : Tag) (items : List α) : List (Hunk α) :=
  if items.isEmpty then [] else [⟨tag, items⟩]

/-- The script of two lists that differ at both ends, given how to divide them further. -/
def scriptFrom (old new : List α) : List (Hunk α) :=
  let start := commonStart old new
  let oldRest := old.drop start
  let newRest := new.drop start
  let tail := commonEnd oldRest newRest
  let oldMiddle := oldRest.take (oldRest.length - tail)
  let newMiddle := newRest.take (newRest.length - tail)
  let middle :=
    if oldMiddle.isEmpty || newMiddle.isEmpty then
      hunk .delete oldMiddle ++ hunk .insert newMiddle
    else
      match middleSnake? oldMiddle.toArray newMiddle.toArray with
      | some (x, y) =>
        if x ≤ oldMiddle.length ∧ y ≤ newMiddle.length ∧ 0 < x + y ∧
            x + y < oldMiddle.length + newMiddle.length then
          scriptFrom (oldMiddle.take x) (newMiddle.take y) ++
            scriptFrom (oldMiddle.drop x) (newMiddle.drop y)
        else hunk .delete oldMiddle ++ hunk .insert newMiddle
      | none => hunk .delete oldMiddle ++ hunk .insert newMiddle
  hunk .keep (old.take start) ++ middle ++ hunk .keep (oldRest.drop (oldRest.length - tail))
termination_by old.length + new.length
decreasing_by
  all_goals
    have h₁ : oldMiddle.length ≤ old.length := by
      simp only [oldMiddle, oldRest, List.length_take, List.length_drop]; omega
    have h₂ : newMiddle.length ≤ new.length := by
      simp only [newMiddle, newRest, List.length_take, List.length_drop]; omega
    simp only [List.length_take, List.length_drop]
    omega

/-! ## Moving changes -/

/-- The items of a change, with the hunks before it, nearest first, and after it. -/
structure Focus (α : Type) where
  before : List (Hunk α)
  items : List α
  after : List (Hunk α)

/-- Kept items in front of hunks. -/
def keepBefore (items : List α) : List (Hunk α) → List (Hunk α)
  | ⟨.keep, kept⟩ :: rest => ⟨.keep, items ++ kept⟩ :: rest
  | rest => ⟨.keep, items⟩ :: rest

/-- Kept items behind hunks that are listed nearest first. -/
def keepAfter (items : List α) : List (Hunk α) → List (Hunk α)
  | ⟨.keep, kept⟩ :: rest => ⟨.keep, kept ++ items⟩ :: rest
  | rest => ⟨.keep, items⟩ :: rest

/-- The size of hunks, which moving a change past them makes smaller. -/
def hunksSize : List (Hunk α) → Nat
  | [] => 0
  | h :: hunks => h.items.length + 1 + hunksSize hunks

/-- The number of kept items before a change that it can slide past. For an insertion these are the
last ones, as far as they are equal to its own last ones; a deletion does not slide. -/
def slideUp (tag : Tag) (kept items : List α) : Nat :=
  if tag = .insert then commonEnd kept items else 0

/-- The number of kept items after a change that it can slide past. -/
def slideDown (tag : Tag) (kept items : List α) : Nat :=
  if tag = .insert then commonStart kept items else 0

/-- Move a change up as far as it goes. It slides past kept items, moves past changes of the other
form, and joins changes of its own form. -/
def moveUp (tag : Tag) (items : List α) (after : List (Hunk α)) : List (Hunk α) → Focus α
  | [] => ⟨[], items, after⟩
  | prev :: before =>
    if prev.tag = .keep then
      let n := slideUp tag prev.items items
      if 0 < n ∧ n ≤ prev.items.length then
        let left := prev.items.take (prev.items.length - n)
        let moved := prev.items.drop (prev.items.length - n)
        let shifted := moved ++ items.take (items.length - n)
        let after := keepBefore (items.drop (items.length - n)) after
        if left.isEmpty then moveUp tag shifted after before
        else moveUp tag shifted after (⟨.keep, left⟩ :: before)
      else if prev.items.isEmpty then moveUp tag items after before
      else ⟨prev :: before, items, after⟩
    else if prev.tag = tag then moveUp tag (prev.items ++ items) after before
    else moveUp tag items (prev :: after) before
termination_by before => hunksSize before
decreasing_by
  all_goals simp_all [hunksSize]
  all_goals omega

/-- Move a change down as far as it goes. -/
def moveDown (tag : Tag) (before : List (Hunk α)) (items : List α) : List (Hunk α) → Focus α
  | [] => ⟨before, items, []⟩
  | next :: after =>
    if next.tag = .keep then
      let n := slideDown tag next.items items
      if 0 < n ∧ n ≤ next.items.length then
        let left := next.items.drop n
        let shifted := items.drop n ++ next.items.take n
        let before := keepAfter (items.take n) before
        if left.isEmpty then moveDown tag before shifted after
        else moveDown tag before shifted (⟨.keep, left⟩ :: after)
      else if next.items.isEmpty then moveDown tag before items after
      else ⟨before, items, next :: after⟩
    else if next.tag = tag then moveDown tag before (items ++ next.items) after
    else moveDown tag (next :: before) items after
termination_by after => hunksSize after
decreasing_by
  all_goals simp_all [hunksSize]
  all_goals omega

/-- The number of hunks with a tag. -/
def countTag (tag : Tag) (hunks : List (Hunk α)) : Nat :=
  hunks.countP (·.tag = tag)

omit [DecidableEq α] in
/-- Kept items do not add to the changes. -/
theorem countTag_keepBefore {tag : Tag} (h : tag ≠ .keep) (items : List α)
    (hunks : List (Hunk α)) : countTag tag (keepBefore items hunks) = countTag tag hunks := by
  unfold keepBefore
  split <;> simp [countTag, Ne.symm h]

/-- Moving a change up leaves no more changes of its form behind it. -/
theorem countTag_moveUp_le {tag : Tag} (h : tag ≠ .keep) (items : List α)
    (after before : List (Hunk α)) :
    countTag tag (moveUp tag items after before).after ≤ countTag tag after := by
  fun_induction moveUp tag items after before with
  | case1 => exact Nat.le_refl _
  | case2 _ _ _ _ _ _ _ _ _ _ _ _ ih =>
    exact Nat.le_trans ih (Nat.le_of_eq (countTag_keepBefore h _ _))
  | case3 _ _ _ _ _ _ _ _ _ _ _ _ ih =>
    exact Nat.le_trans ih (Nat.le_of_eq (countTag_keepBefore h _ _))
  | case4 _ _ _ _ _ _ _ _ ih => exact ih
  | case5 => exact Nat.le_refl _
  | case6 _ _ _ _ _ _ ih => exact ih
  | case7 _ _ _ _ _ hne ih => simpa [countTag, hne] using ih

/-- Moving a change down leaves no more changes of its form behind it. -/
theorem countTag_moveDown_le (tag : Tag) (before : List (Hunk α)) (items : List α)
    (after : List (Hunk α)) :
    countTag tag (moveDown tag before items after).after ≤ countTag tag after := by
  have step (next : Hunk α) (rest : List (Hunk α)) :
      countTag tag rest ≤ countTag tag (next :: rest) := by
    simp [countTag, List.countP_cons]
  fun_induction moveDown tag before items after with
  | case1 => exact Nat.le_refl _
  | case2 _ _ _ _ _ _ _ _ _ _ _ ih => exact Nat.le_trans ih (step _ _)
  | case3 _ _ next rest hk _ _ _ _ _ _ ih =>
    refine Nat.le_trans ih (Nat.le_of_eq ?_)
    simp [countTag, List.countP_cons, hk]
  | case4 _ _ _ _ _ _ _ _ ih => exact Nat.le_trans ih (step _ _)
  | case5 => exact Nat.le_refl _
  | case6 _ _ _ _ _ _ ih => exact Nat.le_trans ih (step _ _)
  | case7 _ _ _ _ _ _ ih => exact Nat.le_trans ih (step _ _)

/-- Move every change of one form up and then down. -/
def compactFrom (tag : Tag) (before : List (Hunk α)) : List (Hunk α) → List (Hunk α)
  | [] => before.reverse
  | this :: after =>
    if this.tag = tag ∧ tag ≠ .keep then
      let up := moveUp tag this.items after before
      let down := moveDown tag up.before up.items up.after
      compactFrom tag (⟨tag, down.items⟩ :: down.before) down.after
    else compactFrom tag (this :: before) after
termination_by after => (countTag tag after, after.length)
decreasing_by
  · rename_i h
    apply Prod.Lex.left
    have h₁ := countTag_moveUp_le h.2 this.items after before
    have h₂ := countTag_moveDown_le tag (moveUp tag this.items after before).before
      (moveUp tag this.items after before).items (moveUp tag this.items after before).after
    have h₃ : countTag tag (this :: after) = countTag tag after + 1 := by
      simp [countTag, h.1]
    omega
  · by_cases hc : this.tag = tag
    · apply Prod.Lex.left
      simp [countTag, hc]
    · have : countTag tag (this :: after) = countTag tag after := by simp [countTag, hc]
      rw [this]
      exact Prod.Lex.right _ (by simp)

/-- Move every change of one form. -/
def compact (tag : Tag) (hunks : List (Hunk α)) : List (Hunk α) :=
  compactFrom tag [] hunks

/-- The edit script of two lists. -/
def script (old new : List α) : List (Hunk α) :=
  compact .insert (compact .delete (scriptFrom old new))

end SqlFormat.Diff
