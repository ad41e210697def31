import Mathlib
import SqlFormat.Proofs.Layout.Standing

/-!
# Layout closes the groups that were found

The pairs of brackets are found before anything is laid out, and decide which groups stay on one line.
Layout finds its own: a closing bracket takes away the innermost frame of its form. It loses brackets that
are still waiting for their partners where it drops frames, at a semicolon and at a closer of a block
further out.

Where a closing bracket has as its partner a bracket that layout has lost, the two part, unless all that
stands behind the lost one is closed for layout as well. Up to there every bracket that layout holds open
is open for the search, which is why they agree on the groups that layout closes.

Results: `exists_closed` (one closing bracket), `mem_opened_of_isOpen` (all tokens of a group),
`matchingClose?_of_closesFrame`.
-/

namespace SqlFormat

/-! ## The search for pairs -/

namespace Groups

variable {scan : Scan} {tokens : List Token} {t : Token} {form text : String} {i j k : Nat}
  {pre outer : List (Nat × String)}

/-- The search for pairs before the token with `k` tokens before it. -/
def scanBefore (tokens : List Token) (k : Nat) : Scan :=
  Scan.start.run 0 (tokens.take k)

theorem scanBefore_succ (ht : tokens[k]? = some t) :
    scanBefore tokens (k + 1) = (scanBefore tokens k).step k t := by
  have hk : (tokens.take k).length = k := by
    have := (List.getElem?_eq_some_iff.mp ht).1
    rw [List.length_take]
    omega
  rw [scanBefore, List.take_add_one, ht, Option.toList_some, Scan.run_append, hk, Nat.zero_add]
  rfl

/-- A pair that is found once stays. -/
theorem matchingClose?_of_mem_scanBefore (h : (i, j) ∈ (scanBefore tokens k).pairs) :
    (ofTokens tokens).matchingClose? i = some j := by
  rw [matchingClose?_eq_some_iff]
  conv in Scan.run _ _ _ => rw [← List.take_append_drop k tokens, Scan.run_append]
  exact Scan.mem_run h _ _

theorem ordered_scanBefore (hk : k ≤ tokens.length) : (scanBefore tokens k).Ordered k := by
  have h := Scan.ordered_run (tokens.take k)
  rwa [List.length_take, Nat.min_eq_left hk] at h

/-- What is open inside a bracket has been read later, and what is open around it earlier. -/
theorem Scan.Ordered.split (h : scan.Ordered k) (hopened : scan.opened = pre ++ (i, text) :: outer) :
    (∀ e ∈ pre, i < e.1) ∧ ∀ e ∈ outer, e.1 < i := by
  have hpairwise := (List.pairwise_cons.mp h).2
  rw [hopened, List.map_append, List.map_cons, List.pairwise_append] at hpairwise
  obtain ⟨-, hlast, hacross⟩ := hpairwise
  refine ⟨fun e he => hacross e.1 (List.mem_map_of_mem he) i List.mem_cons_self, fun e he => ?_⟩
  exact (List.pairwise_cons.mp hlast).1 e.1 (List.mem_map_of_mem he)

/-- The first open bracket of a form is the last that was read. -/
theorem Scan.Ordered.le_of_first (h : scan.Ordered k)
    (hopened : scan.opened = pre ++ (i, form) :: outer) (hpre : ∀ e ∈ pre, e.2 ≠ form)
    (hj : (j, form) ∈ scan.opened) : j ≤ i := by
  rw [hopened, List.mem_append, List.mem_cons] at hj
  rcases hj with hj | hj | hj
  · exact absurd rfl (hpre _ hj)
  · exact (Prod.mk.inj hj).1.le
  · exact ((h.split hopened).2 _ hj).le

/-- A bracket that was read before another is open around it. -/
theorem Scan.Ordered.mem_outer (h : scan.Ordered k)
    (hopened : scan.opened = pre ++ (i, text) :: outer) (hj : (j, form) ∈ scan.opened) (hji : j < i) :
    (j, form) ∈ outer := by
  rw [hopened, List.mem_append, List.mem_cons] at hj
  rcases hj with hj | hj | hj
  · exact absurd ((h.split hopened).1 _ hj) (Nat.lt_asymm hji)
  · exact absurd (Prod.mk.inj hj).1 hji.ne
  · exact hj

/-- A closing bracket is the partner of the first open bracket of its form. -/
theorem matchingClose?_of_first (ht : tokens[k]? = some t) (hbracket : t.isBracket = true)
    (htext : (t.text == "(" || t.text == "[") = false)
    (hopened : (scanBefore tokens k).opened = pre ++ (i, openingOf t.text) :: outer)
    (hpre : ∀ e ∈ pre, e.2 ≠ openingOf t.text) : (ofTokens tokens).matchingClose? i = some k := by
  refine matchingClose?_of_mem_scanBefore (k := k + 1) ?_
  rw [scanBefore_succ ht, Scan.step_of_first hbracket htext k pre hopened hpre]
  exact List.mem_cons_self

end Groups

namespace Layout

open Groups (openingOf scanBefore)

variable {ctx : Context} {tokens : List Token} {t : Token} {form : String} {i j k m : Nat}

/-- The token closes a bracket group. -/
def isClosingBracket (t : Token) : Bool :=
  t.kind == .closeParen && t.isBracket

theorem isOpeningBracket_or_isClosingBracket (h : t.isBracket = true) :
    isOpeningBracket t = true ∨ isClosingBracket t = true := by
  rcases Token.kind_of_isBracket h with hkind | hkind
  · exact .inl (by simp [isOpeningBracket, hkind, h])
  · exact .inr (by simp [isClosingBracket, hkind, h])

theorem text_of_isClosingBracket (h : t.Distinct ctx.dialect.lexicon)
    (hclosing : isClosingBracket t = true) : t.text = ")" ∨ t.text = "]" := by
  simp only [isClosingBracket, Bool.and_eq_true, beq_iff_eq] at hclosing
  exact h.paired.closing hclosing.1 hclosing.2

theorem bracket_of_isClosingBracket (h : t.Distinct ctx.dialect.lexicon)
    (hclosing : isClosingBracket t = true) :
    t.isBracket = true ∧ (t.text == "(" || t.text == "[") = false := by
  have htext := text_of_isClosingBracket h hclosing
  simp only [isClosingBracket, Bool.and_eq_true] at hclosing
  refine ⟨hclosing.2, ?_⟩
  rcases htext with h | h <;> rw [h] <;> rfl

theorem isOpening_of_isOpeningBracket (h : t.Distinct ctx.dialect.lexicon)
    (hopening : isOpeningBracket t = true) : Groups.isOpening t = true := by
  have htext := h.paired.opening hopening
  simp only [isOpeningBracket, Bool.and_eq_true] at hopening
  simpa [Groups.isOpening, hopening.2] using htext

/-- Only closing brackets take something from what is open for the search. -/
theorem mem_opened_step (h : t.Distinct ctx.dialect.lexicon) (hclosing : isClosingBracket t = false)
    {scan : Groups.Scan} {e : Nat × String} (he : e ∈ scan.opened) (k : Nat) :
    e ∈ (scan.step k t).opened := by
  cases hbracket : t.isBracket with
  | false => rwa [scan.step_plain k hbracket]
  | true =>
    have hopening : isOpeningBracket t = true :=
      (isOpeningBracket_or_isClosingBracket hbracket).resolve_right (by simp [hclosing])
    rw [scan.step_opening k (isOpening_of_isOpeningBracket h hopening)]
    exact List.mem_cons_of_mem _ he

/-! ## Brackets that are open for layout -/

/-- An opening bracket of this form with `i` tokens before it is open before the token with `k` tokens
before it. -/
structure IsOpen (ctx : Context) (tokens : List Token) (form : String) (i k : Nat) : Prop where
  before : i < k
  opens : ∃ t, tokens[i]? = some t ∧ isOpeningBracket t = true ∧ t.text = form
  stands : StandsOpen ctx tokens i k

theorem bracket?_of_isOpeningBracket (h : isOpeningBracket t = true) : t.bracket? = some t.text := by
  simp only [isOpeningBracket, Bool.and_eq_true] at h
  rw [Token.bracket?, if_pos h.2]

theorem isOpeningBracket_of_bracket? (hkind : t.kind = .openParen) (h : t.bracket? = some form) :
    isOpeningBracket t = true ∧ t.text = form := by
  rw [Token.bracket?] at h
  split at h
  · next hbracket => exact ⟨by simp [isOpeningBracket, hkind, hbracket], Option.some.inj h⟩
  · cases h

theorem length_le_of_first {α : Type} {a : α} {pre pre' below below' : List α} (hpre : a ∉ pre)
    (h : pre ++ a :: below = pre' ++ a :: below') : below'.length ≤ below.length := by
  rcases List.append_eq_append_iff.mp h with ⟨mid, -, hrest⟩ | ⟨mid, hmid, hrest⟩
  · have hlength := congrArg List.length hrest
    simp only [List.length_append, List.length_cons] at hlength
    omega
  · cases mid with
    | nil => exact (congrArg List.length (List.cons.inj hrest).2).le
    | cons b mid =>
      obtain rfl : a = b := (List.cons.inj hrest).1
      exact absurd (hmid ▸ List.mem_append_right _ List.mem_cons_self) hpre

section Tokens

variable (hdistinct : ∀ t ∈ tokens, t.Distinct ctx.dialect.lexicon)
include hdistinct

/-- A bracket that is open has its frame, where no opener is without one. -/
theorem IsOpen.exists_frame (h : IsOpen ctx tokens form i k) (hk : k ≤ tokens.length)
    (hover : (stateBefore ctx tokens k).nesting.overflow = 0) :
    ∃ pre below, (stateBefore ctx tokens k).nesting.brackets = pre ++ some form :: below ∧
      below.length = heightAt ctx tokens i := by
  obtain ⟨t, ht, hopens, rfl⟩ := h.opens
  rw [← bracket?_of_isOpeningBracket hopens]
  refine exists_frame_of_standsOpen hdistinct hk ht h.before h.stands ?_
  have hlt : heightAt ctx tokens i < heightAt ctx tokens k := h.stands.lt h.before le_rfl
  rwa [heightAt, heightAt, Nesting.height, Nesting.height, hover] at hlt

/-- The opener of a bracket's frame is a bracket that is open. -/
theorem exists_isOpen (hk : k ≤ tokens.length) {pre below : List (Option String)}
    (h : (stateBefore ctx tokens k).nesting.brackets = pre ++ some form :: below) :
    ∃ i, IsOpen ctx tokens form i k ∧ heightAt ctx tokens i = below.length := by
  obtain ⟨i, hi, t, ht, hkind, hbracket, hlevel, hstands⟩ := exists_opener hdistinct hk h
  exact ⟨i, ⟨hi, ⟨t, ht, isOpeningBracket_of_bracket? hkind hbracket⟩, hstands⟩, hlevel⟩

/-! ## One closing bracket -/

/-- What a closing bracket does in layout. -/
inductive Closing (ctx : Context) (tokens : List Token) (form : String) (k : Nat) : Prop
  /-- It is counted against an opener without a frame. -/
  | counted (hover : 0 < (stateBefore ctx tokens k).nesting.overflow)
      (hstack : (stateBefore ctx tokens (k + 1)).nesting.stack =
        (stateBefore ctx tokens k).nesting.stack)
      (hheight : heightAt ctx tokens (k + 1) + 1 = heightAt ctx tokens k)
  /-- It closes nothing, as no bracket of its form is open. -/
  | stray (hnone : ∀ i, ¬IsOpen ctx tokens form i k)
      (hstack : (stateBefore ctx tokens (k + 1)).nesting.stack =
        (stateBefore ctx tokens k).nesting.stack)
  /-- It closes the innermost open bracket of its form, with all that is open inside. -/
  | closes {i : Nat} (hopen : IsOpen ctx tokens form i k)
      (hlast : ∀ m, IsOpen ctx tokens form m k → m ≤ i)
      (hheight : heightAt ctx tokens (k + 1) = heightAt ctx tokens i)

theorem closing_of_isClosingBracket (ht : tokens[k]? = some t) (hclosing : isClosingBracket t = true) :
    Closing ctx tokens (openingOf t.text) k := by
  have hk : k ≤ tokens.length := (List.getElem?_eq_some_iff.mp ht).1.le
  have htext := text_of_isClosingBracket (hdistinct t (List.mem_of_getElem? ht)) hclosing
  simp only [isClosingBracket, Bool.and_eq_true, beq_iff_eq] at hclosing
  obtain ⟨hkind, hbracket⟩ := hclosing
  have hstep : (stateBefore ctx tokens (k + 1)).nesting =
      (((stateBefore ctx tokens k).sight ctx t).closer ctx.dialect.lexicon t).nesting := by
    rcases stateBefore_succ ctx ht with ⟨hwhite, -⟩ | ⟨item, rfl, hstep⟩
    · rw [hkind] at hwhite
      cases hwhite
    · rw [hstep, (State.step_decision ctx _ (by rw [hkind]; rfl)).1, Sight.decision, hkind]
  have hcases := ((stateBefore ctx tokens k).sight ctx t).brackets_closer
    (sound_stateBefore ctx tokens k) ctx.dialect.lexicon hbracket htext
  rw [← hstep] at hcases
  rcases hcases with ⟨hover, hsame, hheight⟩ | ⟨hover, ⟨hnone, hsame⟩ | ⟨pre, hsplit, hpre, hheight⟩⟩
  · exact .counted hover hsame hheight
  · refine .stray (fun i hi => hnone ?_) hsame
    obtain ⟨pre, below, hframe, -⟩ := hi.exists_frame hdistinct hk hover
    exact hframe ▸ List.mem_append_right _ List.mem_cons_self
  · obtain ⟨i, hi, hlevel⟩ := exists_isOpen hdistinct hk hsplit
    refine .closes hi (fun m hm => ?_) (hheight.trans hlevel.symm)
    -- the frame of a bracket further in would have been found first
    obtain ⟨pre', below', hframe, hlevel'⟩ := hm.exists_frame hdistinct hk hover
    have hle : heightAt ctx tokens m ≤ heightAt ctx tokens i := by
      rw [hlevel, ← hlevel']
      exact length_le_of_first hpre (hsplit.symm.trans hframe)
    by_contra hlt
    exact absurd (hi.stands.lt (Nat.not_le.mp hlt) hm.before.le) (Nat.not_lt.mpr hle)

/-! ## The tokens of a group -/

/-- What the search for pairs holds open is an opening bracket. -/
theorem opens_of_mem_scanBefore (h : (i, form) ∈ (scanBefore tokens k).opened) :
    i < k ∧ ∃ t, tokens[i]? = some t ∧ isOpeningBracket t = true ∧ t.text = form := by
  obtain ⟨t, ht, hopening⟩ := (Groups.Scan.open_run (tokens.take k)).opening _ h
  obtain ⟨u, hu, htext⟩ := (Groups.Scan.noted_run (tokens.take k)).opened _ h
  obtain rfl : u = t := Option.some.inj (hu.symm.trans ht)
  have hik : i < k := by
    have := (List.getElem?_eq_some_iff.mp ht).1
    rw [List.length_take] at this
    omega
  have hi : tokens[i]? = some u := by rwa [List.getElem?_take_of_lt hik] at ht
  refine ⟨hik, u, hi, ?_, htext⟩
  obtain ⟨hbracket, htexts⟩ := Bool.and_eq_true _ _ ▸ hopening
  refine (isOpeningBracket_or_isClosingBracket hbracket).resolve_right fun hclosing => ?_
  rcases text_of_isClosingBracket (hdistinct u (List.mem_of_getElem? hi)) hclosing with h | h <;>
    simp [h] at htexts

end Tokens

/-- Layout has not lost the opening bracket with `m` tokens before it when the closing bracket with `k`
tokens before it is read, nor counts the closing one against another opener. -/
structure Retains (ctx : Context) (tokens : List Token) (m k : Nat) : Prop where
  stands : StandsOpen ctx tokens m k
  counted : 0 < (stateBefore ctx tokens k).nesting.overflow →
    heightAt ctx tokens k = heightAt ctx tokens m + 1

instance (ctx : Context) (tokens : List Token) (m k : Nat) : Decidable (Retains ctx tokens m k) :=
  decidable_of_iff (_ ∧ _) ⟨fun h => ⟨h.1, h.2⟩, fun h => ⟨h.stands, h.counted⟩⟩

/-- From the opening bracket with `m` tokens before it on, layout holds no bracket open once the closing
one with `k` tokens before it is read. -/
def Clears (ctx : Context) (tokens : List Token) (m k : Nat) : Prop :=
  ∀ p < k, m ≤ p → tokens[p]?.any isOpeningBracket = true → ¬StandsOpen ctx tokens p (k + 1)

instance (ctx : Context) (tokens : List Token) (m k : Nat) : Decidable (Clears ctx tokens m k) :=
  inferInstanceAs (Decidable (∀ p < k, _ → _ → ¬_))

/-- Of the opening brackets whose partners are read behind the one with `i` tokens before it, up to the
one with `j`, layout has lost none, or none but with all the brackets behind it, and not the last. -/
structure RetainsPartners (ctx : Context) (tokens : List Token) (i j : Nat) : Prop where
  inside : ∀ k < j, i < k → ∀ m < k, (Groups.ofTokens tokens).matchingClose? m = some k →
    Retains ctx tokens m k ∨ Clears ctx tokens m k
  last : ∀ m < j, (Groups.ofTokens tokens).matchingClose? m = some j → StandsOpen ctx tokens m j

instance (ctx : Context) (tokens : List Token) (i j : Nat) :
    Decidable (RetainsPartners ctx tokens i j) :=
  decidable_of_iff (_ ∧ _) ⟨fun h => ⟨h.1, h.2⟩, fun h => ⟨h.inside, h.last⟩⟩

section Tokens

variable (hdistinct : ∀ t ∈ tokens, t.Distinct ctx.dialect.lexicon)
include hdistinct

/-- A closing bracket whose partner layout has not lost closes a bracket of its form. -/
theorem exists_closed (ht : tokens[k]? = some t) (hclosing : isClosingBracket t = true)
    (hm : IsOpen ctx tokens (openingOf t.text) m k) (hretains : Retains ctx tokens m k) :
    ∃ i, IsOpen ctx tokens (openingOf t.text) i k ∧
      heightAt ctx tokens (k + 1) = heightAt ctx tokens i := by
  cases closing_of_isClosingBracket hdistinct ht hclosing with
  | counted hover _ hheight =>
    have hlevel := hretains.counted hover
    exact ⟨m, hm, by omega⟩
  | stray hnone => exact absurd hm (hnone m)
  | closes hopen _ hheight => exact ⟨_, hopen, hheight⟩

/-- A closing bracket whose partner layout has not lost leaves no bracket open for layout from the partner
on. -/
theorem lt_of_retains (ht : tokens[k]? = some t) (hclosing : isClosingBracket t = true)
    (hm : IsOpen ctx tokens (openingOf t.text) m k) (hretains : Retains ctx tokens m k)
    (hlast : ∀ q, i ≤ q → IsOpen ctx tokens (openingOf t.text) q k → q ≤ m) {p : Nat} (hip : i ≤ p)
    (hp : IsOpen ctx tokens form p k) (hstays : StandsOpen ctx tokens p (k + 1)) : p < m := by
  -- layout closes a bracket behind the one at hand, and the search has not passed over it
  obtain ⟨q, hq, hheight⟩ := exists_closed hdistinct ht hclosing hm hretains
  have hlt : heightAt ctx tokens p < heightAt ctx tokens q :=
    hheight ▸ hstays.lt (Nat.lt_succ_of_lt hp.before) le_rfl
  have hpq : p < q := (hp.stands.lt_iff hq.stands hp.before.le hq.before.le).mp hlt
  exact hpq.trans_le (hlast q (hip.trans hpq.le) hq)

/-- A closing bracket takes nothing from the search that layout still holds open, if layout has not lost
its partner, or has closed all that stands behind it. -/
theorem mem_opened_of_closing (ht : tokens[k]? = some t) (hclosing : isClosingBracket t = true)
    (hretains : ∀ m < k, (Groups.ofTokens tokens).matchingClose? m = some k →
      Retains ctx tokens m k ∨ Clears ctx tokens m k)
    (hopened : ∀ q form, i ≤ q → IsOpen ctx tokens form q k → (q, form) ∈ (scanBefore tokens k).opened)
    {p : Nat} (hip : i ≤ p) (hp : IsOpen ctx tokens form p k) (hstays : StandsOpen ctx tokens p (k + 1)) :
    (p, form) ∈ (scanBefore tokens (k + 1)).opened := by
  have hk : k ≤ tokens.length := (List.getElem?_eq_some_iff.mp ht).1.le
  obtain ⟨hbracket, htext⟩ :=
    bracket_of_isClosingBracket (hdistinct t (List.mem_of_getElem? ht)) hclosing
  rw [Groups.scanBefore_succ ht]
  rcases Groups.absent_or_first (scanBefore tokens k).opened (openingOf t.text) with
    habsent | ⟨pre, m, outer, hfirst, hpre⟩
  · rw [Groups.Scan.step_of_absent hbracket htext k habsent]
    exact hopened p form hip hp
  · obtain ⟨hmk, hopens⟩ := opens_of_mem_scanBefore hdistinct
      (hfirst ▸ List.mem_append_right pre List.mem_cons_self)
    have hordered := Groups.ordered_scanBefore hk
    have hpm : p < m := by
      rcases hretains m hmk (Groups.matchingClose?_of_first ht hbracket htext hfirst hpre) with
        hm | hclears
      · exact lt_of_retains hdistinct ht hclosing ⟨hmk, hopens, hm.stands⟩ hm
          (fun q hiq hq => hordered.le_of_first hfirst hpre (hopened q _ hiq hq)) hip hp hstays
      · obtain ⟨u, hu, hopening, -⟩ := hp.opens
        by_contra hmp
        exact hclears p hp.before (Nat.not_lt.mp hmp) (by rw [hu]; exact hopening) hstays
    rw [Groups.Scan.step_of_first hbracket htext k pre hfirst hpre]
    exact hordered.mem_outer hfirst (hopened p form hip hp) hpm

/-- **What layout holds open is open for the search**, from the opening bracket of a group on. -/
theorem mem_opened_of_isOpen (hj : j ≤ tokens.length)
    (hretains : ∀ k < j, i < k → ∀ m < k, (Groups.ofTokens tokens).matchingClose? m = some k →
      Retains ctx tokens m k ∨ Clears ctx tokens m k)
    (hk : k ≤ j) {p : Nat} (hip : i ≤ p) (hp : IsOpen ctx tokens form p k) :
    (p, form) ∈ (scanBefore tokens k).opened := by
  induction k generalizing p form with
  | zero => exact absurd hp.before (Nat.not_lt_zero p)
  | succ k ih =>
    have ht : tokens[k]? = some tokens[k] := List.getElem?_eq_getElem (by omega)
    have htoken := hdistinct _ (List.mem_of_getElem? ht)
    rcases Nat.lt_succ_iff_lt_or_eq.mp hp.before with hpk | rfl
    · have hold : IsOpen ctx tokens form p k := ⟨hpk, hp.opens, hp.stands.mono (Nat.le_succ k)⟩
      cases hclosing : isClosingBracket tokens[k] with
      | false =>
        rw [Groups.scanBefore_succ ht]
        exact mem_opened_step htoken hclosing (ih (by omega) hip hold) k
      | true =>
        exact mem_opened_of_closing hdistinct ht hclosing (hretains k (by omega) (by omega))
          (fun q form hiq hq => ih (by omega) hiq hq) hip hold hp.stands
    · obtain ⟨t, hu, hopens, rfl⟩ := hp.opens
      obtain rfl : t = tokens[p] := Option.some.inj (hu.symm.trans ht)
      rw [Groups.scanBefore_succ ht,
        Groups.Scan.step_opening _ _ (isOpening_of_isOpeningBracket htoken hopens)]
      exact List.mem_cons_self

end Tokens

/-! ## The closing bracket of a group -/

/-- The closing bracket with `j` tokens before it closes the frame that the opening bracket with `i`
tokens before it has been given: from the opening bracket on there have been more frames than before it,
and the closing one leaves as many. -/
structure ClosesFrame (ctx : Context) (tokens : List Token) (i j : Nat) : Prop where
  before : i < j
  opening : tokens[i]?.any isOpeningBracket = true
  closing : tokens[j]?.any isClosingBracket = true
  frame : Above (fun k => (stateBefore ctx tokens k).nesting.stack.length) i j
  closed : (stateBefore ctx tokens (j + 1)).nesting.stack.length =
    (stateBefore ctx tokens i).nesting.stack.length

instance (ctx : Context) (tokens : List Token) (i j : Nat) : Decidable (ClosesFrame ctx tokens i j) :=
  decidable_of_iff (_ ∧ _ ∧ _ ∧ _ ∧ _)
    ⟨fun h => ⟨h.1, h.2.1, h.2.2.1, h.2.2.2.1, h.2.2.2.2⟩,
      fun h => ⟨h.before, h.opening, h.closing, h.frame, h.closed⟩⟩

namespace ClosesFrame

/-- An opening bracket that has been given a frame is the only opener at its height. -/
theorem stands (h : ClosesFrame ctx tokens i j) :
    heightAt ctx tokens i = (stateBefore ctx tokens i).nesting.stack.length ∧
      StandsOpen ctx tokens i j := by
  have hroom : (stateBefore ctx tokens i).nesting.stack.length < maxDepth :=
    (h.frame.lt (Nat.lt_succ_self i) h.before).trans_le (sound_stateBefore ctx tokens (i + 1)).bounded
  have hheight : heightAt ctx tokens i = (stateBefore ctx tokens i).nesting.stack.length := by
    rw [heightAt, ((sound_stateBefore ctx tokens i).height_eq hroom).2, Nesting.length_brackets]
  refine ⟨hheight, fun k hk hik => ?_⟩
  calc heightAt ctx tokens i = (stateBefore ctx tokens i).nesting.stack.length := hheight
    _ < (stateBefore ctx tokens k).nesting.stack.length := h.frame k hk hik
    _ ≤ heightAt ctx tokens k := Nat.le_add_right ..

/-- The closing bracket closes the bracket that the frame belongs to. -/
theorem isOpen (hdistinct : ∀ t ∈ tokens, t.Distinct ctx.dialect.lexicon)
    (h : ClosesFrame ctx tokens i j) (ht : tokens[j]? = some t) (hclosing : isClosingBracket t = true) :
    IsOpen ctx tokens (openingOf t.text) i j ∧
      ∀ m, IsOpen ctx tokens (openingOf t.text) m j → m ≤ i := by
  obtain ⟨hheight, hstands⟩ := h.stands
  -- a closing bracket that takes no frame away does not leave fewer
  have hfewer : (stateBefore ctx tokens (j + 1)).nesting.stack ≠
      (stateBefore ctx tokens j).nesting.stack := by
    intro hsame
    have hlt := h.frame.lt h.before le_rfl
    have hclosed := h.closed
    rw [hsame] at hclosed
    exact hlt.ne hclosed.symm
  cases closing_of_isClosingBracket hdistinct ht hclosing with
  | counted _ hstack => exact absurd hstack hfewer
  | stray _ hstack => exact absurd hstack hfewer
  | @closes q hopen hlast hlevel =>
    have hroom : (stateBefore ctx tokens (j + 1)).nesting.stack.length < maxDepth := by
      rw [h.closed]
      exact (h.frame.lt (Nat.lt_succ_self i) h.before).trans_le
        (sound_stateBefore ctx tokens (i + 1)).bounded
    have hsame : heightAt ctx tokens i = heightAt ctx tokens q := by
      rw [hheight, ← h.closed, ← hlevel, heightAt,
        ((sound_stateBefore ctx tokens (j + 1)).height_eq hroom).2, Nesting.length_brackets]
    obtain rfl : i = q :=
      hstands.eq_of_height_eq hopen.stands h.before.le hopen.before.le hsame
    exact ⟨hopen, hlast⟩

end ClosesFrame

/-- **Layout closes the groups that were found**: where a closing bracket closes the frame of an opening
one, it is its partner, if layout has lost none of the brackets that have their partners in the group, or
none but with all the brackets behind it. -/
theorem matchingClose?_of_closesFrame (ctx : Context) (text : String) {i j : Nat}
    (hcloses : ClosesFrame ctx (tokensOfText ctx.dialect ctx.style text) i j)
    (hretains : RetainsPartners ctx (tokensOfText ctx.dialect ctx.style text) i j) :
    (Groups.ofTokens (tokensOfText ctx.dialect ctx.style text)).matchingClose? i = some j := by
  have hdistinct := distinct_of_mem_tokensOfText ctx.dialect ctx.style text
  generalize tokensOfText ctx.dialect ctx.style text = tokens at hcloses hretains hdistinct
  obtain ⟨t, ht, hclosing⟩ := (Option.any_eq_true ..).mp hcloses.closing
  have hj : j ≤ tokens.length := (List.getElem?_eq_some_iff.mp ht).1.le
  obtain ⟨hopen, hlast⟩ := hcloses.isOpen hdistinct ht hclosing
  obtain ⟨hbracket, htext⟩ :=
    bracket_of_isClosingBracket (hdistinct t (List.mem_of_getElem? ht)) hclosing
  have hmem : (i, openingOf t.text) ∈ (scanBefore tokens j).opened :=
    mem_opened_of_isOpen hdistinct hj hretains.inside le_rfl le_rfl hopen
  rcases Groups.absent_or_first (scanBefore tokens j).opened (openingOf t.text) with
    habsent | ⟨pre, m, outer, hfirst, hpre⟩
  · exact absurd rfl (habsent _ hmem)
  · have hpair := Groups.matchingClose?_of_first ht hbracket htext hfirst hpre
    obtain ⟨hmj, hopens⟩ := opens_of_mem_scanBefore hdistinct
      (hfirst ▸ List.mem_append_right pre List.mem_cons_self)
    -- the search finds no bracket further out than layout, and layout none further in
    have him : i ≤ m := (Groups.ordered_scanBefore hj).le_of_first hfirst hpre hmem
    have hmi : m ≤ i := hlast m ⟨hmj, hopens, hretains.last m hmj hpair⟩
    rwa [Nat.le_antisymm hmi him] at hpair

/-- A group with a bracket in it that layout loses to an `END`, with its partner behind that. -/
theorem matchingClose?_of_closesFrame_case :
    let ctx : Context := ⟨.standard, .postgresql, fun _ text => text⟩
    let tokens := tokensOfText .postgresql .standard "(CASE [ END ](a))"
    ClosesFrame ctx tokens 0 11 ∧ RetainsPartners ctx tokens 0 11 ∧
      (Groups.ofTokens tokens).matchingClose? 0 = some 11 := by
  intro ctx tokens
  have hcloses : ClosesFrame ctx tokens 0 11 := by decide +kernel
  have hretains : RetainsPartners ctx tokens 0 11 := by decide +kernel
  exact ⟨hcloses, hretains, matchingClose?_of_closesFrame ctx "(CASE [ END ](a))" hcloses hretains⟩

/-- A group with a bracket in it that layout loses to an `END`. The search takes the closing bracket of
the group for the partner of the one that is lost. -/
theorem matchingClose?_of_lost :
    let ctx : Context := ⟨.standard, .standard, fun _ text => text⟩
    let tokens := tokensOfText .standard .standard "(CASE (END)"
    ClosesFrame ctx tokens 0 5 ∧ (Groups.ofTokens tokens).matchingClose? 0 = none ∧
      (Groups.ofTokens tokens).matchingClose? 3 = some 5 := by
  decide +kernel

-- the same with a semicolon, which has layout lose the bracket that the search takes the partner from
example :
    let ctx : Context := ⟨.standard, .postgresql, fun _ text => text⟩
    let tokens := tokensOfText .postgresql .standard "[; (])"
    ClosesFrame ctx tokens 3 5 ∧ (Groups.ofTokens tokens).matchingClose? 0 = some 4 ∧
      (Groups.ofTokens tokens).matchingClose? 3 = none := by
  decide +kernel

end Layout

end SqlFormat
