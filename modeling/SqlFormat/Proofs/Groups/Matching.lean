import Mathlib
import SqlFormat.Proofs.Layout.Concat

/-!
# The matching of brackets

Every pair of brackets that is found is an opening bracket with a closing one of its form behind it, and
two pairs lie one in the other or one behind the other. In well-bracketed tokens the pairs are the usual
ones: the tokens inside a pair are well-bracketed, and no bracket is left over. Widths and breaks are
differences of running sums, so that they count just the tokens of a group.

Results: `matchingClose?_eq_some_iff`, `Balanced.exists_partner`, `groups_correct`.
-/

namespace SqlFormat

namespace Groups

variable {scan : Scan} {tokens read : List Token} {t o c : Token} {i j k l : Nat}

/-! ## Pairs of brackets -/

/-- The closing bracket is of the same form as the opening one, and comes after it. -/
structure Pair (tokens : List Token) (i j : Nat) : Prop where
  lt : i < j
  forms : ∃ t u, tokens[i]? = some t ∧ tokens[j]? = some u ∧ u.isBracket = true ∧
    (u.text == "(" || u.text == "[") = false ∧ t.text = openingOf u.text

theorem Pair.append (h : Pair read i j) (more : List Token) : Pair (read ++ more) i j := by
  obtain ⟨hlt, t, u, ht, hu, hforms⟩ := h
  refine ⟨hlt, t, u, ?_, ?_, hforms⟩
  · rw [List.getElem?_append_left (List.getElem?_eq_some_iff.mp ht).1, ht]
  · rw [List.getElem?_append_left (List.getElem?_eq_some_iff.mp hu).1, hu]

/-- What is noted of brackets while they are read is what the tokens are. -/
structure Scan.Noted (scan : Scan) (read : List Token) : Prop where
  opened : ∀ e ∈ scan.opened, ∃ t, read[e.1]? = some t ∧ t.text = e.2
  pairs : ∀ p ∈ scan.pairs, Pair read p.1 p.2

/-- The bracket that a closing one is paired with has the form that it asks for. -/
theorem Scan.form_of_dropWhile {form text : String} {o : Nat} {outer : List (Nat × String)}
    (h : scan.opened.dropWhile (·.2 != form) = (o, text) :: outer) : text = form := by
  have hne : scan.opened.dropWhile (·.2 != form) ≠ [] := by simp [h]
  simpa [h] using List.head_dropWhile_not (fun e : Nat × String => e.2 != form) hne

theorem Scan.Noted.step (h : scan.Noted read) (t : Token) :
    (scan.step read.length t).Noted (read ++ [t]) := by
  have hopened : ∀ e ∈ scan.opened, ∃ u, (read ++ [t])[e.1]? = some u ∧ u.text = e.2 := by
    intro e he
    obtain ⟨u, hu, htext⟩ := h.opened e he
    refine ⟨u, ?_, htext⟩
    rw [List.getElem?_append_left (List.getElem?_eq_some_iff.mp hu).1, hu]
  have hpairs : ∀ p ∈ scan.pairs, Pair (read ++ [t]) p.1 p.2 := fun p hp =>
    (h.pairs p hp).append [t]
  have hlast : (read ++ [t])[read.length]? = some t := by simp
  unfold Scan.step
  split
  · next hbracket =>
    split
    · refine ⟨?_, hpairs⟩
      rintro e (_ | ⟨_, he⟩)
      · exact ⟨t, hlast, rfl⟩
      · exact hopened e he
    · next htext =>
      split
      · exact ⟨hopened, hpairs⟩
      · next o text outer hdrop =>
        -- the first open bracket of the same form gets the token as its partner
        have hmem : ∀ e ∈ (o, text) :: outer, e ∈ scan.opened := by
          intro e he
          rw [← hdrop] at he
          exact (List.dropWhile_suffix _).subset he
        refine ⟨fun e he => hopened e (hmem e (List.mem_cons_of_mem _ he)), ?_⟩
        rintro p (_ | ⟨_, hp⟩)
        · obtain ⟨u, hu, hutext⟩ := h.opened (o, text) (hmem _ List.mem_cons_self)
          have hlt := (List.getElem?_eq_some_iff.mp hu).1
          refine ⟨hlt, u, t, ?_, hlast, hbracket, by simpa using htext,
            hutext.trans (Scan.form_of_dropWhile hdrop)⟩
          rw [List.getElem?_append_left hlt, hu]
        · exact hpairs p hp
  · exact ⟨hopened, hpairs⟩

theorem Scan.noted_run (tokens : List Token) : (Scan.start.run 0 tokens).Noted tokens := by
  have hrun : ∀ (rest read : List Token) (scan : Scan), scan.Noted read →
      (scan.run read.length rest).Noted (read ++ rest) := by
    intro rest
    induction rest with
    | nil => exact fun read scan h => by rwa [List.append_nil]
    | cons t ts ih =>
      intro read scan h
      have hnext := ih (read ++ [t]) (scan.step read.length t) (h.step t)
      rwa [List.length_append, List.append_assoc] at hnext
  exact hrun tokens [] Scan.start ⟨by simp [Scan.start], by simp [Scan.start]⟩

theorem pair_of_matchingClose? (h : (ofTokens tokens).matchingClose? i = some j) :
    Pair tokens i j :=
  (Scan.noted_run tokens).pairs _ (mem_pairs_of_matchingClose? h)

/-- An opening bracket and a closing one of the same form. -/
structure Partners (o c : Token) : Prop where
  opener : o.isBracket = true
  closer : c.isBracket = true
  forms : o.text = "(" ∧ c.text = ")" ∨ o.text = "[" ∧ c.text = "]"

theorem Partners.isOpening (h : Partners o c) : isOpening o = true := by
  rcases h.forms with ⟨ho, -⟩ | ⟨ho, -⟩ <;> simp [Groups.isOpening, h.opener, ho]

theorem Partners.closing (h : Partners o c) :
    (c.text == "(" || c.text == "[") = false ∧ o.text = openingOf c.text := by
  rcases h.forms with ⟨ho, hc⟩ | ⟨ho, hc⟩ <;> rw [ho, hc] <;> decide

/-- A bracket that opens nothing closes one of the form that it asks for. -/
theorem partners_of_closing (ho : o.isBracket = true) (hc : c.isBracket = true)
    (htext : (c.text == "(" || c.text == "[") = false) (hform : o.text = openingOf c.text) :
    Partners o c := by
  refine ⟨ho, hc, ?_⟩
  simp only [Bool.or_eq_false_iff, beq_eq_false_iff_ne, ne_eq] at htext
  simp only [Token.isBracket, Bool.and_eq_true, Bool.or_eq_true, beq_iff_eq] at hc
  rcases hc.2 with ((h | h) | h) | h
  · exact absurd h htext.1
  · exact .inl ⟨by rw [hform, h]; rfl, h⟩
  · exact absurd h htext.2
  · exact .inr ⟨by rw [hform, h]; rfl, h⟩

/-! ## How pairs lie -/

/-- The first pair is closed behind the second, and lies around it or behind it. -/
def Later (p q : Nat × Nat) : Prop :=
  q.2 < p.2 ∧ (q.2 < p.1 ∨ p.1 < q.1)

/-- A pair begins with a bracket that opens a group. What is still open lies outside of all pairs, so
that a pair which is found later lies around an earlier one or behind it. -/
structure Scan.Nested (scan : Scan) (read : List Token) : Prop where
  opener : ∀ p ∈ scan.pairs, ∃ t, read[p.1]? = some t ∧ Groups.isOpening t = true
  below : ∀ p ∈ scan.pairs, p.2 < read.length
  outside : ∀ e ∈ scan.opened, ∀ p ∈ scan.pairs, e.1 < p.1 ∨ p.2 < e.1
  later : scan.pairs.Pairwise Later

theorem Scan.Nested.step (hopen : scan.Open read) (h : scan.Nested read) (t : Token) :
    (scan.step read.length t).Nested (read ++ [t]) := by
  have hopener : ∀ p ∈ scan.pairs, ∃ u, (read ++ [t])[p.1]? = some u ∧ isOpening u = true := by
    intro p hp
    obtain ⟨u, hu, hopening⟩ := h.opener p hp
    exact ⟨u, List.getElem?_append_left (List.getElem?_eq_some_iff.mp hu).1 ▸ hu, hopening⟩
  have hbelow : ∀ p ∈ scan.pairs, p.2 < (read ++ [t]).length := by
    intro p hp
    have := h.below p hp
    rw [List.length_append]
    omega
  rcases scan.step_cases read.length t with
    ⟨text, hstep⟩ | hstep | ⟨pre, o, text, outer, hopened, hstep⟩
  · rw [hstep]
    refine ⟨hopener, hbelow, ?_, h.later⟩
    rintro e (_ | ⟨_, he⟩) p hp
    · exact .inr (h.below p hp)
    · exact h.outside e he p hp
  · rw [hstep]
    exact ⟨hopener, hbelow, h.outside, h.later⟩
  · rw [hstep]
    have hmem : ∀ e ∈ (o, text) :: outer, e ∈ scan.opened := by
      intro e he
      rw [hopened]
      exact List.mem_append_right pre he
    have hfirst := hmem _ List.mem_cons_self
    obtain ⟨u, hu, hopening⟩ := hopen.opening _ hfirst
    have ho : o < read.length := (List.getElem?_eq_some_iff.mp hu).1
    refine ⟨?_, ?_, ?_, List.pairwise_cons.mpr ⟨fun q hq => ⟨h.below q hq, ?_⟩, h.later⟩⟩
    · rintro p (_ | ⟨_, hp⟩)
      · exact ⟨u, by rw [List.getElem?_append_left ho, hu], hopening⟩
      · exact hopener p hp
    · rintro p (_ | ⟨_, hp⟩)
      · simp
      · exact hbelow p hp
    · rintro e he p (_ | ⟨_, hp⟩)
      · -- what is open further out has smaller indices
        have hlt := (List.pairwise_cons.mp hopen.ordered).2
        rw [hopened, List.map_append, List.map_cons] at hlt
        have houter := (List.pairwise_cons.mp (List.pairwise_append.mp hlt).2.1).1
        exact .inl (houter e.1 (List.mem_map_of_mem he))
      · exact h.outside e (hmem e (List.mem_cons_of_mem _ he)) p hp
    · exact (h.outside _ hfirst q hq).symm

theorem Scan.nested_run (tokens : List Token) : (Scan.start.run 0 tokens).Nested tokens := by
  induction tokens using List.reverseRecOn with
  | nil => exact ⟨by simp [run, start], by simp [run, start], by simp [run, start], .nil⟩
  | append_singleton tokens t ih =>
    rw [run_append, Nat.zero_add]
    exact ih.step (open_run tokens) t

/-- Of two pairs one is later than the other. -/
theorem Scan.Nested.cases (h : scan.Nested read) {p q : Nat × Nat} (hp : p ∈ scan.pairs)
    (hq : q ∈ scan.pairs) : p = q ∨ Later p q ∨ Later q p := by
  refine h.later.imp (fun h => .inr (.inl h)) |>.forall_of_forall_of_flip
    (R := fun p q => p = q ∨ Later p q ∨ Later q p) (fun _ _ => .inl rfl) ?_ hp hq
  exact h.later.imp fun h => .inr (.inr h)

theorem entry_of_mem {pairs : List (Nat × Nat)} (h : (i, j) ∈ pairs)
    (hunique : ∀ p ∈ pairs, p.1 = i → p.2 = j) (known : Option Nat) :
    entry pairs i known = some j := by
  induction pairs generalizing known with
  | nil => cases h
  | cons p pairs ih =>
    have hrest : ∀ q ∈ pairs, q.1 = i → q.2 = j := fun q hq => hunique q (List.mem_cons_of_mem _ hq)
    rw [entry, List.foldl_cons]
    by_cases hmem : (i, j) ∈ pairs
    · exact ih hmem hrest _
    · obtain rfl : (i, j) = p := (List.mem_cons.mp h).resolve_right hmem
      rw [if_pos rfl]
      refine entry_of_forall_ne (fun q hq hqi => hmem ?_) (some j)
      obtain rfl := hrest q hq hqi
      obtain rfl := hqi
      exact hq

/-- The table of closing brackets holds just the pairs that are found. -/
theorem matchingClose?_eq_some_iff :
    (ofTokens tokens).matchingClose? i = some j ↔ (i, j) ∈ (Scan.start.run 0 tokens).pairs := by
  refine ⟨mem_pairs_of_matchingClose?, fun h => ?_⟩
  have hnested := Scan.nested_run tokens
  have hnoted := Scan.noted_run tokens
  have hlt : i < j := (hnoted.pairs _ h).lt
  rw [matchingClose?_eq tokens (hlt.trans (hnested.below _ h))]
  refine entry_of_mem h (fun p hp hpi => ?_) none
  obtain rfl := hpi
  have := (hnoted.pairs _ hp).lt
  rcases hnested.cases h hp with heq | ⟨-, h⟩ | ⟨-, h⟩
  · rw [← heq]
  · simp only at h
    omega
  · simp only at h
    omega

theorem partners_of_matchingClose? (h : (ofTokens tokens).matchingClose? i = some j) :
    i < j ∧ ∃ o c, tokens[i]? = some o ∧ tokens[j]? = some c ∧ Partners o c := by
  obtain ⟨hlt, o, c, ho, hc, hbracket, htext, hform⟩ := pair_of_matchingClose? h
  obtain ⟨u, hu, hopening⟩ := (Scan.nested_run tokens).opener _ (mem_pairs_of_matchingClose? h)
  obtain rfl : u = o := Option.some.inj (hu.symm.trans ho)
  have hopener : u.isBracket = true := (Bool.and_eq_true _ _ ▸ hopening).1
  exact ⟨hlt, u, c, ho, hc, partners_of_closing hopener hbracket htext hform⟩

/-- Two pairs lie one in the other or one behind the other. -/
theorem nested_of_matchingClose? (h : (ofTokens tokens).matchingClose? i = some j)
    (h' : (ofTokens tokens).matchingClose? k = some l) (hik : i < k) : j < k ∨ l < j := by
  rcases (Scan.nested_run tokens).cases (matchingClose?_eq_some_iff.mp h)
    (matchingClose?_eq_some_iff.mp h') with heq | ⟨hlt, -⟩ | ⟨-, hlt⟩
  · rw [(Prod.mk.inj heq).1] at hik
    exact absurd hik (Nat.lt_irrefl k)
  · exact .inr hlt
  · exact .inl (hlt.resolve_right (Nat.lt_asymm hik))

theorem matchingClose?_injective (h : (ofTokens tokens).matchingClose? i = some j)
    (h' : (ofTokens tokens).matchingClose? k = some j) : i = k := by
  rcases (Scan.nested_run tokens).cases (matchingClose?_eq_some_iff.mp h)
    (matchingClose?_eq_some_iff.mp h') with heq | ⟨hlt, -⟩ | ⟨hlt, -⟩
  · exact (Prod.mk.inj heq).1
  · exact absurd hlt (Nat.lt_irrefl j)
  · exact absurd hlt (Nat.lt_irrefl j)

/-! ## Well-bracketed tokens -/

/-- Every bracket has its partner, and what is between the two is well-bracketed. -/
inductive Balanced : List Token → Prop
  | nil : Balanced []
  | plain {t : Token} {ts : List Token} (ht : t.isBracket = false) (hts : Balanced ts) :
    Balanced (t :: ts)
  | group {o c : Token} {inner ts : List Token} (hpair : Partners o c) (hinner : Balanced inner)
    (hts : Balanced ts) : Balanced (o :: (inner ++ c :: ts))

/-- The brackets at two indices are partners, and what is between them is well-bracketed. -/
def Encloses (tokens : List Token) (i j : Nat) : Prop :=
  ∃ pre o inner c post, tokens = pre ++ o :: (inner ++ c :: post) ∧ pre.length = i ∧
    pre.length + 1 + inner.length = j ∧ Partners o c ∧ Balanced inner

theorem Scan.step_plain (scan : Scan) (k : Nat) (ht : t.isBracket = false) :
    scan.step k t = scan := by
  simp only [Scan.step, ht, Bool.false_eq_true, if_false]

theorem Scan.step_opening (scan : Scan) (k : Nat) (ht : isOpening t = true) :
    scan.step k t = ⟨(k, t.text) :: scan.opened, scan.pairs⟩ := by
  obtain ⟨hbracket, htext⟩ := Bool.and_eq_true _ _ ▸ ht
  simp only [Scan.step, hbracket, htext, if_true]

theorem Scan.step_partner (h : Partners o c) (k i : Nat) {outer : List (Nat × String)}
    (hopened : scan.opened = (i, o.text) :: outer) :
    scan.step k c = ⟨outer, (i, k) :: scan.pairs⟩ := by
  obtain ⟨htext, hform⟩ := h.closing
  exact step_of_first h.closer htext k [] (hform ▸ hopened) (by simp)

/-- Well-bracketed tokens close all that they open, and nothing else. -/
theorem Scan.opened_run (h : Balanced tokens) (scan : Scan) (k : Nat) :
    (scan.run k tokens).opened = scan.opened := by
  induction h generalizing scan k with
  | nil => rfl
  | plain ht _ ih => rw [run, scan.step_plain k ht, ih]
  | @group o c inner ts hpair _ _ ihinner ihts =>
    have hopened := ihinner (scan.step k o) (k + 1)
    rw [scan.step_opening k hpair.isOpening] at hopened
    rw [run, run_append, run, ihts, scan.step_opening k hpair.isOpening, step_partner hpair _ k hopened]

theorem Scan.mem_run {p : Nat × Nat} (h : p ∈ scan.pairs) (k : Nat) (tokens : List Token) :
    p ∈ (scan.run k tokens).pairs := by
  induction tokens generalizing scan k with
  | nil => exact h
  | cons t ts ih =>
    refine ih ?_ (k + 1)
    rcases scan.step_cases k t with ⟨text, hstep⟩ | hstep | ⟨pre, i, text, outer, -, hstep⟩
    · rwa [hstep]
    · rwa [hstep]
    · rw [hstep]
      exact List.mem_cons_of_mem _ h

/-- Partners with well-bracketed tokens between them are paired, whatever is around them. -/
theorem Encloses.matchingClose? (h : Encloses tokens i j) :
    (ofTokens tokens).matchingClose? i = some j := by
  obtain ⟨pre, o, inner, c, post, rfl, rfl, rfl, hpair, hinner⟩ := h
  have hopened := Scan.opened_run hinner
    ((Scan.start.run 0 pre).step pre.length o) (pre.length + 1)
  rw [Scan.step_opening _ _ hpair.isOpening] at hopened
  rw [matchingClose?_eq_some_iff, Scan.run_append, Nat.zero_add, Scan.run, Scan.run_append, Scan.run,
    Scan.step_opening _ _ hpair.isOpening, Scan.step_partner hpair _ pre.length hopened]
  exact Scan.mem_run List.mem_cons_self _ post

theorem Encloses.cons (h : Encloses tokens i j) (t : Token) :
    Encloses (t :: tokens) (i + 1) (j + 1) := by
  obtain ⟨pre, o, inner, c, post, rfl, rfl, rfl, hpair, hinner⟩ := h
  refine ⟨t :: pre, o, inner, c, post, rfl, rfl, ?_, hpair, hinner⟩
  rw [List.length_cons]
  omega

theorem Encloses.append (h : Encloses tokens i j) (more : List Token) :
    Encloses (tokens ++ more) i j := by
  obtain ⟨pre, o, inner, c, post, rfl, hi, hj, hpair, hinner⟩ := h
  exact ⟨pre, o, inner, c, post ++ more, by simp, hi, hj, hpair, hinner⟩

theorem Encloses.prepend (h : Encloses tokens i j) (before : List Token) :
    Encloses (before ++ tokens) (before.length + i) (before.length + j) := by
  induction before with
  | nil => simpa using h
  | cons t ts ih =>
    have := ih.cons t
    rwa [Nat.add_right_comm, Nat.add_right_comm _ j] at this

/-- In well-bracketed tokens every opening bracket has its partner. -/
theorem Balanced.exists_encloses (h : Balanced tokens) (hi : tokens[i]? = some t)
    (ht : isOpening t = true) : ∃ j, Encloses tokens i j := by
  induction h generalizing i with
  | nil => simp at hi
  | @plain u ts hu _ ih =>
    cases i with
    | zero =>
      obtain rfl : u = t := by simpa using hi
      simp [isOpening, hu] at ht
    | succ i =>
      obtain ⟨j, hj⟩ := ih (by simpa using hi)
      exact ⟨j + 1, hj.cons u⟩
  | @group o c inner ts hpair hinner _ ihinner ihts =>
    cases i with
    | zero => exact ⟨_, [], o, inner, c, ts, rfl, rfl, rfl, hpair, hinner⟩
    | succ i =>
      rw [List.getElem?_cons_succ] at hi
      by_cases hlt : i < inner.length
      · rw [List.getElem?_append_left hlt] at hi
        obtain ⟨j, hj⟩ := ihinner hi
        exact ⟨j + 1, (hj.append (c :: ts)).cons o⟩
      · obtain ⟨m, rfl⟩ := Nat.exists_eq_add_of_le (Nat.not_lt.mp hlt)
        rw [List.getElem?_append_right (Nat.le_add_right ..), Nat.add_sub_cancel_left] at hi
        cases m with
        | zero =>
          -- the token behind the inner ones closes a group
          obtain rfl : c = t := by simpa using hi
          rw [isOpening, hpair.closing.1, Bool.and_false] at ht
          cases ht
        | succ m =>
          obtain ⟨j, hj⟩ := ihts (by simpa using hi)
          exact ⟨_, ((hj.cons c).prepend inner).cons o⟩

/-- In well-bracketed tokens the pairs are the usual ones. -/
theorem Balanced.matchingClose?_eq_some_iff (h : Balanced tokens) :
    (ofTokens tokens).matchingClose? i = some j ↔ Encloses tokens i j := by
  refine ⟨fun hpair => ?_, Encloses.matchingClose?⟩
  obtain ⟨-, o, c, ho, -, hpartners⟩ := partners_of_matchingClose? hpair
  obtain ⟨k, hk⟩ := h.exists_encloses ho hpartners.isOpening
  obtain rfl : k = j := Option.some.inj (hk.matchingClose?.symm.trans hpair)
  exact hk

/-! ## The width of a group -/

/-- The tokens from one index to another, both included. -/
def span (tokens : List Token) (i j : Nat) : List Token :=
  (tokens.take (j + 1)).drop i

/-- The tokens that are no white space. -/
def solid (tokens : List Token) : List Token :=
  tokens.filter (·.kind != .whitespace)

/-- The columns of tokens on one line with a space behind each. White space of the source counts
nothing, and the words of a keyword have one space between them. -/
def columns (tokens : List Token) : Nat :=
  ((solid tokens).map fun t => 1 + (if t.kind.isReserved then t.keyText else t.text).length).sum

theorem columns_cons (t : Token) (ts : List Token) : columns (t :: ts) = t.width + columns ts := by
  by_cases hkind : t.kind = .whitespace
  · simp [columns, solid, Token.width, hkind]
  · have hwidth : t.width = 1 + (if t.kind.isReserved then t.keyText else t.text).length := by
      simp only [Token.width, beq_iff_eq, hkind, if_false]
      split <;> rw [Nat.add_comm]
    rw [columns, solid, List.filter_cons_of_pos (by simpa using hkind), List.map_cons, List.sum_cons,
      columns, solid, hwidth]

theorem columns_eq (tokens : List Token) : columns tokens = (tokens.map Token.width).sum := by
  induction tokens with
  | nil => rfl
  | cons t ts ih => rw [columns_cons, List.map_cons, List.sum_cons, ih]

theorem columns_pos (ht : t ∈ tokens) (hkind : t.kind ≠ .whitespace) : 0 < columns tokens := by
  induction tokens with
  | nil => cases ht
  | cons u us ih =>
    rw [columns_cons]
    rcases List.mem_cons.mp ht with rfl | ht
    · simp only [Token.width, beq_iff_eq, hkind, if_false]
      split <;> omega
    · exact Nat.add_pos_right _ (ih ht)

/-- What is summed up before one index and before a later one differs by what lies between. -/
theorem sum_take_span (count : Token → Nat) (tokens : List Token) (hij : i ≤ j + 1) :
    ((tokens.map count).take (j + 1)).sum =
      ((tokens.map count).take i).sum + ((span tokens i j).map count).sum := by
  have hsplit := List.take_append_drop i ((tokens.map count).take (j + 1))
  rw [List.take_take, min_eq_left hij] at hsplit
  conv_lhs => rw [← hsplit]
  rw [List.sum_append, span, List.map_drop, List.map_take]

theorem widths_getElem? (tokens : List Token) (hi : i ≤ tokens.length) :
    (ofTokens tokens).widths[i]? = some (columns (tokens.take i)) := by
  rw [ofTokens, List.getElem?_toArray, runningSums_getElem? _ _ (by simpa using hi), Nat.zero_add,
    columns_eq, List.map_take]

/-- The partners of a group are the first and the last token of its span. -/
theorem lt_length_of_matchingClose? (h : (ofTokens tokens).matchingClose? i = some j) :
    i < j ∧ j < tokens.length := by
  obtain ⟨hlt, o, c, -, hc, -⟩ := partners_of_matchingClose? h
  exact ⟨hlt, (List.getElem?_eq_some_iff.mp hc).1⟩

theorem columns_span_pos (h : (ofTokens tokens).matchingClose? i = some j) :
    0 < columns (span tokens i j) := by
  obtain ⟨hlt, o, c, ho, -, hpartners⟩ := partners_of_matchingClose? h
  have hfirst : (span tokens i j)[0]? = some o := by
    rw [span, List.getElem?_drop, List.getElem?_take_of_lt (by omega), Nat.add_zero, ho]
  refine columns_pos (List.mem_of_getElem? hfirst) fun hkind => ?_
  have := hpartners.opener
  simp [Token.isBracket, hkind] at this

theorem columns_take_span (tokens : List Token) (hij : i ≤ j + 1) :
    columns (tokens.take (j + 1)) = columns (tokens.take i) + columns (span tokens i j) := by
  rw [columns_eq, columns_eq, columns_eq, List.map_take, List.map_take]
  exact sum_take_span Token.width tokens hij

theorem width?_eq (h : (ofTokens tokens).matchingClose? i = some j) :
    ∃ w, (ofTokens tokens).width? i = some w ∧ w + 1 = columns (span tokens i j) := by
  obtain ⟨hlt, hj⟩ := lt_length_of_matchingClose? h
  have hspan := columns_take_span tokens (i := i) (j := j) (by omega)
  have hpos := columns_span_pos h
  have hat : ∀ k ≤ tokens.length, (ofTokens tokens).widths.getD k 0 = columns (tokens.take k) := by
    intro k hk
    rw [Array.getD_eq_getD_getElem?, widths_getElem? tokens hk, Option.getD_some]
  rw [width?, h, Option.map_some, hat (j + 1) hj, hat i (by omega)]
  exact ⟨_, rfl, by omega⟩

theorem breaks_eq_iff (h : (ofTokens tokens).matchingClose? i = some j) :
    (ofTokens tokens).breaks.getD (j + 1) 0 = (ofTokens tokens).breaks.getD i 0 ↔
      ∀ t ∈ span tokens i j, t.breaksLine = false := by
  obtain ⟨hlt, hj⟩ := lt_length_of_matchingClose? h
  rw [breaks_getD tokens hj, breaks_getD tokens (by omega),
    sum_take_span _ tokens (i := i) (j := j) (by omega), Nat.add_eq_left, List.sum_eq_zero_iff]
  simp

theorem fitsIn_some_iff (w : Nat) (available : Option Nat) :
    fitsIn (some w) available = true ↔ ∀ room ∈ available, w ≤ room := by
  cases available <;> simp [fitsIn]

theorem fits_iff (tokens : List Token) (i : Nat) (available : Option Nat) :
    (ofTokens tokens).fits i available = true ↔
      ∃ j w, (ofTokens tokens).matchingClose? i = some j ∧ (ofTokens tokens).width? i = some w ∧
        (∀ t ∈ span tokens i j, t.breaksLine = false) ∧ ∀ room ∈ available, w ≤ room := by
  rw [fits, inlineWidth?]
  cases hmatch : (ofTokens tokens).matchingClose? i with
  | none => simp [fitsIn]
  | some j =>
    obtain ⟨w, hw, -⟩ := width?_eq hmatch
    simp only [hw]
    by_cases hcalm : ∀ t ∈ span tokens i j, t.breaksLine = false
    · rw [if_pos ((breaks_eq_iff hmatch).mpr hcalm), fitsIn_some_iff]
      refine ⟨fun hroom => ⟨j, w, rfl, rfl, hcalm, hroom⟩, ?_⟩
      rintro ⟨_, _, -, hwidth, -, hroom⟩
      rwa [Option.some.inj hwidth]
    · rw [if_neg (mt (breaks_eq_iff hmatch).mp hcalm)]
      refine ⟨fun h => absurd h (by simp [fitsIn]), ?_⟩
      rintro ⟨_, _, hj, -, hall, -⟩
      exact absurd (Option.some.inj hj ▸ hall) hcalm

/-! ## What a table of groups says of its tokens -/

/-- The groups are those of the tokens: their pairs are brackets of one form that do not cross, and in
well-bracketed tokens all the usual ones. The sums are those of the columns, so that a width is never
taken from less than it, and a group fits if all of its tokens may stay on one line that is wide
enough. -/
structure Correct (groups : Groups) (tokens : List Token) : Prop where
  partners : ∀ i j, groups.matchingClose? i = some j →
    i < j ∧ ∃ o c, tokens[i]? = some o ∧ tokens[j]? = some c ∧ Partners o c
  nested : ∀ i j k l, groups.matchingClose? i = some j → groups.matchingClose? k = some l → i < k →
    j < k ∨ l < j
  once : ∀ i j k, groups.matchingClose? i = some j → groups.matchingClose? k = some j → i = k
  complete : Balanced tokens → ∀ i t, tokens[i]? = some t → isOpening t = true →
    ∃ j, groups.matchingClose? i = some j
  usual : Balanced tokens → ∀ i j, groups.matchingClose? i = some j ↔ Encloses tokens i j
  sums : ∀ i ≤ tokens.length, groups.widths[i]? = some (columns (tokens.take i))
  room : ∀ i j, groups.matchingClose? i = some j → j < tokens.length ∧
    columns (tokens.take i) + 1 ≤ columns (tokens.take (j + 1))
  width : ∀ i j, groups.matchingClose? i = some j →
    ∃ w, groups.width? i = some w ∧ w + 1 = columns (span tokens i j)
  fits : ∀ i available, groups.fits i available = true ↔
    ∃ j w, groups.matchingClose? i = some j ∧ groups.width? i = some w ∧
      (∀ t ∈ span tokens i j, t.breaksLine = false) ∧ ∀ room ∈ available, w ≤ room

theorem groups_correct (tokens : List Token) : (ofTokens tokens).Correct tokens where
  partners _ _ := partners_of_matchingClose?
  nested _ _ _ _ := nested_of_matchingClose?
  once _ _ _ := matchingClose?_injective
  complete h _ _ hi ht := by
    obtain ⟨j, hj⟩ := h.exists_encloses hi ht
    exact ⟨j, hj.matchingClose?⟩
  usual h _ _ := h.matchingClose?_eq_some_iff
  sums _ := widths_getElem? tokens
  room i j h := by
    obtain ⟨hlt, hj⟩ := lt_length_of_matchingClose? h
    have hspan := columns_take_span tokens (i := i) (j := j) (by omega)
    have hpos := columns_span_pos h
    exact ⟨hj, by omega⟩
  width _ _ := width?_eq
  fits := fits_iff tokens

/-- A bracket that is still open when one further out is closed gets no partner. -/
example :
    let groups := ofTokens (tokenize Dialect.standard.lexicon "(a [b) c]")
    groups.matchingClose? 0 = some 5 ∧ groups.matchingClose? 3 = none ∧ groups.width? 0 = some 9 := by
  decide +kernel

end Groups

end SqlFormat
