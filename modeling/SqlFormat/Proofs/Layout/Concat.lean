import Mathlib
import SqlFormat.Proofs.Layout.Quiet

/-!
# Token sequences put one after the other

If every bracket of a first sequence is closed in it, the bracket groups of both sequences are found in
the whole as they are found in each, and so are the items. Only the first item of the second sequence
may see other white space before it.

Results: `Groups.inlineWidth?_left`, `Groups.inlineWidth?_right`, `Item.ofTokens_append`.
-/

namespace SqlFormat

namespace Groups

/-! ## Open brackets -/

/-- A bracket that opens a group. -/
def isOpening (t : Token) : Bool :=
  t.isBracket && (t.text == "(" || t.text == "[")

variable {scan : Scan} {k : Nat} {tokens : List Token}

/-- Reading a token opens and closes brackets by their texts. -/
theorem texts_step (scan : Scan) (k : Nat) (t : Token) :
    (scan.step k t).opened.map Prod.snd = openAfter (scan.opened.map Prod.snd) t := by
  unfold Scan.step openAfter
  by_cases hbracket : t.isBracket = true
  · simp only [hbracket, if_true]
    by_cases htext : (t.text == "(" || t.text == "[") = true
    · simp only [htext, if_true, List.map_cons]
    · have hdrop : (scan.opened.map Prod.snd).dropWhile (· != openingOf t.text) =
          (scan.opened.dropWhile (·.2 != openingOf t.text)).map Prod.snd := List.dropWhile_map ..
      simp only [htext, hdrop, Bool.false_eq_true, if_false]
      cases scan.opened.dropWhile (·.2 != openingOf t.text) <;> rfl
  · simp only [hbracket, Bool.false_eq_true, if_false]

theorem texts_run (scan : Scan) (k : Nat) (tokens : List Token) :
    (scan.run k tokens).opened.map Prod.snd = tokens.foldl openAfter (scan.opened.map Prod.snd) := by
  induction tokens generalizing scan k with
  | nil => rfl
  | cons t ts ih => rw [Scan.run, ih, texts_step, List.foldl_cons]

/-- White space opens and closes nothing. -/
theorem foldl_openAfter_filter (texts : List String) (tokens : List Token) :
    (tokens.filter (·.kind != .whitespace)).foldl openAfter texts =
      tokens.foldl openAfter texts := by
  induction tokens generalizing texts with
  | nil => rfl
  | cons t ts ih =>
    by_cases hkind : t.kind = .whitespace
    · have hsame : openAfter texts t = texts := by
        simp [openAfter, Token.isBracket, hkind]
      rw [List.filter_cons_of_neg (by simp [hkind]), ih, List.foldl_cons, hsame]
    · rw [List.filter_cons_of_pos (by simpa using hkind), List.foldl_cons, List.foldl_cons, ih]

/-- What holds of the open brackets after tokens: they are brackets of these tokens that open groups,
and none of them has been closed. -/
structure Scan.Open (scan : Scan) (read : List Token) : Prop where
  ordered : scan.Ordered read.length
  opening : ∀ e ∈ scan.opened, ∃ t, read[e.1]? = some t ∧ isOpening t = true
  closed : ∀ p ∈ scan.pairs, p.1 < read.length
  free : ∀ e ∈ scan.opened, ∀ p ∈ scan.pairs, p.1 ≠ e.1

/-- A token that opens nothing adds no open bracket. -/
theorem isOpening_of_step {k i : Nat} {t : Token} {text : String}
    (hstep : scan.step k t = { scan with opened := (i, text) :: scan.opened }) :
    isOpening t = true := by
  by_contra hopen
  have hlength := congrArg (fun scan => scan.opened.length) hstep
  unfold Scan.step at hlength
  simp only [isOpening, Bool.and_eq_true, not_and, Bool.not_eq_true] at hopen
  split at hlength
  · next hbracket =>
    rw [if_neg (by simp [hopen hbracket])] at hlength
    split at hlength
    · simp at hlength
    · next hdrop =>
      have := congrArg List.length hdrop
      have hle := List.length_dropWhile_le (·.2 != openingOf t.text) scan.opened
      simp only [List.length_cons] at this hlength
      omega
  · simp at hlength

theorem Scan.Open.step {read : List Token} (h : scan.Open read) (t : Token) :
    (scan.step read.length t).Open (read ++ [t]) := by
  have hread : ∀ e ∈ scan.opened, ∃ u, (read ++ [t])[e.1]? = some u ∧ isOpening u = true := by
    intro e he
    obtain ⟨u, hu, hopen⟩ := h.opening e he
    exact ⟨u, List.getElem?_append_left (List.getElem?_eq_some_iff.mp hu).1 ▸ hu, hopen⟩
  have hordered : (scan.step read.length t).Ordered (read ++ [t]).length := by
    rw [List.length_append, List.length_singleton]
    exact h.ordered.step t
  have hclosed : ∀ p ∈ scan.pairs, p.1 < (read ++ [t]).length := by
    intro p hp
    have := h.closed p hp
    rw [List.length_append]
    omega
  rcases scan.step_cases read.length t with ⟨text, hstep⟩ | hstep | ⟨pre, o, text, outer, hopened, hstep⟩
  · rw [hstep] at hordered ⊢
    refine ⟨hordered, ?_, hclosed, ?_⟩
    · rintro e (_ | ⟨_, he⟩)
      · exact ⟨t, by simp, isOpening_of_step hstep⟩
      · exact hread e he
    · rintro e (_ | ⟨_, he⟩) p hp
      · exact (h.closed p hp).ne
      · exact h.free e he p hp
  · rw [hstep] at hordered ⊢
    exact ⟨hordered, hread, hclosed, h.free⟩
  · rw [hstep] at hordered ⊢
    have hmem : ∀ e ∈ outer, e ∈ scan.opened := by
      intro e he
      rw [hopened]
      simp [he]
    have ho : o < read.length := by
      obtain ⟨u, hu, -⟩ := h.opening (o, text) (by rw [hopened]; simp)
      exact (List.getElem?_eq_some_iff.mp hu).1
    refine ⟨hordered, fun e he => hread e (hmem e he), ?_, ?_⟩
    · rintro p (_ | ⟨_, hp⟩)
      · rw [List.length_append]
        exact ho.trans (Nat.lt_succ_self _)
      · exact hclosed p hp
    · rintro e he p (_ | ⟨_, hp⟩)
      · -- the brackets further out have smaller indices
        have hlt := (List.pairwise_cons.mp h.ordered).2
        rw [hopened, List.map_append, List.map_cons] at hlt
        have houter := (List.pairwise_cons.mp (List.pairwise_append.mp hlt).2.1).1
        exact (houter e.1 (List.mem_map_of_mem he)).ne'
      · exact h.free e (hmem e he) p hp

theorem Scan.open_run (tokens : List Token) : (Scan.start.run 0 tokens).Open tokens := by
  have hrun : ∀ (rest read : List Token) (scan : Scan), scan.Open read →
      (scan.run read.length rest).Open (read ++ rest) := by
    intro rest
    induction rest with
    | nil => exact fun read scan h => by rwa [List.append_nil]
    | cons t ts ih =>
      intro read scan h
      have hnext := ih (read ++ [t]) (scan.step read.length t) (h.step t)
      rwa [List.length_append, List.append_assoc] at hnext
  refine hrun tokens [] Scan.start ⟨?_, ?_, ?_, ?_⟩ <;> simp [Scan.Ordered, Scan.start]

/-- Where every bracket that opens a group is closed, none is open at the end. -/
theorem opened_eq_nil
    (h : ∀ i t, tokens[i]? = some t → isOpening t = true →
      ((ofTokens tokens).matchingClose? i).isSome) :
    (Scan.start.run 0 tokens).opened = [] := by
  rw [List.eq_nil_iff_forall_not_mem]
  intro e he
  have hopen := Scan.open_run tokens
  obtain ⟨t, ht, hopening⟩ := hopen.opening e he
  obtain ⟨j, hj⟩ := Option.isSome_iff_exists.mp (h e.1 t ht hopening)
  exact hopen.free e he _ (mem_pairs_of_matchingClose? hj) rfl

/-! ## The table of closing brackets -/

/-- What pairs say of an index of which something may be known. -/
def entry (pairs : List (Nat × Nat)) (i : Nat) (known : Option Nat) : Option Nat :=
  pairs.foldl (fun known p => if p.1 = i then some p.2 else known) known

theorem entry_append (pairs more : List (Nat × Nat)) (i : Nat) (known : Option Nat) :
    entry (pairs ++ more) i known = entry more i (entry pairs i known) :=
  List.foldl_append

theorem entry_of_forall_ne {pairs : List (Nat × Nat)} {i : Nat} (h : ∀ p ∈ pairs, p.1 ≠ i)
    (known : Option Nat) : entry pairs i known = known := by
  induction pairs with
  | nil => rfl
  | cons p pairs ih =>
    rw [entry, List.foldl_cons, if_neg (h p List.mem_cons_self)]
    exact ih fun q hq => h q (List.mem_cons_of_mem _ hq)

theorem entry_shift (pairs : List (Nat × Nat)) (k i : Nat) (known : Option Nat) :
    entry (pairs.map fun p => (k + p.1, k + p.2)) (k + i) (known.map (k + ·)) =
      (entry pairs i known).map (k + ·) := by
  induction pairs generalizing known with
  | nil => rfl
  | cons p pairs ih =>
    simp only [entry, List.map_cons, List.foldl_cons, Nat.add_left_cancel_iff] at ih ⊢
    by_cases hp : p.1 = i
    · rw [if_pos hp, if_pos hp]
      exact ih (some p.2)
    · rw [if_neg hp, if_neg hp]
      exact ih known

theorem matchingClose?_eq (tokens : List Token) {i : Nat} (hi : i < tokens.length) :
    (ofTokens tokens).matchingClose? i = entry (Scan.start.run 0 tokens).pairs i none := by
  have hfold : ∀ (pairs : List (Nat × Nat)) (table : Array (Option Nat)),
      (pairs.foldl (fun table p => table.setIfInBounds p.1 (some p.2)) table)[i]? =
        table[i]?.map (entry pairs i) := by
    intro pairs
    induction pairs with
    | nil =>
      intro table
      rw [List.foldl_nil]
      cases table[i]? <;> rfl
    | cons p pairs ih =>
      intro table
      rw [List.foldl_cons, ih, Array.getElem?_setIfInBounds]
      by_cases hp : p.1 = i
      · subst hp
        cases htable : table[p.1]? with
        | none =>
          have hsize := Array.getElem?_eq_none_iff.mp htable
          rw [if_pos rfl, if_neg (by omega)]
          rfl
        | some known =>
          have hsize := (Array.getElem?_eq_some_iff.mp htable).1
          rw [if_pos rfl, if_pos hsize]
          simp [entry]
      · rw [if_neg hp]
        cases table[i]? with
        | none => rfl
        | some known => simp [entry, hp]
  have htable := hfold (Scan.start.run 0 tokens).pairs (Array.replicate tokens.length none)
  rw [Array.getElem?_replicate, if_pos hi] at htable
  unfold matchingClose? ofTokens
  rw [htable]
  rfl

theorem matchingClose?_eq_none {i : Nat} (hi : tokens.length ≤ i) :
    (ofTokens tokens).matchingClose? i = none := by
  cases h : (ofTokens tokens).matchingClose? i with
  | none => rfl
  | some j =>
    have := (Scan.open_run tokens).closed _ (mem_pairs_of_matchingClose? h)
    exact absurd this (Nat.not_lt.mpr hi)

/-! ## Sums -/

theorem widths_getD (tokens : List Token) {i : Nat} (hi : i ≤ tokens.length) :
    (ofTokens tokens).widths.getD i 0 = ((tokens.map Token.width).take i).sum := by
  rw [ofTokens, Array.getD_eq_getD_getElem?, List.getElem?_toArray,
    runningSums_getElem? _ _ (by simpa using hi), Option.getD_some, Nat.zero_add]

theorem breaks_getD (tokens : List Token) {i : Nat} (hi : i ≤ tokens.length) :
    (ofTokens tokens).breaks.getD i 0 =
      ((tokens.map fun t => t.breaksLine.toNat).take i).sum := by
  rw [ofTokens, Array.getD_eq_getD_getElem?, List.getElem?_toArray,
    runningSums_getElem? _ _ (by simpa using hi), Option.getD_some, Nat.zero_add]

/-! ## Two sequences -/

/-- A scan as it is seen after `k` tokens in which the pairs `before` were found. -/
def Scan.after (scan : Scan) (k : Nat) (before : List (Nat × Nat)) : Scan :=
  ⟨scan.opened.map fun e => (k + e.1, e.2), (scan.pairs.map fun p => (k + p.1, k + p.2)) ++ before⟩

theorem Scan.step_after (scan : Scan) (k : Nat) (before : List (Nat × Nat)) (i : Nat) (t : Token) :
    (scan.after k before).step (k + i) t = (scan.step i t).after k before := by
  unfold Scan.step
  by_cases hbracket : t.isBracket = true
  · simp only [hbracket, if_true]
    by_cases htext : (t.text == "(" || t.text == "[") = true
    · simp only [htext, if_true]
      rfl
    · simp only [htext, Bool.false_eq_true, if_false, Scan.after, List.dropWhile_map]
      have hsame : (fun e : Nat × String => e.2 != openingOf t.text) ∘
          (fun e : Nat × String => (k + e.1, e.2)) =
          fun e : Nat × String => e.2 != openingOf t.text := rfl
      rw [hsame]
      cases scan.opened.dropWhile (·.2 != openingOf t.text) <;> rfl
  · simp only [hbracket, Bool.false_eq_true, if_false]

theorem Scan.run_after (scan : Scan) (k : Nat) (before : List (Nat × Nat)) (i : Nat)
    (tokens : List Token) :
    (scan.after k before).run (k + i) tokens = (scan.run i tokens).after k before := by
  induction tokens generalizing scan i with
  | nil => rfl
  | cons t ts ih => rw [Scan.run, Scan.run, step_after, Nat.add_assoc, ih]

variable {first second : List Token}

section Append

variable (hclosed : (Scan.start.run 0 first).opened = [])
include hclosed

theorem run_append_of_closed :
    Scan.start.run 0 (first ++ second) =
      (Scan.start.run 0 second).after first.length (Scan.start.run 0 first).pairs := by
  rw [Scan.run_append, Nat.zero_add, ← Scan.run_after, Nat.add_zero]
  have hstart : ∀ scan : Scan, scan.opened = [] →
      scan = Scan.start.after first.length scan.pairs := by
    rintro ⟨opened, pairs⟩ hopened
    cases hopened
    rfl
  rw [← hstart _ hclosed]

theorem matchingClose?_left {i : Nat} (hi : i < first.length) :
    (ofTokens (first ++ second)).matchingClose? i = (ofTokens first).matchingClose? i := by
  have hlater : entry ((Scan.start.run 0 second).pairs.map fun p =>
      (first.length + p.1, first.length + p.2)) i none = none := by
    refine entry_of_forall_ne (fun p hp => ?_) none
    obtain ⟨q, -, rfl⟩ := List.mem_map.mp hp
    simp only
    omega
  rw [matchingClose?_eq _ hi, matchingClose?_eq _ (by rw [List.length_append]; omega),
    run_append_of_closed hclosed, Scan.after, entry_append, hlater]

theorem matchingClose?_right (i : Nat) :
    (ofTokens (first ++ second)).matchingClose? (first.length + i) =
      ((ofTokens second).matchingClose? i).map (first.length + ·) := by
  by_cases hi : i < second.length
  · rw [matchingClose?_eq _ hi, matchingClose?_eq _ (by rw [List.length_append]; omega),
      run_append_of_closed hclosed, Scan.after, entry_append, entry_of_forall_ne]
    · exact entry_shift _ _ _ none
    · intro p hp
      have := (Scan.open_run first).closed p hp
      omega
  · rw [Nat.not_lt] at hi
    rw [matchingClose?_eq_none hi, matchingClose?_eq_none (by rw [List.length_append]; omega)]
    rfl

/-- The groups of the first sequence stay as they are. -/
theorem inlineWidth?_left {i : Nat} (hi : i < first.length) :
    (ofTokens (first ++ second)).inlineWidth? i = (ofTokens first).inlineWidth? i := by
  unfold inlineWidth? width?
  rw [matchingClose?_left hclosed hi]
  cases hclose : (ofTokens first).matchingClose? i with
  | none => rfl
  | some j =>
    have hj : j + 1 ≤ first.length := by
      rcases Scan.mem_pairs_run (mem_pairs_of_matchingClose? hclose) with hold | ⟨-, hj, -⟩
      · cases hold
      · omega
    have hsum : ∀ (f : Token → Nat) {n : Nat}, n ≤ first.length →
        (((first ++ second).map f).take n).sum = ((first.map f).take n).sum := by
      intro f n hn
      rw [List.map_append, List.take_append_of_le_length (by simpa using hn)]
    have hlength : first.length ≤ (first ++ second).length := by
      rw [List.length_append]
      omega
    simp only [Option.map_some]
    rw [widths_getD _ (hj.trans hlength), widths_getD _ (hi.le.trans hlength),
      breaks_getD _ (hj.trans hlength), breaks_getD _ (hi.le.trans hlength), widths_getD _ hj,
      widths_getD _ hi.le, breaks_getD _ hj, breaks_getD _ hi.le, hsum _ hj, hsum _ hi.le,
      hsum _ hj, hsum _ hi.le]

/-- The groups of the second sequence are as they are without the first. -/
theorem inlineWidth?_right (i : Nat) :
    (ofTokens (first ++ second)).inlineWidth? (first.length + i) =
      (ofTokens second).inlineWidth? i := by
  unfold inlineWidth? width?
  rw [matchingClose?_right hclosed]
  cases hclose : (ofTokens second).matchingClose? i with
  | none => rfl
  | some j =>
    obtain ⟨hj, hij⟩ : j + 1 ≤ second.length ∧ i ≤ second.length := by
      rcases Scan.mem_pairs_run (mem_pairs_of_matchingClose? hclose) with hold | ⟨-, hj, hi | hi⟩
      · cases hold
      · cases hi
      · omega
    have hsum : ∀ (f : Token → Nat) (n : Nat),
        (((first ++ second).map f).take (first.length + n)).sum =
          (first.map f).sum + ((second.map f).take n).sum := by
      intro f n
      rw [List.map_append, List.take_append, List.take_of_length_le (by simp), List.sum_append,
        List.length_map, Nat.add_sub_cancel_left]
    have hwhole : ∀ {n : Nat}, n ≤ second.length → first.length + n ≤ (first ++ second).length := by
      intro n hn
      rw [List.length_append]
      omega
    simp only [Option.map_some, Nat.add_assoc]
    rw [widths_getD _ (hwhole hj), widths_getD _ (hwhole hij), breaks_getD _ (hwhole hj),
      breaks_getD _ (hwhole hij), widths_getD _ hj, widths_getD _ hij, breaks_getD _ hj,
      breaks_getD _ hij, hsum, hsum, hsum, hsum]
    simp only [Nat.add_left_cancel_iff, Nat.add_sub_add_left]

end Append

end Groups

namespace Layout.Item

/-! ## Items -/

theorem gather_append (before : Before) {first : List Token} (second : List Token)
    (h : ∀ t ∈ first.getLast?, t.kind ≠ .blockComment) :
    gather before (first ++ second) =
      gather before first ++ gather (first.foldl Before.next before) second := by
  induction first generalizing before with
  | nil => rfl
  | cons t ts ih =>
    have hrest := ih (before.next t) fun u hu => h u (by
      rw [List.getLast?_cons, hu]
      rfl)
    -- only the end of a block comment depends on what follows
    have hitem : ofNeighbours before t (ts ++ second).head? = ofNeighbours before t ts.head? := by
      cases ts with
      | cons u us => rfl
      | nil =>
        have hkind : (t.kind == .blockComment) = false := by simpa using h t rfl
        simp only [ofNeighbours, hkind, Bool.false_and]
    simp only [List.cons_append, gather, hrest, hitem, List.foldl_cons]
    split <;> rfl

/-- What stands before a token does not matter after it, unless it is white space. -/
theorem gather_first {t : Token} (ht : t.kind ≠ .whitespace) (ts : List Token) :
    gather (.first t) ts = gather (.later t) ts := by
  cases ts with
  | nil => rfl
  | cons u us =>
    have hkind : (t.kind == .whitespace) = false := by simpa using ht
    have hstart : (Before.first t).isLineStart = (Before.later t).isLineStart := by
      simp only [Before.isLineStart, isLineBreak, hkind, Bool.false_and]
    have hitem : ofNeighbours (.first t) u us.head? = ofNeighbours (.later t) u us.head? := by
      simp only [ofNeighbours, hstart]
      rfl
    simp only [gather, hitem]
    rfl

/-- Where a sequence starts with a token that is no comment, what is before it matters for that token
only, and only for the space before it. -/
theorem exists_gather {before : Before} {tokens : List Token} {first : Item} {rest : List Item}
    (h : gather before tokens = first :: rest) (hfirst : first.token.kind.isComment = false)
    (other : Before) : ∃ apart, gather other tokens = { first with apart := apart } :: rest := by
  induction tokens generalizing before other with
  | nil => cases h
  | cons t ts ih =>
    rw [gather] at h ⊢
    by_cases ht : t.kind = .whitespace
    · simp only [ht, beq_self_eq_true, if_true] at h ⊢
      exact ih h _
    · have hkind : (t.kind == .whitespace) = false := by simpa using ht
      simp only [hkind, Bool.false_eq_true, if_false] at h ⊢
      obtain ⟨rfl, rfl⟩ := List.cons.inj h
      have hcomment : t.kind.isComment = false := hfirst
      have hrest : gather (other.next t) ts = gather (before.next t) ts := by
        have hlater : ∀ before : Before, gather (before.next t) ts = gather (.later t) ts := by
          rintro (_ | _ | _)
          · exact gather_first ht ts
          · rfl
          · rfl
        rw [hlater other, hlater before]
      refine ⟨isOpeningBracket t && other.isGap, ?_⟩
      rw [hrest]
      simp only [ofNeighbours, hcomment, Bool.false_and]

theorem measure_append (groups : Groups) (i : Nat) (items more : List Item) :
    measure groups i (items ++ more) =
      measure groups i items ++ measure groups (i + items.length) more := by
  induction items generalizing i with
  | nil => rfl
  | cons item items ih =>
    rw [List.cons_append, measure, measure, ih, List.length_cons, Nat.add_assoc, Nat.add_comm 1]
    rfl

theorem measure_congr {groups other : Groups} {i j : Nat} {items : List Item}
    (h : ∀ n < items.length, groups.inlineWidth? (i + n) = other.inlineWidth? (j + n)) :
    measure groups i items = measure other j items := by
  induction items generalizing i j with
  | nil => rfl
  | cons item items ih =>
    have hhead := h 0 (Nat.succ_pos _)
    have htail : ∀ n < items.length,
        groups.inlineWidth? (i + 1 + n) = other.inlineWidth? (j + 1 + n) := by
      intro n hn
      have := h (n + 1) (Nat.succ_lt_succ hn)
      rwa [Nat.add_comm n, ← Nat.add_assoc, ← Nat.add_assoc] at this
    rw [measure, measure, ih htail]
    simp only [Nat.add_zero] at hhead
    rw [hhead]

/-- **The items of two sequences** are those of the first and those of the second, but for the space
before the first token of the second. -/
theorem ofTokens_append {first second : List Token}
    (hclosed : ∀ i t, first[i]? = some t → Groups.isOpening t = true →
      ((Groups.ofTokens first).matchingClose? i).isSome)
    (hlast : ∀ t ∈ first.getLast?, t.kind ≠ .blockComment) {item : Item} {rest : List Item}
    (hsecond : ofTokens second = item :: rest) (hitem : item.token.kind.isComment = false) :
    ∃ apart, ofTokens (first ++ second) =
      ofTokens first ++ { item with apart := apart } :: rest := by
  have hopened : (Groups.Scan.start.run 0 ((gather .nothing first).map (·.token))).opened = [] := by
    have hall := Groups.opened_eq_nil hclosed
    rw [← List.map_eq_nil_iff (f := Prod.snd), Groups.texts_run] at hall ⊢
    rwa [map_token_gather, Groups.foldl_openAfter_filter]
  cases hgather : gather .nothing second with
  | nil =>
    rw [ofTokens, hgather] at hsecond
    cases hsecond
  | cons bare more =>
    rw [ofTokens, hgather, measure] at hsecond
    obtain ⟨rfl, rfl⟩ := List.cons.inj hsecond
    obtain ⟨apart, hother⟩ :=
      exists_gather hgather hitem (first.foldl Before.next .nothing)
    refine ⟨apart, ?_⟩
    have hwhole := gather_append .nothing second hlast
    rw [hother] at hwhole
    have htokens : (gather .nothing (first ++ second)).map (·.token) =
        (gather .nothing first).map (·.token) ++ (bare :: more).map (·.token) := by
      rw [hwhole, List.map_append]
      rfl
    have hleft : ∀ n < (gather .nothing first).length,
        (Groups.ofTokens ((gather .nothing (first ++ second)).map (·.token))).inlineWidth? (0 + n) =
          (Groups.ofTokens ((gather .nothing first).map (·.token))).inlineWidth? (0 + n) := by
      intro n hn
      rw [htokens, Nat.zero_add]
      exact Groups.inlineWidth?_left hopened (by simpa using hn)
    have hright : ∀ n,
        (Groups.ofTokens ((gather .nothing (first ++ second)).map (·.token))).inlineWidth?
            ((gather .nothing first).length + n) =
          (Groups.ofTokens ((bare :: more).map (·.token))).inlineWidth? n := by
      intro n
      have hsecond : _ = (Groups.ofTokens ((bare :: more).map (·.token))).inlineWidth? n :=
        Groups.inlineWidth?_right hopened n
      rwa [List.length_map, ← htokens] at hsecond
    rw [ofTokens, ofTokens]
    conv_lhs =>
      arg 3
      rw [hwhole]
    rw [measure_append, measure_congr hleft, Nat.zero_add, measure]
    congr 1
    have hhead := hright 0
    rw [Nat.add_zero] at hhead
    rw [hhead]
    congr 1
    refine measure_congr fun n _ => ?_
    rw [Nat.add_assoc]
    exact hright (1 + n)

end Layout.Item

end SqlFormat
