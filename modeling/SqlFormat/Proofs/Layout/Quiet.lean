import Mathlib
import SqlFormat.Proofs.Layout.Items

/-!
# Groups in which no line starts

The bracket groups of a text are found before it is laid out, with a stack of indices; layout finds
them again with its own stack. What the second needs of the first is said without indices: from the
opening bracket of a group that may stay on one line, nothing has to start a line until the group is
closed, where a closing bracket closes the innermost open one of its form.

Results: `Groups.quiet_of_inlineWidth?`, `Item.quiet_ofTokens`.
-/

namespace SqlFormat

namespace Groups

/-- The open brackets after a token, innermost first. -/
def openAfter (opened : List String) (t : Token) : List String :=
  if t.isBracket then
    if t.text == "(" || t.text == "[" then t.text :: opened
    else
      match opened.dropWhile (· != openingOf t.text) with
      | [] => opened
      | _ :: outer => outer
  else opened

/-- Nothing has to start a line until all the open brackets are closed, and they are closed. -/
def Quiet : List String → List Token → Prop
  | [], _ => True
  | _ :: _, [] => False
  | o :: os, t :: ts => t.breaksLine = false ∧ Quiet (openAfter (o :: os) t) ts

theorem quiet_nil (ts : List Token) : Quiet [] ts := by
  cases ts <;> trivial

theorem Quiet.cons {opened : List String} {t : Token} {ts : List Token}
    (h : Quiet opened (t :: ts)) (hne : opened ≠ []) :
    t.breaksLine = false ∧ Quiet (openAfter opened t) ts := by
  obtain ⟨o, os, rfl⟩ := List.exists_cons_of_ne_nil hne
  exact h

/-! ## The pairs -/

variable {scan : Scan} {i j k : Nat} {t : Token} {ts : List Token}

/-- The indices of the open brackets decrease, and all are below that of the next token. -/
def Scan.Ordered (scan : Scan) (k : Nat) : Prop :=
  (k :: scan.opened.map Prod.fst).Pairwise (· > ·)

/-- What reading one token does. -/
theorem Scan.step_cases (scan : Scan) (k : Nat) (t : Token) :
    (∃ text, scan.step k t = { scan with opened := (k, text) :: scan.opened }) ∨
      scan.step k t = scan ∨
      ∃ pre o text outer, scan.opened = pre ++ (o, text) :: outer ∧
        scan.step k t = ⟨outer, (o, k) :: scan.pairs⟩ := by
  unfold Scan.step
  split
  · split
    · exact .inl ⟨t.text, rfl⟩
    · split
      · exact .inr (.inl rfl)
      · next o text outer hdrop =>
        refine .inr (.inr ⟨scan.opened.takeWhile (·.2 != openingOf t.text), o, text, outer, ?_, rfl⟩)
        rw [← hdrop]
        exact List.takeWhile_append_dropWhile.symm
  · exact .inr (.inl rfl)

theorem Scan.Ordered.step (h : scan.Ordered k) (t : Token) : (scan.step k t).Ordered (k + 1) := by
  have hlt : ∀ e ∈ scan.opened, e.1 < k := by
    intro e he
    exact (List.pairwise_cons.mp h).1 _ (List.mem_map_of_mem he)
  have hordered := (List.pairwise_cons.mp h).2
  rcases scan.step_cases k t with ⟨text, hstep⟩ | hstep | ⟨pre, o, text, outer, hopened, hstep⟩
  · rw [hstep]
    refine List.pairwise_cons.mpr ⟨fun m hm => ?_, h⟩
    rcases List.mem_cons.mp hm with rfl | hm
    · exact Nat.lt_succ_self _
    · obtain ⟨e, he, rfl⟩ := List.mem_map.mp hm
      exact Nat.lt_succ_of_lt (hlt e he)
  · rw [hstep]
    refine List.pairwise_cons.mpr ⟨fun m hm => ?_, hordered⟩
    obtain ⟨e, he, rfl⟩ := List.mem_map.mp hm
    exact Nat.lt_succ_of_lt (hlt e he)
  · rw [hstep]
    rw [hopened] at hlt hordered
    refine List.pairwise_cons.mpr ⟨fun m hm => ?_, ?_⟩
    · obtain ⟨e, he, rfl⟩ := List.mem_map.mp hm
      exact Nat.lt_succ_of_lt (hlt e (by simp [he]))
    · rw [List.map_append, List.map_cons] at hordered
      exact (List.pairwise_append.mp hordered).2.1.tail

/-- A pair that is found later closes a bracket that is open now, or one that is opened later. -/
theorem Scan.mem_pairs_run (h : (i, j) ∈ (scan.run k ts).pairs) :
    (i, j) ∈ scan.pairs ∨
      k ≤ j ∧ j < k + ts.length ∧ (i ∈ scan.opened.map Prod.fst ∨ k ≤ i ∧ i < j) := by
  induction ts generalizing scan k with
  | nil => exact .inl h
  | cons t ts ih =>
    rw [List.length_cons]
    rcases ih h with hpairs | ⟨hk, hj, hi⟩
    · rcases scan.step_cases k t with ⟨text, hstep⟩ | hstep | ⟨pre, o, text, outer, hopened, hstep⟩
      · rw [hstep] at hpairs
        exact .inl hpairs
      · rw [hstep] at hpairs
        exact .inl hpairs
      · rw [hstep] at hpairs
        rcases List.mem_cons.mp hpairs with heq | hpairs
        · obtain ⟨rfl, rfl⟩ := Prod.mk.inj heq
          exact .inr ⟨le_rfl, by omega, .inl (by simp [hopened])⟩
        · exact .inl hpairs
    · refine .inr ⟨by omega, by omega, ?_⟩
      rcases hi with hi | hi
      · rcases scan.step_cases k t with ⟨text, hstep⟩ | hstep | ⟨pre, o, text, outer, hopened, hstep⟩
        · rw [hstep, List.map_cons] at hi
          rcases List.mem_cons.mp hi with rfl | hi
          · exact .inr ⟨le_rfl, hk⟩
          · exact .inl hi
        · rw [hstep] at hi
          exact .inl hi
        · rw [hstep] at hi
          refine .inl ?_
          rw [hopened, List.map_append, List.map_cons]
          exact List.mem_append_right _ (List.mem_cons_of_mem _ hi)
      · exact .inr ⟨by omega, hi.2⟩

/-- A bracket that was discarded without a partner never gets one. -/
theorem Scan.notMem_pairs_run (hi : i ∉ scan.opened.map Prod.fst) (hlt : i < k)
    (hnew : (i, j) ∉ scan.pairs) : (i, j) ∉ (scan.run k ts).pairs := by
  intro h
  rcases Scan.mem_pairs_run h with h | ⟨-, -, hopened | ⟨hle, -⟩⟩
  · exact hnew h
  · exact hi hopened
  · exact absurd hle (Nat.not_le.mpr hlt)

theorem Scan.run_append (scan : Scan) (k : Nat) (as bs : List Token) :
    scan.run k (as ++ bs) = (scan.run k as).run (k + as.length) bs := by
  induction as generalizing scan k with
  | nil => rfl
  | cons a as ih =>
    rw [List.cons_append, Scan.run, Scan.run, ih, List.length_cons, Nat.add_assoc, Nat.add_comm 1]

theorem Scan.ordered_run (ts : List Token) : (Scan.start.run 0 ts).Ordered ts.length := by
  have hrun : ∀ scan k, Scan.Ordered scan k → (scan.run k ts).Ordered (k + ts.length) := by
    induction ts with
    | nil => exact fun _ _ h => h
    | cons t ts ih =>
      intro scan k h
      have := ih _ _ (h.step t)
      rwa [Nat.add_assoc, Nat.add_comm 1] at this
  simpa using hrun Scan.start 0 (by simp [Scan.Ordered, Scan.start])

/-! ## Closing brackets -/

theorem dropWhile_of_first {α : Type} {p : α → Bool} {pre outer : List α} {e : α}
    (hpre : ∀ e ∈ pre, p e = true) (he : p e = false) :
    (pre ++ e :: outer).dropWhile p = e :: outer := by
  rw [List.dropWhile_append_of_pos hpre, List.dropWhile_cons_of_neg (by simp [he])]

section Closing

variable (hbracket : t.isBracket = true) (htext : (t.text == "(" || t.text == "[") = false)
include hbracket htext

theorem openAfter_of_first {pre outer : List String} (hpre : ∀ o ∈ pre, o ≠ openingOf t.text) :
    openAfter (pre ++ openingOf t.text :: outer) t = outer := by
  have hdrop : (pre ++ openingOf t.text :: outer).dropWhile (· != openingOf t.text) = _ :: outer :=
    dropWhile_of_first (by simpa using hpre) (by simp)
  simp only [openAfter, hbracket, htext, if_true, Bool.false_eq_true, if_false, hdrop]

theorem openAfter_of_absent {opened : List String} (h : ∀ o ∈ opened, o ≠ openingOf t.text) :
    openAfter opened t = opened := by
  have hdrop : opened.dropWhile (· != openingOf t.text) = [] := by simpa using h
  simp only [openAfter, hbracket, htext, if_true, Bool.false_eq_true, if_false, hdrop]

theorem Scan.step_of_first (k : Nat) (pre : List (Nat × String)) {outer : List (Nat × String)}
    {o : Nat} (hopened : scan.opened = pre ++ (o, openingOf t.text) :: outer)
    (hpre : ∀ e ∈ pre, e.2 ≠ openingOf t.text) :
    scan.step k t = ⟨outer, (o, k) :: scan.pairs⟩ := by
  have hdrop : scan.opened.dropWhile (·.2 != openingOf t.text) = (o, openingOf t.text) :: outer := by
    rw [hopened]
    exact dropWhile_of_first (by simpa using hpre) (by simp)
  simp only [Scan.step, hbracket, htext, if_true, Bool.false_eq_true, if_false, hdrop]

theorem Scan.step_of_absent (k : Nat) (h : ∀ e ∈ scan.opened, e.2 ≠ openingOf t.text) :
    scan.step k t = scan := by
  have hdrop : scan.opened.dropWhile (·.2 != openingOf t.text) = [] := by simpa using h
  simp only [Scan.step, hbracket, htext, if_true, Bool.false_eq_true, if_false, hdrop]

end Closing

/-- The first element of a list with a given text, if there is one. -/
theorem absent_or_first (opened : List (Nat × String)) (key : String) :
    (∀ e ∈ opened, e.2 ≠ key) ∨
      ∃ pre o outer, opened = pre ++ (o, key) :: outer ∧ ∀ e ∈ pre, e.2 ≠ key := by
  cases hfind : opened.find? (·.2 == key) with
  | none => exact .inl (by simpa using hfind)
  | some e =>
    obtain ⟨hkey, pre, outer, hopened, hpre⟩ := List.find?_eq_some_iff_append.mp hfind
    obtain ⟨o, text⟩ := e
    obtain rfl : text = key := by simpa using hkey
    exact .inr ⟨pre, o, outer, hopened, by simpa using hpre⟩

/-! ## From pairs to quiet groups -/

/-- A bracket that is open and closed later: what is open inside it is closed before, and if nothing
up to its closing bracket has to start a line, the group is quiet. -/
theorem quiet_of_mem_pairs (pre : List (Nat × String)) {outer : List (Nat × String)} {text : String}
    (hopened : scan.opened = pre ++ (i, text) :: outer) (hordered : scan.Ordered k)
    (hpair : (i, j) ∈ (scan.run k ts).pairs) (hnew : (i, j) ∉ scan.pairs)
    (hcalm : ∀ m, k + m ≤ j → ∀ t ∈ ts[m]?, t.breaksLine = false) :
    Quiet ((pre ++ [(i, text)]).map Prod.snd) ts := by
  induction ts generalizing scan k pre with
  | nil => exact absurd hpair hnew
  | cons t ts ih =>
    have hstep := hordered.step t
    have hkj : k ≤ j := ((Scan.mem_pairs_run hpair).resolve_left hnew).1
    have hcalm' : ∀ m, k + 1 + m ≤ j → ∀ t ∈ ts[m]?, t.breaksLine = false := fun m hm t ht =>
      hcalm (m + 1) (by omega) t (by rwa [List.getElem?_cons_succ])
    suffices hquiet : Quiet (openAfter ((pre ++ [(i, text)]).map Prod.snd) t) ts by
      obtain ⟨e, rest, hcons⟩ := List.exists_cons_of_ne_nil
        (show (pre ++ [(i, text)]).map Prod.snd ≠ [] by simp)
      rw [hcons] at hquiet ⊢
      exact ⟨hcalm 0 hkj t rfl, hquiet⟩
    change (i, j) ∈ ((scan.step k t).run (k + 1) ts).pairs at hpair
    by_cases hbracket : t.isBracket = true
    case neg =>
      have hscan : scan.step k t = scan := by rw [Scan.step, if_neg hbracket]
      rw [hscan] at hpair hstep
      rw [openAfter, if_neg hbracket]
      exact ih pre hopened hstep hpair hnew hcalm'
    cases htext : t.text == "(" || t.text == "[" with
    | true =>
      have hscan : scan.step k t = { scan with opened := (k, t.text) :: scan.opened } := by
        rw [Scan.step, if_pos hbracket, if_pos htext]
      rw [hscan] at hpair hstep
      rw [openAfter, if_pos hbracket, if_pos htext]
      exact ih ((k, t.text) :: pre) (by rw [hopened]; rfl) hstep hpair hnew hcalm'
    | false =>
      have hlt := (List.pairwise_cons.mp hordered).2
      rw [hopened, List.map_append, List.map_cons] at hlt
      obtain ⟨-, hout, hin⟩ := List.pairwise_append.mp hlt
      -- the partner of a closing bracket is inside the group, its bracket, or outside
      rcases absent_or_first pre (openingOf t.text) with habsent | ⟨inner, o, pre', rfl, hinner⟩
      · by_cases hkey : text = openingOf t.text
        · subst hkey
          rw [List.map_append, List.map_singleton,
            openAfter_of_first hbracket htext (List.forall_mem_map.mpr habsent)]
          exact quiet_nil ts
        · have hkeep : ∀ e ∈ pre ++ [(i, text)], e.2 ≠ openingOf t.text := by
            intro e he
            rcases List.mem_append.mp he with he | he
            · exact habsent e he
            · rwa [List.mem_singleton.mp he]
          rw [openAfter_of_absent hbracket htext (List.forall_mem_map.mpr hkeep)]
          rcases absent_or_first outer (openingOf t.text) with hnone | ⟨mid, o, outer', rfl, hmid⟩
          · have hscan : scan.step k t = scan := by
              refine Scan.step_of_absent hbracket htext k fun e he => ?_
              rw [hopened, List.append_cons] at he
              exact (List.mem_append.mp he).elim (hkeep e) (hnone e)
            rw [hscan] at hpair hstep
            exact ih pre hopened hstep hpair hnew hcalm'
          · -- then the bracket of the group stays without a partner
            exfalso
            have hscan : scan.step k t = ⟨outer', (o, k) :: scan.pairs⟩ := by
              refine Scan.step_of_first hbracket htext k
                (pre ++ (i, text) :: mid) (by rw [hopened]; simp) fun e he => ?_
              rw [List.append_cons] at he
              exact (List.mem_append.mp he).elim (hkeep e) (hmid e)
            rw [hscan] at hpair
            have hlow := (List.pairwise_cons.mp hout).1
            refine Scan.notMem_pairs_run (fun hi => ?_) ?_ ?_ hpair
            · exact Nat.lt_irrefl i (hlow i (by simp only [List.map_append, List.map_cons]; simp [hi]))
            · exact Nat.lt_succ_of_lt ((List.pairwise_cons.mp hordered).1 i (by simp [hopened]))
            · rw [List.mem_cons, Prod.mk.injEq, not_or, not_and_or]
              exact ⟨.inl (hlow o (by simp)).ne', hnew⟩
      · have hscan : scan.step k t = ⟨pre' ++ (i, text) :: outer, (o, k) :: scan.pairs⟩ :=
          Scan.step_of_first hbracket htext k inner (by rw [hopened]; simp) hinner
        have hne : i ≠ o := (hin o (by simp) i (by simp)).ne
        rw [hscan] at hpair hstep
        rw [List.append_assoc, List.map_append, List.cons_append, List.map_cons,
          openAfter_of_first hbracket htext (List.forall_mem_map.mpr hinner)]
        refine ih pre' rfl hstep hpair ?_ hcalm'
        rintro (_ | ⟨_, hpair⟩)
        · exact hne rfl
        · exact hnew hpair

/-! ## Tables -/

theorem runningSums_getElem? (ns : List Nat) (total : Nat) {k : Nat} (hk : k ≤ ns.length) :
    (runningSums total ns)[k]? = some (total + (ns.take k).sum) := by
  induction ns generalizing total k with
  | nil =>
    obtain rfl := Nat.le_zero.mp hk
    rfl
  | cons n ns ih =>
    cases k with
    | zero => rfl
    | succ k =>
      rw [runningSums, List.getElem?_cons_succ, ih _ (Nat.le_of_succ_le_succ hk), List.take_succ_cons,
        List.sum_cons, Nat.add_assoc]

/-- Where as many tokens before one index as before another have to start a line, none between them
does. -/
theorem calm_of_breaks {tokens : List Token} {i j : Nat} (hj : j ≤ tokens.length)
    (h : (ofTokens tokens).breaks.getD j 0 = (ofTokens tokens).breaks.getD i 0) (hij : i ≤ j) :
    ∀ m, i + m < j → ∀ t ∈ tokens[i + m]?, t.breaksLine = false := by
  intro m hm t ht
  have hbreaks : ∀ k ≤ tokens.length, (ofTokens tokens).breaks.getD k 0 =
      ((tokens.map fun t => t.breaksLine.toNat).take k).sum := by
    intro k hk
    rw [ofTokens, Array.getD_eq_getD_getElem?, List.getElem?_toArray,
      runningSums_getElem? _ _ (by simpa using hk), Option.getD_some, Nat.zero_add]
  rw [hbreaks j hj, hbreaks i (hij.trans hj)] at h
  have hsplit : ((tokens.map fun t => t.breaksLine.toNat).take j).sum =
      ((tokens.map fun t => t.breaksLine.toNat).take i).sum +
        (((tokens.map fun t => t.breaksLine.toNat).drop i).take (j - i)).sum := by
    rw [← List.sum_append, ← List.take_add, Nat.add_sub_cancel' hij]
  have hzero : (((tokens.map fun t => t.breaksLine.toNat).drop i).take (j - i)).sum = 0 := by omega
  have hmem : t.breaksLine.toNat ∈ ((tokens.map fun t => t.breaksLine.toNat).drop i).take (j - i) := by
    refine List.mem_of_getElem? (i := m) ?_
    rw [List.getElem?_take_of_lt (by omega), List.getElem?_drop, List.getElem?_map, ht]
    rfl
  have := List.sum_eq_zero_iff.mp hzero _ hmem
  simpa using this

theorem mem_pairs_of_matchingClose? {tokens : List Token} {i j : Nat}
    (h : (ofTokens tokens).matchingClose? i = some j) :
    (i, j) ∈ (Scan.start.run 0 tokens).pairs := by
  have hfold : ∀ (pairs : List (Nat × Nat)) (table : Array (Option Nat)),
      (∀ i j, table[i]? = some (some j) → (i, j) ∈ (Scan.start.run 0 tokens).pairs) →
      (∀ e ∈ pairs, e ∈ (Scan.start.run 0 tokens).pairs) →
      ∀ i j, (pairs.foldl (fun table e => table.setIfInBounds e.1 (some e.2)) table)[i]? =
        some (some j) → (i, j) ∈ (Scan.start.run 0 tokens).pairs := by
    intro pairs
    induction pairs with
    | nil => exact fun table htable _ => htable
    | cons e pairs ih =>
      intro table htable hpairs
      refine ih _ (fun i j hij => ?_) fun e he => hpairs e (List.mem_cons_of_mem _ he)
      rw [Array.getElem?_setIfInBounds] at hij
      split at hij
      · next heq =>
        split at hij
        · obtain rfl : e.2 = j := by simpa using hij
          obtain rfl : e.1 = i := heq
          exact hpairs e (by simp)
        · cases hij
      · exact htable i j hij
  refine hfold _ (Array.replicate tokens.length none) (fun i j hij => ?_) (fun e he => he) i j ?_
  · rw [Array.getElem?_replicate] at hij
    split at hij <;> simp at hij
  · exact Option.join_eq_some_iff.mp h

/-- From an opening bracket with a width, the group is quiet. -/
theorem quiet_of_inlineWidth? (pre : List Token) {t : Token} {ts : List Token}
    (hbracket : t.isBracket = true) (htext : (t.text == "(" || t.text == "[") = true)
    (h : ((ofTokens (pre ++ t :: ts)).inlineWidth? pre.length).isSome = true) :
    Quiet [t.text] ts := by
  unfold inlineWidth? at h
  split at h
  case h_2 => cases h
  next j hclose =>
  split at h
  case isFalse => cases h
  next hbreaks =>
  have hpair := mem_pairs_of_matchingClose? hclose
  have hstep : (Scan.start.run 0 pre).step pre.length t =
      { Scan.start.run 0 pre with
        opened := (pre.length, t.text) :: (Scan.start.run 0 pre).opened } := by
    rw [Scan.step, if_pos hbracket, if_pos htext]
  have hordered := (Scan.ordered_run pre).step t
  have hnew : (pre.length, j) ∉ (Scan.start.run 0 pre).pairs := by
    intro hold
    rcases Scan.mem_pairs_run hold with hold | ⟨-, hj, hi | hi⟩
    · cases hold
    · cases hi
    · omega
  have hj : j + 1 ≤ (pre ++ t :: ts).length := by
    rcases Scan.mem_pairs_run hpair with hold | ⟨-, hj, -⟩
    · cases hold
    · omega
  rw [Scan.run_append, Nat.zero_add, Scan.run] at hpair
  rw [hstep] at hpair hordered
  have hij : pre.length + 1 ≤ j := ((Scan.mem_pairs_run hpair).resolve_left hnew).1
  refine quiet_of_mem_pairs [] rfl hordered hpair hnew fun m hm u hu => ?_
  refine calm_of_breaks hj hbreaks (by omega) (m + 1) (by omega) u ?_
  rw [List.getElem?_append_right (by omega), Nat.add_sub_cancel_left, List.getElem?_cons_succ]
  exact hu

end Groups

namespace Layout.Item

/-- Every opening bracket with a width opens a quiet group. -/
def Quiet : List Item → Prop
  | [] => True
  | item :: items =>
    (isOpeningBracket item.token = true → item.inlineWidth.isSome = true →
      Groups.Quiet [item.token.text] (items.map (·.token))) ∧ Quiet items

theorem quiet_measure (pre : List Token) {items : List Item}
    (h : ∀ item ∈ items, isOpeningBracket item.token = true →
      item.token.text = "(" ∨ item.token.text = "[") :
    Quiet (measure (Groups.ofTokens (pre ++ items.map (·.token))) pre.length items) := by
  induction items generalizing pre with
  | nil => trivial
  | cons item items ih =>
    refine ⟨fun hopen hwidth => ?_, ?_⟩
    · rw [map_token_measure]
      refine Groups.quiet_of_inlineWidth? pre ?_ (by simpa using h item (by simp) hopen) hwidth
      simp only [isOpeningBracket, Bool.and_eq_true] at hopen
      exact hopen.2
    · have hih := ih (pre ++ [item.token]) fun item hi => h item (List.mem_cons_of_mem _ hi)
      rwa [List.append_assoc, List.length_append] at hih

/-- The groups of a text that may stay on one line are quiet. -/
theorem quiet_ofTokens {tokens : List Token}
    (h : ∀ t ∈ tokens, isOpeningBracket t = true → t.text = "(" ∨ t.text = "[") :
    Quiet (ofTokens tokens) := by
  refine quiet_measure [] fun item hitem => h item.token ?_
  have hmem : item.token ∈ (gather .nothing tokens).map (·.token) := List.mem_map_of_mem hitem
  rw [map_token_gather] at hmem
  exact (List.mem_filter.mp hmem).1

end Layout.Item

end SqlFormat
