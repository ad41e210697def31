import Mathlib
import SqlFormat.Checked.Groups
import SqlFormat.Proofs.Checked.Fault
import SqlFormat.Proofs.Groups.Matching

/-!
# The tables of bracket groups have what is asked of them

The tables that are filled index by index are those of the pairs and sums. An open bracket stands among
the tokens that have been read, a closing bracket behind its partner, and the sums grow from one to
the other.

Results: `ofTokens_eq`, `inlineWidth?_eq`.
-/

namespace SqlFormat.Checked.Groups

open SqlFormat.Groups

variable {tokens read : List Token} {progress : Progress}

/-! ## Filling the tables -/

/-- The tables are those of the tokens that have been read. -/
structure Fills (progress : Progress) (tokens read : List Token) : Prop where
  size : progress.groups.closing.size = tokens.length
  closing : ∀ i j, progress.groups.closing[i]? = some (some j) ↔
    (i, j) ∈ (Scan.start.run 0 read).pairs
  widths : progress.groups.widths = (runningSums 0 (read.map Token.width)).toArray
  breaks : progress.groups.breaks = (runningSums 0 (read.map fun t => t.breaksLine.toNat)).toArray
  opened : progress.opened = (Scan.start.run 0 read).opened.map Prod.fst

theorem runningSums_append (total : Nat) (ns : List Nat) (n : Nat) :
    runningSums total (ns ++ [n]) = runningSums total ns ++ [total + ns.sum + n] := by
  induction ns generalizing total with
  | nil => simp [runningSums]
  | cons m ns ih => simp [runningSums, ih, Nat.add_assoc]

/-- The last sum is there, and the next one is put behind it. -/
theorem sums_push (read : List Token) (t : Token) (measure : Token → Nat) :
    ∃ total, element (runningSums 0 (read.map measure)).toArray read.length = .ok total ∧
      (runningSums 0 (read.map measure)).toArray.push (total + measure t) =
        (runningSums 0 ((read ++ [t]).map measure)).toArray := by
  refine ⟨0 + (read.map measure).sum, element_eq ?_, ?_⟩
  · rw [List.getElem?_toArray, runningSums_getElem? _ _ (by simp),
      List.take_of_length_le (by simp)]
  · rw [List.map_append, List.map_singleton, runningSums_append]
    simp

/-- The sums go on with a token, and the closing brackets are those known before it. -/
structure Counted (progress : Progress) (read : List Token) (t : Token) (groups : Groups) : Prop where
  closing : groups.closing = progress.groups.closing
  widths : groups.widths = (runningSums 0 ((read ++ [t]).map Token.width)).toArray
  breaks : groups.breaks =
    (runningSums 0 ((read ++ [t]).map fun t => t.breaksLine.toNat)).toArray

theorem count_eq (h : Fills progress tokens read) (t : Token) :
    ∃ groups, count progress.groups read.length t = .ok groups ∧ Counted progress read t groups := by
  obtain ⟨width, hwidth, hwidths⟩ := sums_push read t Token.width
  obtain ⟨breaks, hbreak, hbreaks⟩ := sums_push read t fun t => t.breaksLine.toNat
  rw [count, h.widths, h.breaks, hwidth, ok_bind, hbreak, ok_bind]
  exact ⟨_, rfl, rfl, hwidths, hbreaks⟩

/-- Open brackets are looked up among the tokens. -/
theorem innermost?_eq {opened : List (Nat × String)} (text : String)
    (h : ∀ e ∈ opened, ∃ t, tokens[e.1]? = some t ∧ t.text = e.2) :
    innermost? tokens.toArray text (opened.map Prod.fst) =
      .ok (match opened.dropWhile (·.2 != text) with
        | [] => none
        | e :: outer => some (e.1, outer.map Prod.fst)) := by
  induction opened with
  | nil => rfl
  | cons e opened ih =>
    obtain ⟨t, ht, htext⟩ := h e List.mem_cons_self
    have helement : element tokens.toArray e.1 = .ok t :=
      element_eq (by rw [List.getElem?_toArray, ht])
    rw [List.map_cons, innermost?, helement, ok_bind, htext, List.dropWhile_cons, bne]
    cases e.2 == text with
    | true => rfl
    | false => exact ih fun e' he' => h e' (List.mem_cons_of_mem _ he')

theorem run_snoc (read : List Token) (t : Token) :
    Scan.start.run 0 (read ++ [t]) = (Scan.start.run 0 read).step read.length t := by
  rw [Scan.run_append, Nat.zero_add]
  rfl

section Step

variable {groups : Groups} {t : Token} {rest : List Token}

/-- A token that closes no group. -/
theorem Fills.keep (h : Fills progress tokens read) (hcount : Counted progress read t groups)
    (hpairs : (Scan.start.run 0 (read ++ [t])).pairs = (Scan.start.run 0 read).pairs)
    {opened : List Nat} (hopened : opened = (Scan.start.run 0 (read ++ [t])).opened.map Prod.fst) :
    Fills ⟨groups, opened⟩ tokens (read ++ [t]) where
  size := by rw [hcount.closing, h.size]
  closing := by
    rw [hcount.closing, hpairs]
    exact h.closing
  widths := hcount.widths
  breaks := hcount.breaks
  opened := hopened

/-- An open bracket was read before the next token, so the table has a place for it. -/
theorem lt_size_closing (htokens : tokens = read ++ t :: rest) (h : Fills progress tokens read)
    (hcount : Counted progress read t groups) {o : Nat} {form : String}
    (hmem : (o, form) ∈ (Scan.start.run 0 read).opened) : o < groups.closing.size := by
  obtain ⟨u, hu, -⟩ := (Scan.open_run read).opening _ hmem
  have hlt := (List.getElem?_eq_some_iff.mp hu).1
  rw [hcount.closing, h.size, htokens, List.length_append]
  omega

/-- A token that closes the group of an open bracket. -/
theorem Fills.pair (h : Fills progress tokens read) (hcount : Counted progress read t groups)
    {o : Nat} {form : String} {outer : List (Nat × String)}
    (hmem : (o, form) ∈ (Scan.start.run 0 read).opened) (ho : o < groups.closing.size)
    (hpairs : (Scan.start.run 0 (read ++ [t])).pairs =
      (o, read.length) :: (Scan.start.run 0 read).pairs)
    (houter : (Scan.start.run 0 (read ++ [t])).opened = outer) :
    Fills ⟨{ groups with closing := groups.closing.set o (some read.length) ho },
      outer.map Prod.fst⟩ tokens (read ++ [t]) where
  size := by rw [Array.size_set, hcount.closing, h.size]
  closing i j := by
    rw [hpairs, List.mem_cons, Prod.mk.injEq, ← h.closing, Array.getElem?_set]
    split
    · next heq =>
      subst heq
      -- the pair that is added is the only one of this bracket, for an open bracket has no partner
      have hfree : ¬∃ k, progress.groups.closing[o]? = some (some k) := by
        rintro ⟨k, hk⟩
        exact (Scan.open_run read).free _ hmem _ ((h.closing o k).mp hk) rfl
      refine ⟨fun hsome => .inl ⟨rfl, ?_⟩, fun hor => ?_⟩
      · exact (Option.some.inj (Option.some.inj hsome)).symm
      · rcases hor with ⟨-, rfl⟩ | hknown
        · rfl
        · exact absurd ⟨j, hknown⟩ hfree
    · next hne =>
      rw [hcount.closing]
      exact ⟨.inr, fun hor => hor.resolve_left fun heq => hne heq.1.symm⟩
  widths := hcount.widths
  breaks := hcount.breaks
  opened := by rw [houter]

/-- A closing bracket looks for its partner among the open ones, innermost first. -/
theorem step_closing (htokens : tokens = read ++ t :: rest) (h : Fills progress tokens read)
    (hbracket : t.isBracket = true) (htext : ¬(t.text == "(" || t.text == "[") = true) :
    ∃ next, step tokens.toArray progress read.length t = .ok next ∧
      Fills next tokens (read ++ [t]) := by
  obtain ⟨groups, hok, hcount⟩ := count_eq h t
  have hlooked : ∀ e ∈ (Scan.start.run 0 read).opened,
      ∃ u, tokens[e.1]? = some u ∧ u.text = e.2 := by
    intro e he
    obtain ⟨u, hu, heq⟩ := (Scan.noted_run read).opened e he
    refine ⟨u, ?_, heq⟩
    rw [htokens, List.getElem?_append_left (List.getElem?_eq_some_iff.mp hu).1, hu]
  have hrun := run_snoc read t
  rw [Scan.step, if_pos hbracket, if_neg htext] at hrun
  rw [step, hok, ok_bind, if_pos hbracket, if_neg htext, h.opened, innermost?_eq _ hlooked, ok_bind]
  cases hdrop : (Scan.start.run 0 read).opened.dropWhile (·.2 != openingOf t.text) with
  | nil =>
    rw [hdrop] at hrun
    exact ⟨_, rfl, h.keep hcount (by rw [hrun]) (by rw [hrun])⟩
  | cons e outer =>
    obtain ⟨o, form⟩ := e
    rw [hdrop] at hrun
    have hmem : (o, form) ∈ (Scan.start.run 0 read).opened :=
      (List.dropWhile_suffix _).subset (hdrop ▸ List.mem_cons_self)
    have ho := lt_size_closing htokens h hcount hmem
    simp only
    rw [store, dif_pos ho, ok_bind]
    exact ⟨_, rfl, h.pair hcount hmem ho (by rw [hrun]) (by rw [hrun])⟩

/-- One token. -/
theorem step_fills (htokens : tokens = read ++ t :: rest) (h : Fills progress tokens read) :
    ∃ next, step tokens.toArray progress read.length t = .ok next ∧
      Fills next tokens (read ++ [t]) := by
  obtain ⟨groups, hok, hcount⟩ := count_eq h t
  have hrun := run_snoc read t
  by_cases hbracket : t.isBracket = true
  · by_cases htext : (t.text == "(" || t.text == "[") = true
    · rw [Scan.step, if_pos hbracket, if_pos htext] at hrun
      rw [step, hok, ok_bind, if_pos hbracket, if_pos htext]
      exact ⟨_, rfl, h.keep hcount (by rw [hrun]) (by rw [hrun, h.opened]; rfl)⟩
    · exact step_closing htokens h hbracket htext
  · rw [Scan.step, if_neg hbracket] at hrun
    rw [step, hok, ok_bind, if_neg hbracket]
    exact ⟨_, rfl, h.keep hcount (by rw [hrun]) (by rw [hrun, h.opened])⟩

end Step

theorem run_fills {rest : List Token} (htokens : tokens = read ++ rest)
    (h : Fills progress tokens read) :
    ∃ next, run tokens.toArray progress read.length rest = .ok next ∧ Fills next tokens tokens := by
  induction rest generalizing read progress with
  | nil =>
    rw [List.append_nil] at htokens
    exact ⟨progress, rfl, htokens ▸ h⟩
  | cons t rest ih =>
    obtain ⟨next, hnext, hfills⟩ := step_fills htokens h
    rw [run, hnext, ok_bind]
    have hrest := ih (by rw [htokens, List.append_assoc]; rfl) hfills
    rwa [List.length_append] at hrest

theorem size_closing (tokens : List Token) :
    (SqlFormat.Groups.ofTokens tokens).closing.size = tokens.length := by
  have hfold : ∀ (pairs : List (Nat × Nat)) (table : Array (Option Nat)),
      (pairs.foldl (fun table p => table.setIfInBounds p.1 (some p.2)) table).size =
        table.size := by
    intro pairs
    induction pairs with
    | nil => exact fun _ => rfl
    | cons p pairs ih => exact fun table => (ih _).trans (Array.size_setIfInBounds ..)
  rw [SqlFormat.Groups.ofTokens]
  exact (hfold _ _).trans Array.size_replicate

/-- A table of closing brackets that holds the pairs is the one of the groups. -/
theorem Fills.closing_eq (h : Fills progress tokens tokens) :
    progress.groups.closing = (SqlFormat.Groups.ofTokens tokens).closing := by
  have hsize := h.size.trans (size_closing tokens).symm
  refine Array.ext hsize fun i hi hi' => Option.ext fun j => ?_
  have hfilled := h.closing i j
  have hgroups := @matchingClose?_eq_some_iff tokens i j
  rw [Array.getElem?_eq_getElem hi, Option.some.injEq] at hfilled
  rw [matchingClose?, Array.getElem?_eq_getElem hi', Option.join_some] at hgroups
  rw [hfilled, ← hgroups]

/-- The tables that are filled index by index are the groups of the tokens. -/
theorem ofTokens_eq (tokens : List Token) :
    Groups.ofTokens tokens.toArray = .ok (SqlFormat.Groups.ofTokens tokens) := by
  have hstart : Fills (.start tokens.length) tokens [] := by
    refine ⟨Array.size_replicate, fun i j => ?_, rfl, rfl, rfl⟩
    rw [Progress.start, Array.getElem?_replicate]
    split <;> simp [Scan.run, Scan.start]
  obtain ⟨next, hnext, h⟩ := run_fills (List.nil_append tokens).symm hstart
  rw [List.length_nil] at hnext
  rw [Groups.ofTokens, List.size_toArray, hnext, ok_bind, pure_eq]
  have hclosing := h.closing_eq
  have hwidths := h.widths
  have hbreaks := h.breaks
  congr 1
  cases hgroups : next.groups
  rw [hgroups] at hclosing hwidths hbreaks
  simp only at hclosing hwidths hbreaks
  rw [hclosing, hwidths, hbreaks]
  rfl

/-! ## What is asked of the tables -/

/-- The width of a group is asked of sums that are there, and the later one is large enough. -/
theorem width?_eq (tokens : List Token) (i : Nat) :
    width? (SqlFormat.Groups.ofTokens tokens) i =
      .ok ((SqlFormat.Groups.ofTokens tokens).width? i) := by
  rw [width?, SqlFormat.Groups.width?]
  cases hmatch : (SqlFormat.Groups.ofTokens tokens).matchingClose? i with
  | none => rfl
  | some j =>
    have hcorrect := groups_correct tokens
    obtain ⟨hj, hroom⟩ := hcorrect.room i j hmatch
    obtain ⟨hlt, -⟩ := hcorrect.partners i j hmatch
    have hstop := hcorrect.sums (j + 1) hj
    have hstart := hcorrect.sums i (by omega)
    have hsums := minus_eq (Nat.le_of_succ_le hroom)
    have hspan := minus_eq (Nat.le_sub_of_add_le (Nat.add_comm _ _ ▸ hroom))
    simp only [element_eq hstop, element_eq hstart, ok_bind, hsums, hspan, Option.map_some, pure_eq,
      Array.getD_eq_getD_getElem?, hstop, hstart, Option.getD_some]

/-- What is asked about a group on one line is there. -/
theorem inlineWidth?_eq (tokens : List Token) (i : Nat) :
    inlineWidth? (SqlFormat.Groups.ofTokens tokens) i =
      .ok ((SqlFormat.Groups.ofTokens tokens).inlineWidth? i) := by
  rw [inlineWidth?, SqlFormat.Groups.inlineWidth?]
  cases hmatch : (SqlFormat.Groups.ofTokens tokens).matchingClose? i with
  | none => rfl
  | some j =>
    obtain ⟨hlt, hj⟩ := lt_length_of_matchingClose? hmatch
    have hbreak : ∀ k ≤ tokens.length, element (SqlFormat.Groups.ofTokens tokens).breaks k =
        .ok ((SqlFormat.Groups.ofTokens tokens).breaks.getD k 0) := by
      intro k hk
      have hthere : (SqlFormat.Groups.ofTokens tokens).breaks[k]? ≠ none := by
        rw [SqlFormat.Groups.ofTokens, List.getElem?_toArray,
          runningSums_getElem? _ _ (by simpa using hk)]
        exact Option.some_ne_none _
      obtain ⟨n, hn⟩ := Option.ne_none_iff_exists'.mp hthere
      rw [element_eq hn, Array.getD_eq_getD_getElem?, hn, Option.getD_some]
    simp only [hbreak (j + 1) hj, hbreak i (by omega), ok_bind, width?_eq, pure_eq]
    split <;> rfl

end SqlFormat.Checked.Groups
