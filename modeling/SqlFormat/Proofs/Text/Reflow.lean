import Mathlib
import SqlFormat.Layout.Step
import SqlFormat.Proofs.Text.Trim
import SqlFormat.Proofs.Text.White

/-!
# Comments with other white space

A block comment is indented anew: white space may become other white space, but none goes away
altogether except at the end, and none comes between characters that touched. Such a text has the
same words, and a pattern of two characters without white space ends it where it did.

Results: `reflow_reindent`, `Reflow.whiteWords_lower`, `Reflow.closes`, `Reflow.holds`.
-/

namespace SqlFormat.Text

open SqlFormat.Equivalence (whiteWordsFrom)

/-- The second text is the first with other white space. -/
inductive Reflow : List Char → List Char → Prop
  | nil : Reflow [] []
  | char {c : Char} {t x : List Char} (hc : isWhite c = false) (rest : Reflow t x) :
      Reflow (c :: t) (c :: x)
  | gap {g g' t x : List Char} (hne : g ≠ []) (hg : AllWhite g) (hne' : g' ≠ [])
      (hg' : AllWhite g') (rest : Reflow t x) : Reflow (g ++ t) (g' ++ x)
  | stop {g g' : List Char} (hne : g ≠ []) (hg : AllWhite g) (hg' : AllWhite g') : Reflow g g'

variable {t x : List Char}

theorem Reflow.append (b : List Char) (h : Reflow t x) : Reflow (b ++ t) (b ++ x) := by
  induction b with
  | nil => exact h
  | cons c b ih =>
    cases hc : isWhite c with
    | false => exact .char hc ih
    | true =>
      have hall : AllWhite [c] := by simpa [AllWhite] using hc
      have hne : [c] ≠ [] := List.cons_ne_nil c []
      have := Reflow.gap hne hall hne hall ih
      exact this

theorem Reflow.refl (t : List Char) : Reflow t t := by
  have := Reflow.append t .nil
  simpa using this

theorem Reflow.eq_nil (h : Reflow [] x) : x = [] := by
  generalize ht : [] = t at h
  cases h with
  | nil => rfl
  | char => cases ht
  | gap hne => exact absurd (List.append_eq_nil_iff.mp ht.symm).1 hne
  | stop hne => exact absurd ht.symm hne

theorem Reflow.singleton {c : Char} (hc : isWhite c = false) (h : Reflow [c] x) : x = [c] := by
  have hwhite : ∀ {g : List Char}, g ≠ [] → AllWhite g → g.head? ≠ some c := by
    intro g hne hg hhead
    obtain ⟨d, g, rfl⟩ := List.exists_cons_of_ne_nil hne
    obtain rfl := Option.some.inj hhead
    rw [hg d (by simp)] at hc
    cases hc
  generalize ht : [c] = t at h
  cases h with
  | nil => cases ht
  | char _ rest =>
    cases ht
    rw [rest.eq_nil]
  | @gap g g' t x hne hg _ _ _ =>
    refine absurd ?_ (hwhite hne hg)
    obtain ⟨d, g, rfl⟩ := List.exists_cons_of_ne_nil hne
    rw [(List.cons.inj ht).1]
    rfl
  | stop hne hg => exact absurd (by rw [← ht]; rfl) (hwhite hne hg)

/-- A text that ends with no white space still ends with the same character. -/
theorem Reflow.getLast? (h : Reflow t x) {c : Char} (hc : t.getLast? = some c)
    (hw : isWhite c = false) : x.getLast? = some c := by
  have hwhite : ∀ {g : List Char}, AllWhite g → g.getLast? ≠ some c := by
    intro g hg hlast
    rw [hg c (List.mem_of_getLast? hlast)] at hw
    cases hw
  induction h with
  | nil => cases hc
  | @char d t x _ rest ih =>
    cases ht : t.getLast? with
    | none =>
      obtain rfl := List.getLast?_eq_none_iff.mp ht
      obtain rfl := rest.eq_nil
      exact hc
    | some e =>
      rw [List.getLast?_cons, ht] at hc
      have := ih (by simpa [ht] using hc)
      rw [List.getLast?_cons, this]
      rfl
  | @gap g g' t x _ hg _ _ _ ih =>
    cases ht : t.getLast? with
    | none =>
      rw [List.getLast?_append, ht, Option.none_or] at hc
      exact absurd hc (hwhite hg)
    | some e =>
      rw [List.getLast?_append, ht, Option.some_or] at hc
      rw [List.getLast?_append, ih (ht.trans hc), Option.some_or]
  | stop _ hg => exact absurd hc (hwhite hg)

theorem Reflow.allWhite (h : Reflow t x) (hx : AllWhite x) : AllWhite t := by
  induction h with
  | nil => exact hx
  | @char c t x hc _ _ =>
    rw [hx c (by simp)] at hc
    cases hc
  | gap _ hg _ _ _ ih =>
    intro c hc
    rcases List.mem_append.mp hc with hc | hc
    · exact hg c hc
    · exact ih (fun d hd => hx d (List.mem_append_right _ hd)) c hc
  | stop _ hg => exact hg

/-- Trimming is one more change of white space. -/
theorem Reflow.trim (h : Reflow t x) : Reflow t (dropWhileEnd isWhite x) := by
  induction h with
  | nil => exact .nil
  | char hc _ ih =>
    rw [dropWhileEnd_cons hc]
    exact .char hc ih
  | @gap g g' t x hne hg hne' hg' rest ih =>
    by_cases hx : dropWhileEnd isWhite x = []
    · obtain ⟨w, hw, hwhite⟩ := dropWhileEnd_spec isWhite x
      rw [hx, List.nil_append] at hw
      subst hw
      have ht := rest.allWhite hwhite
      rw [dropWhileEnd_append_white _ hwhite]
      have hnil := dropWhileEnd_append_white [] hg'
      rw [List.nil_append] at hnil
      rw [hnil]
      exact .stop (by simp [hne]) (fun c hc => (List.mem_append.mp hc).elim (hg c) (ht c))
        (by simp [AllWhite, dropWhileEnd])
    · rw [dropWhileEnd_append_of_ne hx]
      exact .gap hne hg hne' hg' ih
  | @stop g g' hne hg hg' =>
    have hnil := dropWhileEnd_append_white [] hg'
    rw [List.nil_append] at hnil
    rw [hnil]
    exact .stop hne hg (by simp [AllWhite, dropWhileEnd])

theorem headWord_white {g : List Char} (hne : g ≠ []) (hg : AllWhite g) (rest : List Char) :
    headWord (g ++ rest) = [] := by
  obtain ⟨c, g, rfl⟩ := List.exists_cons_of_ne_nil hne
  simp [headWord, hg c (by simp)]

theorem Reflow.headWord_eq (h : Reflow t x) : headWord t = headWord x := by
  induction h with
  | nil => rfl
  | char hc _ ih => simpa [headWord, hc] using ih
  | gap hne hg hne' hg' _ _ => rw [headWord_white hne hg, headWord_white hne' hg']
  | @stop g g' hne hg hg' =>
    have h₁ := headWord_white hne hg []
    rw [List.append_nil] at h₁
    by_cases hne' : g' = []
    · rw [h₁, hne', headWord, List.takeWhile_nil]
    · have h₂ := headWord_white hne' hg' []
      rw [List.append_nil] at h₂
      rw [h₁, h₂]

/-- The words are the same, in lower case too. -/
theorem Reflow.whiteWords_lower (h : Reflow t x) :
    whiteWordsFrom [] (lowerFrom [] t) = whiteWordsFrom [] (lowerFrom [] x) := by
  suffices hgen : ∀ b b' word, headWord b = headWord b' →
      whiteWordsFrom word (lowerFrom b t) = whiteWordsFrom word (lowerFrom b' x) from
    hgen [] [] [] rfl
  induction h with
  | nil => intro b b' word _; rfl
  | @char c t x hc rest ih =>
    intro b b' word hb
    rw [lowerFrom, lowerFrom, lowerAt_congr c hb rest.headWord_eq,
      whiteWordsFrom_append _ (lowerAt_not_white _ _ hc),
      whiteWordsFrom_append _ (lowerAt_not_white _ _ hc)]
    exact ih _ _ _ (by simp [headWord, hc] at hb ⊢; exact hb)
  | @gap g g' t x hne hg hne' hg' _ ih =>
    intro b b' word hb
    rw [lowerFrom_white b hg, lowerFrom_white b' hg', whiteWordsFrom_gap _ hne hg,
      whiteWordsFrom_gap _ hne' hg']
    have hrev : ∀ {g : List Char} (b : List Char), g ≠ [] → AllWhite g →
        headWord (g.reverse ++ b) = [] := by
      intro g b hne hg
      exact headWord_white (by simpa using hne) (fun c hc => hg c (List.mem_reverse.mp hc)) b
    rw [ih _ _ [] ((hrev b hne hg).trans (hrev b' hne' hg').symm)]
  | @stop g g' hne hg hg' =>
    intro b b' word _
    have h₁ := lowerFrom_append_white b [] hg
    have h₂ := lowerFrom_append_white b' [] hg'
    rw [List.nil_append] at h₁ h₂
    rw [h₁, h₂, whiteWordsFrom_end _ _ hg, whiteWordsFrom_end _ _ hg']
    rfl

/-! ## Indenting a comment -/

theorem splitOn_spec (sep : Char) (cs : List Char) :
    ∃ first rest, splitOn sep cs = first :: rest ∧ cs = first ++ rest.flatMap (sep :: ·) := by
  induction cs with
  | nil => exact ⟨[], [], rfl, rfl⟩
  | cons c cs ih =>
    obtain ⟨first, rest, hs, hcs⟩ := ih
    rw [splitOn]
    by_cases hc : c = sep
    · subst hc
      refine ⟨[], first :: rest, by rw [if_pos rfl, hs], ?_⟩
      rw [List.flatMap_cons, List.nil_append, List.cons_append, ← hcs]
    · refine ⟨c :: first, rest, by rw [if_neg hc, hs], ?_⟩
      rw [List.cons_append, ← hcs]

/-- What a line after the first becomes. -/
def reindentLine (margin : List Char) (line : List Char) : List Char :=
  let bare := dropWhileEnd isWhite (line.dropWhile isWhite)
  '\n' :: if bare.isEmpty then [] else margin ++ ' ' :: bare

theorem reflow_lines {margin : List Char} (hmargin : AllWhite margin) (lines : List (List Char))
    {g g' : List Char} (hg : AllWhite g) (hg' : AllWhite g') (hnil : g = [] → g' = []) :
    Reflow (g ++ lines.flatMap ('\n' :: ·)) (g' ++ lines.flatMap (reindentLine margin)) := by
  induction lines generalizing g g' with
  | nil =>
    rw [List.flatMap_nil, List.flatMap_nil, List.append_nil, List.append_nil]
    by_cases hne : g = []
    · rw [hne, hnil hne]
      exact .nil
    · exact .stop hne hg hg'
  | cons line lines ih =>
    -- A line is white space, its bare text, and white space again.
    have hleft : AllWhite (line.takeWhile isWhite) := fun c hc => List.mem_takeWhile_imp hc
    have hline : line = line.takeWhile isWhite ++ line.dropWhile isWhite :=
      List.takeWhile_append_dropWhile.symm
    obtain ⟨right, hmid, hright⟩ := dropWhileEnd_spec isWhite (line.dropWhile isWhite)
    have hall : ∀ {a b : List Char}, AllWhite a → AllWhite b → AllWhite (a ++ '\n' :: b) := by
      intro a b ha hb c hc
      rcases List.mem_append.mp hc with hc | hc
      · exact ha c hc
      · rcases List.mem_cons.mp hc with rfl | hc
        · decide
        · exact hb c hc
    simp only [List.flatMap_cons, reindentLine]
    split
    · next hempty =>
      have hwhite : AllWhite line := by
        rw [hline, hmid, List.isEmpty_iff.mp hempty, List.nil_append]
        intro c hc
        exact (List.mem_append.mp hc).elim (hleft c) (hright c)
      have := ih (hall hg hwhite) (hall hg' (b := []) (by simp [AllWhite])) (by simp)
      simpa using this
    · have hrest := ih hright (List.forall_mem_nil _) fun _ => rfl
      have hmargin' : AllWhite (margin ++ [' ']) := by
        intro c hc
        rcases List.mem_append.mp hc with hc | hc
        · exact hmargin c hc
        · obtain rfl := List.mem_singleton.mp hc
          decide
      have := Reflow.gap (by simp) (hall hg hleft) (by simp) (hall hg' hmargin')
        (hrest.append (dropWhileEnd isWhite (line.dropWhile isWhite)))
      rw [← List.append_assoc (dropWhileEnd _ _) right, ← hmid] at this
      have hjoin : ∀ r, line.takeWhile isWhite ++ (line.dropWhile isWhite ++ r) = line ++ r := by
        intro r
        rw [← List.append_assoc, ← hline]
      simpa [hjoin] using this

theorem toList_reindentLine (margin : String) (line : List Char) :
    (if (trim (String.ofList line)).isEmpty then "\n"
      else "\n" ++ margin ++ " " ++ trim (String.ofList line)).toList =
      reindentLine margin.toList line := by
  have hempty : (trim (String.ofList line)).isEmpty =
      (dropWhileEnd isWhite (line.dropWhile isWhite)).isEmpty := by
    rw [Bool.eq_iff_iff, String.isEmpty_iff, List.isEmpty_iff, ← String.toList_eq_nil_iff, trim,
      String.toList_ofList, String.toList_ofList]
  rw [hempty, reindentLine]
  split
  · rfl
  · simp [trim]

/-- The lines of a comment that is indented anew. -/
theorem toList_reindent (unit : String) (indent : Nat) {text : String} {first : List Char}
    {rest : List (List Char)} (hsplit : splitOn '\n' text.toList = first :: rest) :
    (Layout.State.reindent unit indent text).toList =
      dropWhileEnd isWhite first ++
        rest.flatMap (reindentLine (String.join (List.replicate indent unit)).toList) := by
  simp only [Layout.State.reindent, hsplit, String.toList_append, String.toList_join,
    List.flatMap_map, toList_reindentLine, trimEnd, String.toList_ofList]

theorem forall_mem_margin {p : Char → Prop} {unit : String} (hunit : ∀ c ∈ unit.toList, p c)
    (indent : Nat) : ∀ c ∈ (String.join (List.replicate indent unit)).toList, p c := by
  intro c hc
  rw [String.toList_join] at hc
  obtain ⟨s, hs, hc⟩ := List.mem_flatMap.mp hc
  rw [List.eq_of_mem_replicate hs] at hc
  exact hunit c hc

/-- A comment that is indented anew differs in its white space only. -/
theorem reflow_reindent {unit : String} (hunit : AllWhite unit.toList) (indent : Nat)
    (text : String) : Reflow text.toList (Layout.State.reindent unit indent text).toList := by
  obtain ⟨first, rest, hsplit, htext⟩ := splitOn_spec '\n' text.toList
  obtain ⟨w, hfirst, hw⟩ := dropWhileEnd_spec isWhite first
  have hlines := reflow_lines (forall_mem_margin hunit indent) rest hw (List.forall_mem_nil _)
    fun _ => rfl
  rw [toList_reindent unit indent hsplit]
  conv_lhs => rw [htext, hfirst, List.append_assoc]
  exact hlines.append _

/-! ## The end of a comment -/

/-- The end of a block comment stands at the head of the text. -/
def atClose (c : Char) (cs : List Char) : Bool :=
  c == '*' && cs.head? == some '/'

/-- The first end of a block comment is the end of the text. -/
def closes : List Char → Bool
  | [] => false
  | c :: cs => if atClose c cs then cs.length == 1 else closes cs

/-- The end of a block comment is somewhere in the text. -/
def holdsClose : List Char → Bool
  | [] => false
  | c :: cs => atClose c cs || holdsClose cs

theorem isPrefixOf_close (c : Char) (cs : List Char) :
    ['*', '/'].isPrefixOf (c :: cs) = atClose c cs := by
  cases cs with
  | nil => simp [atClose, List.isPrefixOf]
  | cons d cs => simp [atClose, List.isPrefixOf, Bool.beq_comm]

theorem atClose_append {c : Char} {cs : List Char} (hne : cs ≠ []) (r : List Char) :
    atClose c (cs ++ r) = atClose c cs := by
  cases cs with
  | nil => exact absurd rfl hne
  | cons d cs => rfl

theorem through_closes {a : List Char} (h : closes a = true) (r : List Char) :
    Scan.through ['*', '/'] (a ++ r) = a.length := by
  induction a with
  | nil => cases h
  | cons c a ih =>
    rw [List.cons_append, Scan.through, isPrefixOf_close]
    rw [closes] at h
    split at h
    · next hc =>
      rw [beq_iff_eq] at h
      have hne : a ≠ [] := by rintro rfl; cases h
      rw [atClose_append hne, if_pos hc]
      simp only [List.length_cons, List.length_nil, h]
    · next hc =>
      have hne : a ≠ [] := by rintro rfl; cases h
      rw [atClose_append hne, if_neg hc, ih h, List.length_cons]
      omega

theorem through_not_holdsClose {a : List Char} (h : holdsClose a = false) :
    Scan.through ['*', '/'] a = a.length := by
  induction a with
  | nil => rfl
  | cons c a ih =>
    simp only [holdsClose, Bool.or_eq_false_iff] at h
    rw [Scan.through, isPrefixOf_close, h.1, if_neg Bool.false_ne_true, ih h.2, List.length_cons]
    omega

/-- A text that reaches up to the end of a comment either ends there or is all there is. -/
theorem closes_of_through {a r : List Char} (h : Scan.through ['*', '/'] (a ++ r) = a.length) :
    closes a = true ∨ (holdsClose a = false ∧ r = []) := by
  induction a with
  | nil =>
    cases r with
    | nil => exact .inr ⟨rfl, rfl⟩
    | cons c r =>
      simp only [List.nil_append, Scan.through, List.length_nil] at h
      split at h
      · cases h
      · omega
  | cons c a ih =>
    rw [List.cons_append, Scan.through, isPrefixOf_close] at h
    simp only [List.length_cons, List.length_nil] at h
    split at h
    · next hc =>
      have hlen : a.length = 1 := by omega
      have hne : a ≠ [] := by rintro rfl; cases hlen
      rw [atClose_append hne] at hc
      exact .inl (by rw [closes, if_pos hc, hlen]; rfl)
    · next hc =>
      rcases ih (by omega) with hclose | ⟨hopen, rfl⟩
      · have hne : a ≠ [] := by rintro rfl; cases hclose
        rw [atClose_append hne] at hc
        exact .inl (by rw [closes, if_neg hc, hclose])
      · rw [List.append_nil] at hc
        exact .inr ⟨by simp [holdsClose, hc, hopen], rfl⟩

theorem Reflow.atClose_eq (h : Reflow t x) (c : Char) : atClose c t = atClose c x := by
  have hhead : ∀ cs : List Char, (cs.head? == some '/') = ((headWord cs).head? == some '/') := by
    intro cs
    cases cs with
    | nil => rfl
    | cons d cs =>
      cases hd : isWhite d with
      | false => simp [headWord, hd]
      | true =>
        have : d ≠ '/' := by rintro rfl; cases hd
        simp [headWord, hd, this]
  rw [atClose, atClose, hhead t, hhead x, h.headWord_eq]

theorem not_atClose_white {c : Char} (hc : isWhite c = true) (cs : List Char) :
    atClose c cs = false := by
  have : c ≠ '*' := by rintro rfl; cases hc
  simp [atClose, this]

theorem holdsClose_white {g : List Char} (hg : AllWhite g) (t : List Char) :
    holdsClose (g ++ t) = holdsClose t := by
  induction g with
  | nil => rfl
  | cons c g ih =>
    rw [List.cons_append, holdsClose, not_atClose_white (hg c (by simp)), Bool.false_or,
      ih fun d hd => hg d (List.mem_cons_of_mem _ hd)]

theorem closes_white {g : List Char} (hg : AllWhite g) (t : List Char) :
    closes (g ++ t) = closes t := by
  induction g with
  | nil => rfl
  | cons c g ih =>
    rw [List.cons_append, closes, not_atClose_white (hg c (by simp)), if_neg Bool.false_ne_true,
      ih fun d hd => hg d (List.mem_cons_of_mem _ hd)]

theorem Reflow.holdsClose_eq (h : Reflow t x) : holdsClose t = holdsClose x := by
  induction h with
  | nil => rfl
  | char _ rest ih => rw [holdsClose, holdsClose, rest.atClose_eq, ih]
  | gap _ hg _ hg' _ ih => rw [holdsClose_white hg, holdsClose_white hg', ih]
  | @stop g g' _ hg hg' =>
    have h₁ := holdsClose_white hg []
    have h₂ := holdsClose_white hg' []
    rw [List.append_nil] at h₁ h₂
    rw [h₁, h₂]

theorem Reflow.closes_eq (h : Reflow t x) (hclose : closes t = true) : closes x = true := by
  induction h with
  | nil => cases hclose
  | @char c t x _ rest ih =>
    rw [closes, ← rest.atClose_eq]
    rw [closes] at hclose
    split at hclose
    · next hc =>
      rw [if_pos hc]
      have hslash : t = ['/'] := by
        cases t with
        | nil => cases hclose
        | cons d t =>
          simp only [atClose, List.head?_cons, Bool.and_eq_true, beq_iff_eq,
            Option.some.injEq] at hc
          simp only [List.length_cons, beq_iff_eq, Nat.add_eq_right, List.length_eq_zero_iff]
            at hclose
          rw [hc.2, hclose]
      subst hslash
      rw [rest.singleton (by decide)]
      rfl
    · next hc =>
      rw [if_neg hc]
      exact ih hclose
  | gap _ hg _ hg' _ ih =>
    rw [closes_white hg] at hclose
    rw [closes_white hg', ih hclose]
  | @stop g g' _ hg hg' =>
    have := closes_white hg []
    rw [List.append_nil, hclose] at this
    cases this

end SqlFormat.Text
