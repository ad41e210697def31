import Mathlib
import SqlFormat.Proofs.Text.Reflow
import SqlFormat.Proofs.Text.Visible

/-!
# A comment that is indented already

Indenting a comment anew leaves it alone if it was indented to the same margin before. White space behind
a comment stays behind it.

Results: `reindent_reindent`, `neatLines_reindent`, `trimmed_reindent`, `exists_reindent_white`.
-/

namespace SqlFormat.Text

open Layout.State (reindent)

/-! ## Lines -/

section Lines

variable {sep : Char} {line : List Char}

theorem splitOn_of_not_mem (h : sep ∉ line) : splitOn sep line = [line] := by
  induction line with
  | nil => rfl
  | cons c line ih =>
    have hc : c ≠ sep := fun hc => h (hc ▸ List.mem_cons_self)
    rw [splitOn, if_neg hc, ih fun hmem => h (List.mem_cons_of_mem _ hmem)]

theorem splitOn_append (h : sep ∉ line) (cs : List Char) :
    splitOn sep (line ++ sep :: cs) = line :: splitOn sep cs := by
  induction line with
  | nil => rw [List.nil_append, splitOn, if_pos rfl]
  | cons c line ih =>
    have hc : c ≠ sep := fun hc => h (hc ▸ List.mem_cons_self)
    rw [List.cons_append, splitOn, if_neg hc, ih fun hmem => h (List.mem_cons_of_mem _ hmem)]

theorem splitOn_flatMap {first : List Char} {rest : List (List Char)} (hfirst : sep ∉ first)
    (hrest : ∀ line ∈ rest, sep ∉ line) :
    splitOn sep (first ++ rest.flatMap (sep :: ·)) = first :: rest := by
  induction rest generalizing first with
  | nil => rw [List.flatMap_nil, List.append_nil, splitOn_of_not_mem hfirst]
  | cons line rest ih =>
    rw [List.flatMap_cons, List.cons_append, splitOn_append hfirst,
      ih (hrest line List.mem_cons_self) fun l hl => hrest l (List.mem_cons_of_mem _ hl)]

theorem not_mem_splitOn (cs : List Char) : ∀ line ∈ splitOn sep cs, sep ∉ line := by
  induction cs with
  | nil => simp [splitOn]
  | cons c cs ih =>
    rw [splitOn]
    split
    · rintro line (_ | ⟨_, hline⟩)
      · exact List.not_mem_nil
      · exact ih line hline
    · next hc =>
      obtain ⟨first, rest, hsplit, -⟩ := splitOn_spec sep cs
      rw [hsplit] at ih ⊢
      rintro line (_ | ⟨_, hline⟩)
      · rintro (_ | ⟨_, hmem⟩)
        · exact hc rfl
        · exact ih first List.mem_cons_self hmem
      · exact ih line (List.mem_cons_of_mem _ hline)

end Lines

/-! ## Indented lines -/

/-- The text of a line without the white space around it. -/
def bareLine (line : List Char) : List Char :=
  dropWhileEnd isWhite (line.dropWhile isWhite)

/-- A line as it is written behind a margin. -/
def indentLine (margin line : List Char) : List Char :=
  if (bareLine line).isEmpty then [] else margin ++ ' ' :: bareLine line

theorem reindentLine_eq (margin line : List Char) :
    reindentLine margin line = '\n' :: indentLine margin line := rfl

variable {margin line cs : List Char}

/-- A bare line starts with no white space. -/
theorem dropWhile_bareLine (line : List Char) :
    (bareLine line).dropWhile isWhite = bareLine line := by
  obtain ⟨w, hline, -⟩ := dropWhileEnd_spec isWhite (line.dropWhile isWhite)
  cases hbare : bareLine line with
  | nil => rfl
  | cons c bare =>
    have hhead : isWhite c = false := by
      have hne : line.dropWhile isWhite ≠ [] := by
        intro hnil
        rw [bareLine, hnil] at hbare
        cases hbare
      have := List.head_dropWhile_not isWhite hne
      rw [bareLine] at hbare
      rw [hbare] at hline
      simpa [hline] using this
    rw [List.dropWhile_cons_of_neg (by simp [hhead])]

theorem bareLine_indentLine (hmargin : AllWhite margin) (line : List Char) :
    bareLine (indentLine margin line) = bareLine line := by
  unfold indentLine
  split
  · next hempty =>
    rw [List.isEmpty_iff.mp hempty]
    rfl
  · have hwhite : ∀ c ∈ margin ++ [' '], isWhite c = true := by
      intro c hc
      rcases List.mem_append.mp hc with hc | hc
      · exact hmargin c hc
      · rw [List.mem_singleton.mp hc]
        decide
    have hdrop : (margin ++ ' ' :: bareLine line).dropWhile isWhite = bareLine line := by
      rw [List.append_cons, List.dropWhile_append_of_pos hwhite, dropWhile_bareLine]
    rw [bareLine, hdrop]
    exact dropWhileEnd_idem _

theorem indentLine_indentLine (hmargin : AllWhite margin) (line : List Char) :
    indentLine margin (indentLine margin line) = indentLine margin line := by
  rw [indentLine, bareLine_indentLine hmargin]
  rfl

theorem not_mem_indentLine (hmargin : '\n' ∉ margin) (hline : '\n' ∉ line) :
    '\n' ∉ indentLine margin line := by
  have hbare : '\n' ∉ bareLine line := by
    obtain ⟨w, hsplit, -⟩ := dropWhileEnd_spec isWhite (line.dropWhile isWhite)
    intro hmem
    refine hline ((List.dropWhile_suffix isWhite).subset ?_)
    rw [hsplit]
    exact List.mem_append_left w hmem
  unfold indentLine
  split
  · exact List.not_mem_nil
  · simp [hmargin, hbare]

theorem not_mem_margin {unit : String} (hfeed : '\n' ∉ unit.toList) (indent : Nat) :
    '\n' ∉ (String.join (List.replicate indent unit)).toList := fun hmem =>
  forall_mem_margin (p := (· ≠ '\n')) (fun _ hc heq => hfeed (heq ▸ hc)) indent _ hmem rfl

/-- A text of which the first line is trimmed and the others are behind a margin. -/
structure Indented (margin cs : List Char) (first : List Char) (rest : List (List Char)) : Prop where
  text : cs = first ++ rest.flatMap ('\n' :: ·)
  lines : ∀ line ∈ first :: rest, '\n' ∉ line
  trimmed : Trimmed first
  behind : ∀ line ∈ rest, indentLine margin line = line

theorem indented_reindent {unit : String} (hunit : AllWhite unit.toList)
    (hfeed : '\n' ∉ unit.toList) (indent : Nat) (text : String) :
    ∃ first rest, Indented (String.join (List.replicate indent unit)).toList
      (reindent unit indent text).toList first rest := by
  obtain ⟨first, rest, hsplit, -⟩ := splitOn_spec '\n' text.toList
  have hmargin := forall_mem_margin hunit indent
  have hnone := not_mem_margin hfeed indent
  have hlines : ∀ line ∈ first :: rest, '\n' ∉ line := hsplit ▸ not_mem_splitOn text.toList
  refine ⟨dropWhileEnd isWhite first,
    rest.map (indentLine (String.join (List.replicate indent unit)).toList), ?_, ?_, ?_, ?_⟩
  · rw [toList_reindent unit indent hsplit, List.flatMap_map]
    rfl
  · rintro line (_ | ⟨_, hline⟩)
    · obtain ⟨w, hfirst, -⟩ := dropWhileEnd_spec isWhite first
      intro hmem
      refine hlines first List.mem_cons_self ?_
      rw [hfirst]
      exact List.mem_append_left w hmem
    · obtain ⟨l, hl, rfl⟩ := List.mem_map.mp hline
      exact not_mem_indentLine hnone (hlines l (List.mem_cons_of_mem _ hl))
  · exact dropWhileEnd_idem first
  · exact List.forall_mem_map.mpr fun l _ => indentLine_indentLine hmargin l

/-- A comment that is indented already stays as it is. -/
theorem Indented.reindent_eq {unit : String} {indent : Nat} {first : List Char}
    {rest : List (List Char)}
    (h : Indented (String.join (List.replicate indent unit)).toList cs first rest) :
    (reindent unit indent (String.ofList cs)).toList = cs := by
  have hsplit : splitOn '\n' (String.ofList cs).toList = first :: rest := by
    rw [String.toList_ofList, h.text]
    exact splitOn_flatMap (h.lines first List.mem_cons_self)
      fun line hline => h.lines line (List.mem_cons_of_mem _ hline)
  rw [toList_reindent unit indent hsplit, h.trimmed, h.text]
  congr 1
  refine List.flatMap_congr fun line hline => ?_
  rw [reindentLine_eq, h.behind line hline]

theorem Indented.trimmed_line {first : List Char} {rest : List (List Char)}
    (h : Indented margin cs first rest) : ∀ line ∈ rest, Trimmed line := by
  intro line hline
  have hbehind := h.behind line hline
  unfold indentLine at hbehind
  split at hbehind
  · rw [← hbehind]
    rfl
  · next hbare =>
    rw [← hbehind, List.append_cons]
    exact dropWhileEnd_append (dropWhileEnd_idem _) (by simpa using hbare)

theorem reindent_reindent {unit : String} (hunit : AllWhite unit.toList) (hfeed : '\n' ∉ unit.toList)
    (indent : Nat) (text : String) :
    reindent unit indent (reindent unit indent text) = reindent unit indent text := by
  obtain ⟨first, rest, h⟩ := indented_reindent hunit hfeed indent text
  have := h.reindent_eq
  rwa [String.ofList_toList, String.toList_inj] at this

/-! ## Lines without white space at their ends -/

/-- The lines of a text end with no white space, the last line apart. -/
def NeatLines (cs : List Char) : Prop :=
  cs.IsChain fun c d => d = '\n' → isWhite c = true → c = '\n'

section NeatLines

variable {a b : List Char}

theorem neatLines_of_not_mem (h : '\n' ∉ cs) : NeatLines cs :=
  List.Pairwise.isChain <|
    List.pairwise_of_forall_mem_list fun _ _ _ hd hfeed => absurd (hfeed ▸ hd) h

theorem neatLines_replicate (n : Nat) : NeatLines (List.replicate n '\n') :=
  List.Pairwise.isChain <|
    List.pairwise_of_forall_mem_list fun _ hc _ _ _ _ => List.eq_of_mem_replicate hc

theorem NeatLines.append (ha : NeatLines a) (hb : NeatLines b)
    (hjoin : ∀ c ∈ a.getLast?, b.head? = some '\n' → isWhite c = true → c = '\n') :
    NeatLines (a ++ b) :=
  List.isChain_append.mpr ⟨ha, hb, fun c hc _ hd hfeed => hjoin c hc (hfeed ▸ hd)⟩

theorem NeatLines.append_of_not_mem (ha : NeatLines a) (hb : '\n' ∉ b) : NeatLines (a ++ b) :=
  ha.append (neatLines_of_not_mem hb) fun _ _ hhead => absurd (List.mem_of_mem_head? hhead) hb

theorem NeatLines.left (h : NeatLines (a ++ b)) : NeatLines a :=
  (List.isChain_append.mp h).1

theorem NeatLines.eq_feed {c : Char} (h : NeatLines (a ++ c :: '\n' :: b)) (hw : isWhite c = true) :
    c = '\n' :=
  (List.isChain_append_cons_cons.mp h).2.1 rfl hw

theorem neatLines_flatMap {first : List Char} {rest : List (List Char)}
    (hlines : ∀ line ∈ first :: rest, '\n' ∉ line)
    (htrimmed : ∀ line ∈ first :: rest, Trimmed line) :
    NeatLines (first ++ rest.flatMap ('\n' :: ·)) := by
  induction rest generalizing first with
  | nil =>
    rw [List.flatMap_nil, List.append_nil]
    exact neatLines_of_not_mem (hlines first List.mem_cons_self)
  | cons line rest ih =>
    have htail : NeatLines (['\n'] ++ (line ++ rest.flatMap ('\n' :: ·))) := by
      have hbehind := ih (fun l hl => hlines l (List.mem_cons_of_mem _ hl))
        fun l hl => htrimmed l (List.mem_cons_of_mem _ hl)
      exact (neatLines_replicate 1).append hbehind fun c hc _ _ => (Option.some.inj hc).symm
    have hfirst := neatLines_of_not_mem (hlines first List.mem_cons_self)
    refine hfirst.append htail fun c hc _ hw => ?_
    have hvisible := (htrimmed first List.mem_cons_self).not_white hc
    exact absurd hw (by simp [hvisible])

/-- Indenting a comment leaves no white space at the ends of its lines. -/
theorem neatLines_reindent {unit : String} (hunit : AllWhite unit.toList) (hfeed : '\n' ∉ unit.toList)
    (indent : Nat) (text : String) : NeatLines (reindent unit indent text).toList := by
  obtain ⟨first, rest, h⟩ := indented_reindent hunit hfeed indent text
  rw [h.text]
  refine neatLines_flatMap h.lines ?_
  rintro line (_ | ⟨_, hline⟩)
  · exact h.trimmed
  · exact h.trimmed_line line hline

end NeatLines

/-! ## What indenting keeps -/

/-- Indenting a comment writes no character of its own but spaces and line feeds. -/
theorem mem_reindent {unit : String} {indent : Nat} {text : String} {c : Char}
    (h : c ∈ (reindent unit indent text).toList) :
    c ∈ text.toList ∨ c ∈ unit.toList ∨ c = ' ' ∨ c = '\n' := by
  obtain ⟨first, rest, hsplit, htext⟩ := splitOn_spec '\n' text.toList
  have htrim : ∀ {cs : List Char}, c ∈ dropWhileEnd isWhite cs → c ∈ cs := by
    intro cs hc
    obtain ⟨w, hcs, -⟩ := dropWhileEnd_spec isWhite cs
    rw [hcs]
    exact List.mem_append_left w hc
  rw [toList_reindent unit indent hsplit, List.mem_append, List.mem_flatMap] at h
  rw [htext, List.mem_append, List.mem_flatMap]
  rcases h with hfirst | ⟨line, hline, hc⟩
  · exact .inl (.inl (htrim hfirst))
  · rw [reindentLine_eq, indentLine] at hc
    split at hc
    · exact .inr (.inr (.inr (by simpa using hc)))
    · simp only [List.mem_cons, List.mem_append] at hc
      rcases hc with rfl | hmargin | rfl | hbare
      · simp
      · exact .inr (.inl (forall_mem_margin (fun _ hd => hd) indent c hmargin))
      · simp
      · refine .inl (.inr ⟨line, hline, List.mem_cons_of_mem _ ?_⟩)
        exact (List.dropWhile_suffix isWhite).subset (htrim hbare)

theorem bareLine_ne_nil (h : Trimmed ('\n' :: cs)) : bareLine cs ≠ [] := by
  intro hnil
  obtain ⟨w, hdrop, hw⟩ := dropWhileEnd_spec isWhite (cs.dropWhile isWhite)
  rw [← bareLine, hnil, List.nil_append] at hdrop
  have hwhite : AllWhite ('\n' :: cs) := by
    rintro c (_ | ⟨_, hc⟩)
    · decide
    · rw [← List.takeWhile_append_dropWhile (p := isWhite) (l := cs), hdrop] at hc
      rcases List.mem_append.mp hc with hc | hc
      · exact List.mem_takeWhile_imp hc
      · exact hw c hc
  rw [Trimmed, ← List.nil_append ('\n' :: cs), dropWhileEnd_append_white [] hwhite] at h
  cases h

/-- A comment that ends with no white space ends with none when it is indented. -/
theorem trimmed_reindent (unit : String) (indent : Nat) {text : String} (h : Trimmed text.toList) :
    Trimmed (reindent unit indent text).toList := by
  obtain ⟨first, rest, hsplit, htext⟩ := splitOn_spec '\n' text.toList
  rw [toList_reindent unit indent hsplit]
  cases rest using List.reverseRecOn with
  | nil =>
    rw [List.flatMap_nil, List.append_nil]
    exact dropWhileEnd_idem first
  | append_singleton rest line =>
    have hlast : Trimmed ('\n' :: line) := by
      rw [htext, List.flatMap_append, List.flatMap_singleton, ← List.append_assoc] at h
      exact h.of_append (by simp)
    have hbare := bareLine_ne_nil hlast
    rw [List.flatMap_append, List.flatMap_singleton, reindentLine_eq, indentLine,
      if_neg (by simpa using hbare), List.append_cons _ ' ', ← List.cons_append, ← List.append_assoc,
      ← List.append_assoc]
    exact dropWhileEnd_append (dropWhileEnd_idem _) hbare

theorem bareLine_append_white (line : List Char) {w : List Char} (hw : AllWhite w) :
    bareLine (line ++ w) = bareLine line := by
  rw [bareLine, bareLine, List.dropWhile_append]
  split
  · next hempty =>
    rw [List.isEmpty_iff.mp hempty, List.dropWhile_eq_nil_iff.mpr hw]
  · exact dropWhileEnd_append_white _ hw

/-- One character of white space more at the end of a comment gives a line feed more at most. -/
theorem exists_reindent_concat (unit : String) (indent : Nat) {text long : String} {c : Char}
    (hw : isWhite c = true) (hlong : long.toList = text.toList ++ [c]) :
    ∃ w, AllWhite w ∧
      (reindent unit indent long).toList = (reindent unit indent text).toList ++ w := by
  have hwhite : AllWhite [c] := by simpa [AllWhite] using hw
  obtain ⟨first, rest, hsplit, htext⟩ := splitOn_spec '\n' text.toList
  have hlines : ∀ line ∈ first :: rest, '\n' ∉ line := hsplit ▸ not_mem_splitOn text.toList
  have hfirst := hlines first List.mem_cons_self
  have hrest : ∀ line ∈ rest, '\n' ∉ line := fun line hl => hlines line (List.mem_cons_of_mem _ hl)
  rw [htext] at hlong
  by_cases hc : c = '\n'
  · have hagain : splitOn '\n' long.toList = first :: (rest ++ [[]]) := by
      have hmore : ∀ line ∈ rest ++ [[]], '\n' ∉ line := by
        simpa [or_imp, forall_and] using hrest
      rw [hlong, hc, ← splitOn_flatMap hfirst hmore]
      simp
    refine ⟨['\n'], by simp [AllWhite, isWhite], ?_⟩
    rw [toList_reindent unit indent hagain, toList_reindent unit indent hsplit, List.flatMap_append,
      List.append_assoc]
    rfl
  · refine ⟨[], List.forall_mem_nil _, ?_⟩
    rw [List.append_nil, toList_reindent unit indent hsplit]
    have hnot : ∀ {line : List Char}, '\n' ∉ line → '\n' ∉ line ++ [c] := fun hline => by
      simp [hline, Ne.symm hc]
    cases rest using List.reverseRecOn with
    | nil =>
      have hagain : splitOn '\n' long.toList = [first ++ [c]] := by
        rw [hlong, List.flatMap_nil, List.append_nil, splitOn_of_not_mem (hnot hfirst)]
      rw [toList_reindent unit indent hagain, dropWhileEnd_append_white _ hwhite]
    | append_singleton rest line =>
      have hagain : splitOn '\n' long.toList = first :: (rest ++ [line ++ [c]]) := by
        have hmore : ∀ l ∈ rest ++ [line ++ [c]], '\n' ∉ l := by
          intro l hl
          rcases List.mem_append.mp hl with hl | hl
          · exact hrest l (List.mem_append_left _ hl)
          · exact List.mem_singleton.mp hl ▸ hnot (hrest line (by simp))
        rw [hlong, ← splitOn_flatMap hfirst hmore]
        simp
      rw [toList_reindent unit indent hagain, List.flatMap_append, List.flatMap_append,
        List.flatMap_singleton, List.flatMap_singleton, reindentLine_eq, reindentLine_eq, indentLine,
        indentLine, bareLine_append_white _ hwhite]

/-- White space at the end of a comment gives white space at its end. -/
theorem exists_reindent_white (unit : String) (indent : Nat) {text long : String} {w : List Char}
    (hw : AllWhite w) (hlong : long.toList = text.toList ++ w) :
    ∃ w', AllWhite w' ∧
      (reindent unit indent long).toList = (reindent unit indent text).toList ++ w' := by
  induction w using List.reverseRecOn generalizing long with
  | nil =>
    obtain rfl : long = text := String.toList_inj.mp (by simpa using hlong)
    exact ⟨[], List.forall_mem_nil _, (List.append_nil _).symm⟩
  | append_singleton w c ih =>
    have hinit : (String.ofList (text.toList ++ w)).toList = text.toList ++ w := String.toList_ofList
    obtain ⟨w₁, hw₁, h₁⟩ := ih (fun d hd => hw d (List.mem_append_left _ hd)) hinit
    have hlast : long.toList = (String.ofList (text.toList ++ w)).toList ++ [c] := by
      rw [hlong, hinit, List.append_assoc]
    obtain ⟨w₂, hw₂, h₂⟩ := exists_reindent_concat unit indent (hw c (by simp)) hlast
    refine ⟨w₁ ++ w₂, fun d hd => (List.mem_append.mp hd).elim (hw₁ d) (hw₂ d), ?_⟩
    rw [h₂, h₁, List.append_assoc]

/-- Indenting a comment keeps what can be seen of it. -/
theorem visible_reindent {text : String} (h : Visible text.toList) (unit : String) (indent : Nat) :
    Visible (reindent unit indent text).toList := by
  obtain ⟨c, hc, hvisible⟩ := h
  have htrim : ∀ {cs : List Char}, c ∈ cs → c ∈ dropWhileEnd isWhite cs := by
    intro cs hmem
    obtain ⟨w, hcs, hw⟩ := dropWhileEnd_spec isWhite cs
    rw [hcs] at hmem
    refine (List.mem_append.mp hmem).resolve_right fun hwhite => ?_
    exact Bool.false_ne_true (hvisible.symm.trans (hw c hwhite))
  obtain ⟨first, rest, hsplit, htext⟩ := splitOn_spec '\n' text.toList
  refine ⟨c, ?_, hvisible⟩
  rw [htext, List.mem_append, List.mem_flatMap] at hc
  rw [toList_reindent unit indent hsplit, List.mem_append, List.mem_flatMap]
  rcases hc with hfirst | ⟨line, hline, hc⟩
  · exact .inl (htrim hfirst)
  · refine .inr ⟨line, hline, ?_⟩
    have hmem : c ∈ line := (List.mem_cons.mp hc).resolve_left <| by
      rintro rfl
      exact absurd hvisible (by decide)
    have hbare : c ∈ bareLine line := by
      refine htrim ?_
      rw [← List.takeWhile_append_dropWhile (p := isWhite) (l := line)] at hmem
      refine (List.mem_append.mp hmem).resolve_left fun hwhite => ?_
      exact Bool.false_ne_true (hvisible.symm.trans (List.mem_takeWhile_imp hwhite))
    rw [reindentLine_eq, indentLine, if_neg (by simpa using List.ne_nil_of_mem hbare)]
    simp [hbare]

/-- A comment that starts with no white space is not lost. -/
theorem reindent_ne_empty (unit : String) (indent : Nat) {text : String} {c : Char}
    (hc : text.toList.head? = some c) (hwhite : isWhite c = false) :
    reindent unit indent text ≠ "" := by
  have hvisible : Visible text.toList := ⟨c, List.mem_of_mem_head? hc, hwhite⟩
  rw [Ne, ← String.toList_eq_nil_iff]
  exact (visible_reindent hvisible unit indent).ne_nil

end SqlFormat.Text
