import SqlFormat.Proofs.Detect.Spacing
import SqlFormat.Proofs.Layout.Spelling

/-!
# Tokens written out with other white space

A token is written with its characters in order, in some case and with some white space between those
that had some. So two texts that are spelt out from the same tokens mirror each other, as far as the
tokens touch alike.

Results: `drawn_of_written` (one token), `mirrors_spell` (all of them).
-/

namespace SqlFormat.Detect

open Text Lexer

/-! ## One token -/

/-- The texts have the same characters but for case, and white space in the same places. They start and
end with other characters than white space. -/
inductive Redrawn : List Char → List Char → Prop
  | last {c d : Char} (hc : isWhite c = false) (hcd : c.toLower = d.toLower) : Redrawn [c] [d]
  | next {c d : Char} {w v s t : List Char} (hc : isWhite c = false) (hcd : c.toLower = d.toLower)
      (hw : AllWhite w) (hv : AllWhite v) (hwv : w.isEmpty = v.isEmpty) (rest : Redrawn s t) :
      Redrawn (c :: (w ++ s)) (d :: (v ++ t))

/-- Such texts with white space around them; there is some before both or before neither. -/
inductive Drawn : List Char → List Char → Prop
  | intro {u v a b w z : List Char} (hu : AllWhite u) (hv : AllWhite v)
      (huv : u.isEmpty = v.isEmpty) (hab : Redrawn a b) (hw : AllWhite w) (hz : AllWhite z) :
      Drawn (u ++ (a ++ w)) (v ++ (b ++ z))

theorem Redrawn.head {a b : List Char} (h : Redrawn a b) :
    ∃ c s d t, a = c :: s ∧ b = d :: t ∧ isWhite c = false ∧ c.toLower = d.toLower := by
  cases h with
  | last hc hcd => exact ⟨_, _, _, _, rfl, rfl, hc, hcd⟩
  | next hc hcd => exact ⟨_, _, _, _, rfl, rfl, hc, hcd⟩

theorem Redrawn.getLast? {a b : List Char} (h : Redrawn a b) :
    ∃ c d, a.getLast? = some c ∧ b.getLast? = some d ∧ isWhite c = false ∧
      c.toLower = d.toLower := by
  have hcons : ∀ {c e : Char} {w s : List Char}, s.getLast? = some e →
      (c :: (w ++ s)).getLast? = some e := by
    intro c e w s hs
    rw [List.getLast?_cons, List.getLast?_append, hs]
    rfl
  induction h with
  | last hc hcd => exact ⟨_, _, rfl, rfl, hc, hcd⟩
  | next _ _ _ _ _ _ ih =>
    obtain ⟨c, d, hc, hd, h⟩ := ih
    exact ⟨c, d, hcons hc, hcons hd, h⟩

theorem Redrawn.word {w w' : List Char} (hw : ∀ c ∈ w, isWhite c = false)
    (heq : w.map Char.toLower = w'.map Char.toLower) (hne : w ≠ []) : Redrawn w w' := by
  induction w generalizing w' with
  | nil => exact absurd rfl hne
  | cons c w ih =>
    obtain ⟨d, w', rfl⟩ : ∃ d v, w' = d :: v := by
      cases w' with
      | nil => cases heq
      | cons d v => exact ⟨d, v, rfl⟩
    rw [List.map_cons, List.map_cons, List.cons.injEq] at heq
    have hc := hw c (by simp)
    cases w with
    | nil =>
      obtain rfl : w' = [] := by simpa using heq.2.symm
      exact .last hc heq.1
    | cons e w =>
      have hrest := ih (fun f hf => hw f (List.mem_cons_of_mem _ hf)) heq.2 (by simp)
      exact .next (w := []) (v := []) hc heq.1 (by simp [AllWhite]) (by simp [AllWhite]) rfl hrest

/-- One text after another, with white space between them. -/
theorem Redrawn.append {a b s t g h : List Char} (hab : Redrawn a b) (hg : AllWhite g)
    (hh : AllWhite h) (hgh : g.isEmpty = h.isEmpty) (hst : Redrawn s t) :
    Redrawn (a ++ (g ++ s)) (b ++ (h ++ t)) := by
  induction hab with
  | last hc hcd => exact .next (w := g) (v := h) hc hcd hg hh hgh hst
  | @next c d w v a b hc hcd hw hv hwv _ ih =>
    have := Redrawn.next hc hcd hw hv hwv ih
    simpa using this

theorem redrawn_of_respaced {t x : List Char} (h : Respaced t x) : Redrawn t x := by
  have hword : ∀ {w w' : List Char}, IsKeywordWord w → w.map Char.toLower = w'.map Char.toLower →
      Redrawn w w' := fun hw heq =>
    .word (fun c hc => not_isWhite_of_isKeywordChar (hw.chars c hc)) heq hw.ne_nil
  induction h with
  | word hw _ heq => exact hword hw heq
  | more hw _ heq hg hg' _ ih =>
    exact (hword hw heq).append (fun c hc => isBlank_imp_isWhite (hg.2 c hc))
      (fun c hc => isBlank_imp_isWhite (hg'.2 c hc))
      (by rw [List.isEmpty_eq_false_iff.mpr hg.1, List.isEmpty_eq_false_iff.mpr hg'.1]) ih

theorem Drawn.white {g h s t : List Char} (hg : AllWhite g) (hh : AllWhite h)
    (hgh : g.isEmpty = h.isEmpty) (hst : Drawn s t) : Drawn (g ++ s) (h ++ t) := by
  obtain @⟨u, v, a, b, w, z, hu, hv, huv, hab, hw, hz⟩ := hst
  have := Drawn.intro (u := g ++ u) (v := h ++ v)
    (fun c hc => (List.mem_append.mp hc).elim (hg c) (hu c))
    (fun c hc => (List.mem_append.mp hc).elim (hh c) (hv c))
    (by cases g <;> cases h <;> first | exact huv | rfl | cases hgh) hab hw hz
  simpa using this

theorem Drawn.cons {c : Char} (hc : isWhite c = false) {s t : List Char} (hst : Drawn s t) :
    Drawn (c :: s) (c :: t) := by
  obtain @⟨u, v, a, b, w, z, hu, hv, huv, hab, hw, hz⟩ := hst
  have := Drawn.intro (u := []) (v := []) (by simp [AllWhite]) (by simp [AllWhite]) rfl
    (.next hc rfl hu hv huv hab) hw hz
  simpa using this

theorem allWhite_of_reflow {t x : List Char} (h : Reflow t x) (ht : AllWhite t) : AllWhite x := by
  induction h with
  | nil => exact ht
  | char hc =>
    rw [ht _ List.mem_cons_self] at hc
    cases hc
  | gap _ _ _ hg' _ ih =>
    intro c hc
    rcases List.mem_append.mp hc with hc | hc
    · exact hg' c hc
    · exact ih (fun d hd => ht d (List.mem_append_right _ hd)) c hc
  | stop _ _ hg' => exact hg'

theorem drawn_of_reflow {t x : List Char} (h : Reflow t x) (hne : ¬AllWhite t) : Drawn t x := by
  induction h with
  | nil => exact absurd (by simp [AllWhite]) hne
  | @char c t x hc rest ih =>
    by_cases ht : AllWhite t
    · have := Drawn.intro (u := []) (v := []) (by simp [AllWhite]) (by simp [AllWhite]) rfl
        (.last hc rfl) ht (allWhite_of_reflow rest ht)
      simpa using this
    · exact (ih ht).cons hc
  | gap hg hw hg' hw' _ ih =>
    refine (ih fun ht => hne fun c hc => (List.mem_append.mp hc).elim (hw c) (ht c)).white hw hw' ?_
    rw [List.isEmpty_eq_false_iff.mpr hg, List.isEmpty_eq_false_iff.mpr hg']
  | stop _ hw => exact absurd hw hne

/-- A token has characters other than white space. -/
theorem not_allWhite {dialect : Dialect} {token : Token} (hr : token.Regular dialect) (htidy : token.kind ≠ .lineComment → canBeOpen token.kind = false →
      Tidy token.text.toList) : ¬AllWhite token.text.toList := by
  intro hall
  by_cases hopen : token.kind = .lineComment ∨ canBeOpen token.kind = true
  · obtain ⟨c, hc, hw⟩ := hr.opening hopen
    rw [hall c (List.mem_of_mem_head? hc)] at hw
    cases hw
  · rw [not_or, Bool.not_eq_true] at hopen
    obtain ⟨c, hc, hb⟩ := htidy hopen.1 hopen.2
    rw [hr.white c hc (hall c (List.mem_of_getLast? hc))] at hb
    cases hb

/-- A token is written with its own characters. -/
theorem drawn_of_written {dialect : Dialect} {case : KeywordCase} {last : Bool} {token : Token}
    {x : List Char} (h : Written case last token x) (hr : token.Regular dialect)
    (htidy : token.kind ≠ .lineComment → canBeOpen token.kind = false → Tidy token.text.toList) :
    Drawn token.text.toList x := by
  have hne := not_allWhite hr htidy
  cases h with
  | lineComment => exact drawn_of_reflow (Reflow.refl _).trim hne
  | blockComment _ hx => exact drawn_of_reflow hx hne
  | keyword hkey =>
    have h := redrawn_of_respaced (respaced_keyword hr.toSound hkey case)
    have := Drawn.intro (u := []) (v := []) (w := []) (z := []) (by simp [AllWhite])
      (by simp [AllWhite]) rfl h (by simp [AllWhite]) (by simp [AllWhite])
    simpa using this
  | same => exact drawn_of_reflow (Reflow.refl _) hne
  | trimmed => exact drawn_of_reflow (Reflow.refl _).trim hne

/-! ## All tokens -/

theorem Redrawn.mirrors {J : Joint} (hJ : ∀ c d a, J c d a a) {prev : Option Char}
    {a b s t g h : List Char} (hab : Redrawn a b) (hg : AllWhite g) (hh : AllWhite h)
    (joint : ∀ p ∈ prev, ∀ c ∈ a.head?, J p.toLower c.toLower g.isEmpty h.isEmpty)
    (rest : ∀ c ∈ a.getLast?, Mirrors J (some c) s t) :
    Mirrors J prev (g ++ (a ++ s)) (h ++ (b ++ t)) := by
  induction hab generalizing prev g h with
  | last hc hcd => exact .next hg hh hc hcd (fun p hp => joint p hp _ rfl) (rest _ rfl)
  | @next c d w v a b hc hcd hw hv hwv hab ih =>
    rw [List.cons_append, List.cons_append, List.append_assoc, List.append_assoc]
    refine .next hg hh hc hcd (fun p hp => joint p hp _ rfl) (ih hw hv (fun p _ e _ => ?_) ?_)
    · rw [hwv]
      exact hJ _ _ _
    · intro e he
      refine rest e ?_
      rw [List.getLast?_cons, List.getLast?_append, Option.mem_def.mp he]
      rfl

/-- Two pieces of a text and of another one come one after the other: with white space between them in
both texts, or as `J` allows. -/
inductive Junction (J : Joint) (p q : Piece × Piece) : Prop
  | parted (h : q.1.gap ≠ []) (h' : q.2.gap ≠ [])
  | joined (h : Trimmed p.1.text) (h' : Trimmed p.2.text)
      (joint : ∀ c ∈ p.1.text.getLast?, ∀ d ∈ q.1.text.head?,
        J c.toLower d.toLower q.1.gap.isEmpty q.2.gap.isEmpty)

theorem eq_nil_of_trimmed {x a w : List Char} (h : Trimmed x) (hx : x = a ++ w) (hw : AllWhite w) :
    w = [] := by
  cases hlast : w.getLast? with
  | none => exact List.getLast?_eq_none_iff.mp hlast
  | some c =>
    have hc : isWhite c = false := Trimmed.not_white h (by rw [hx, List.getLast?_append, hlast]; rfl)
    rw [hw c (List.mem_of_getLast? hlast)] at hc
    cases hc

theorem isEmpty_append_of_ne {g h : List Char} (hne : h ≠ []) : (g ++ h).isEmpty = false :=
  List.isEmpty_eq_false_iff.mpr fun hnil => hne (List.append_eq_nil_iff.mp hnil).2

/-- Texts spelt out from the same tokens mirror each other. -/
theorem mirrors_spell_from {J : Joint} (hJ : ∀ c d a, J c d a a) {pairs : List (Piece × Piece)}
    (hdrawn : ∀ p ∈ pairs, AllWhite p.1.gap ∧ AllWhite p.2.gap ∧ Drawn p.1.text p.2.text)
    (hchain : pairs.IsChain (Junction J)) {tail tail' : List Char} (ht : AllWhite tail)
    (ht' : AllWhite tail') {prev : Option Char} {w v : List Char} (hw : AllWhite w) (hv : AllWhite v)
    (hfirst : ∀ e ∈ prev, ∀ q ∈ pairs.head?, ∀ d ∈ q.1.text.head?,
      J e.toLower d.toLower (w ++ q.1.gap).isEmpty (v ++ q.2.gap).isEmpty) :
    Mirrors J prev (w ++ spell (pairs.map Prod.fst) tail) (v ++ spell (pairs.map Prod.snd) tail') := by
  have happend : ∀ {g h : List Char}, AllWhite g → AllWhite h → AllWhite (g ++ h) :=
    fun hg hh c hc => (List.mem_append.mp hc).elim (hg c) (hh c)
  -- the white space at the end of a token goes on into the gap behind it: `w` and `v` carry it along
  induction pairs generalizing prev w v with
  | nil => exact .done (happend hw ht) (happend hv ht')
  | cons q pairs ih =>
    obtain ⟨⟨gap, token, x⟩, ⟨gap', token', y⟩⟩ := q
    obtain ⟨hgap, hgap', hxy⟩ := hdrawn _ List.mem_cons_self
    change AllWhite gap at hgap
    change AllWhite gap' at hgap'
    change Drawn x y at hxy
    obtain @⟨u, u', a, b, z, z', hu, hu', huu, hab, hz, hz'⟩ := hxy
    have hleft : w ++ (gap ++ ((u ++ (a ++ z)) ++ spell (pairs.map Prod.fst) tail)) =
        (w ++ gap ++ u) ++ (a ++ (z ++ spell (pairs.map Prod.fst) tail)) := by simp
    have hright : v ++ (gap' ++ ((u' ++ (b ++ z')) ++ spell (pairs.map Prod.snd) tail')) =
        (v ++ gap' ++ u') ++ (b ++ (z' ++ spell (pairs.map Prod.snd) tail')) := by simp
    simp only [List.map_cons, spell]
    rw [hleft, hright]
    refine hab.mirrors hJ (happend (happend hw hgap) hu) (happend (happend hv hgap') hu')
      (fun e he c hc => ?_) fun c hc => ?_
    · cases u with
      | nil =>
        obtain rfl : u' = [] := List.isEmpty_iff.mp huu.symm
        have := hfirst e he _ rfl c (by
          obtain ⟨c', s, _, _, rfl, -⟩ := hab.head
          exact hc)
        simpa using this
      | cons f u =>
        have hne : u' ≠ [] := by
          rintro rfl
          cases huu
        rw [isEmpty_append_of_ne (by simp), isEmpty_append_of_ne hne]
        exact hJ _ _ _
    · refine ih (fun p hp => hdrawn p (List.mem_cons_of_mem _ hp)) hchain.tail hz hz' ?_
      rintro e he q hq d hd
      obtain rfl := Option.some.inj he
      obtain ⟨pairs, rfl⟩ : ∃ l, pairs = q :: l := by
        cases pairs with
        | nil => cases hq
        | cons i l => exact ⟨l, by rw [Option.some.inj hq]⟩
      cases hchain.rel with
      | parted h h' =>
        rw [isEmpty_append_of_ne h, isEmpty_append_of_ne h']
        exact hJ _ _ _
      | joined h h' joint =>
        obtain rfl : z = [] := eq_nil_of_trimmed (a := u ++ a) h (by simp) hz
        obtain rfl : z' = [] := eq_nil_of_trimmed (a := u' ++ b) h' (by simp) hz'
        refine joint c ?_ d hd
        simp only [List.append_nil, List.getLast?_append]
        rw [Option.mem_def.mp hc]
        rfl

theorem mirrors_spell {J : Joint} (hJ : ∀ c d a, J c d a a) {pairs : List (Piece × Piece)}
    (hdrawn : ∀ p ∈ pairs, AllWhite p.1.gap ∧ AllWhite p.2.gap ∧ Drawn p.1.text p.2.text)
    (hchain : pairs.IsChain (Junction J)) {tail tail' : List Char} (ht : AllWhite tail)
    (ht' : AllWhite tail') :
    Mirrors J none (spell (pairs.map Prod.fst) tail) (spell (pairs.map Prod.snd) tail') :=
  mirrors_spell_from hJ hdrawn hchain ht ht' (w := []) (v := []) (by simp [AllWhite])
    (by simp [AllWhite]) (by simp)

end SqlFormat.Detect
