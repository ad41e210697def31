import Mathlib
import SqlFormat.Detect.Pattern
import SqlFormat.Proofs.Text.Lowered
import SqlFormat.Proofs.Text.Ranges
import SqlFormat.Proofs.Text.Trim
import SqlFormat.Proofs.Text.White

/-!
# Texts that are spaced anew

Two texts with the same characters, case apart, and other white space between them. What one may say
of such texts depends on where characters touch: `Mirrors J` asks `J` of every two neighbours, in
lower case, with whether they touch in the first text and whether they touch in the second.

Results: `Mirrors.flip`, `Mirrors.next_inv` (the next character), `Mirrors.faces` (a place in the
first text has a counterpart in the second).
-/

namespace SqlFormat.Detect

open Text

/-! ## Characters of words -/

theorem ignoresCase_isWord : IgnoresCase isWord :=
  .of_ascii (by decide)

theorem ignoresCase_isDigit : IgnoresCase isDigit :=
  .of_ascii (by decide)

theorem not_isWord_of_isWhite {c : Char} (hc : isWhite c = true) : isWord c = false :=
  not_contains_of_isWhite (by decide +kernel) hc

theorem not_isWhite_of_isWord {c : Char} (hc : isWord c = true) : isWhite c = false := by
  rw [Bool.eq_false_iff]
  intro hw
  rw [not_isWord_of_isWhite hw] at hc
  cases hc

theorem isWord_of_isKeywordChar {c : Char} (hc : isKeywordChar c = true) : isWord c = true :=
  ascii_induction (p := fun c => isKeywordChar c = true → isWord c = true) (by decide)
    (isKeywordChar_lt hc) hc

/-- Digits of all scripts are characters of words. -/
theorem isWord_of_isDigit {c : Char} (hc : isDigit c = true) : isWord c = true :=
  Ranges.contains_of_covers (by decide +kernel) (by decide +kernel) (by decide +kernel) hc

/-! ## Texts with the same characters -/

/-- What holds of two neighbouring characters of two texts: whether they touch in the first, and
whether they touch in the second. -/
abbrev Joint := Char → Char → Bool → Bool → Prop

/-- The texts have the same characters but for case and white space. They follow a character, if there
is one. -/
inductive Mirrors (J : Joint) : Option Char → List Char → List Char → Prop
  | done {prev : Option Char} {s t : List Char} (hs : AllWhite s) (ht : AllWhite t) :
      Mirrors J prev s t
  | next {prev : Option Char} {w v s t : List Char} {c d : Char} (hw : AllWhite w)
      (hv : AllWhite v) (hc : isWhite c = false) (hcd : c.toLower = d.toLower)
      (joint : ∀ p ∈ prev, J p.toLower c.toLower w.isEmpty v.isEmpty)
      (rest : Mirrors J (some c) s t) : Mirrors J prev (w ++ c :: s) (v ++ d :: t)

theorem isWhite_congr {c d : Char} (h : c.toLower = d.toLower) : isWhite c = isWhite d := by
  rw [← ignoresCase_isWhite c, h, ignoresCase_isWhite]

theorem isWord_congr {c d : Char} (h : c.toLower = d.toLower) : isWord c = isWord d := by
  rw [← ignoresCase_isWord c, h, ignoresCase_isWord]

namespace Mirrors

variable {J J' : Joint} {prev : Option Char} {s t : List Char}

theorem mono (hJ : ∀ c d a b, J c d a b → J' c d a b) (h : Mirrors J prev s t) :
    Mirrors J' prev s t := by
  induction h with
  | done hs ht => exact .done hs ht
  | next hw hv hc hcd joint _ ih => exact .next hw hv hc hcd (fun p hp => hJ _ _ _ _ (joint p hp)) ih

/-- The texts may change places. -/
theorem flip (h : Mirrors J prev s t) {prev' : Option Char}
    (hprev : prev.map Char.toLower = prev'.map Char.toLower) :
    Mirrors (fun c d a b => J c d b a) prev' t s := by
  induction h generalizing prev' with
  | done hs ht => exact .done ht hs
  | @next prev w v s t c d hw hv hc hcd joint _ ih =>
    refine .next hv hw (isWhite_congr hcd ▸ hc) hcd.symm (fun p hp => ?_)
      (ih (congrArg some hcd))
    obtain rfl := Option.mem_def.mp hp
    obtain ⟨q, rfl, hq⟩ := Option.map_eq_some_iff.mp hprev
    rw [← hq, ← hcd]
    exact joint q rfl

end Mirrors

/-- White space at the start of a text is told from what follows it. -/
theorem white_append_inj {w v s t : List Char} {c d : Char} (hw : AllWhite w) (hv : AllWhite v)
    (hc : isWhite c = false) (hd : isWhite d = false) (h : w ++ c :: s = v ++ d :: t) :
    w = v ∧ c = d ∧ s = t := by
  have htake : ∀ {w s : List Char} {c : Char}, AllWhite w → isWhite c = false →
      (w ++ c :: s).takeWhile isWhite = w := by
    intro w s c hw hc
    rw [List.takeWhile_append_of_pos hw, List.takeWhile_cons_of_neg (by simp [hc]), List.append_nil]
  obtain rfl : w = v := by rw [← htake hw hc, h, htake hv hd]
  simpa using h

/-- In the second text comes the same character next. -/
theorem Mirrors.next_inv {J : Joint} {prev : Option Char} {w s t : List Char} {c : Char}
    (h : Mirrors J prev (w ++ c :: s) t) (hw : AllWhite w) (hc : isWhite c = false) :
    ∃ v d t', t = v ++ d :: t' ∧ AllWhite v ∧ c.toLower = d.toLower ∧
      (∀ p ∈ prev, J p.toLower c.toLower w.isEmpty v.isEmpty) ∧ Mirrors J (some c) s t' := by
  generalize hs : w ++ c :: s = s' at h
  cases h with
  | done hwhite =>
    rw [← hs] at hwhite
    rw [hwhite c (by simp)] at hc
    cases hc
  | @next _ w' v s' t' c' d hw' hv hc' hcd joint rest =>
    obtain ⟨rfl, rfl, rfl⟩ := white_append_inj hw hw' hc hc' hs
    exact ⟨v, d, t', rfl, hv, hcd, joint, rest⟩

/-! ## Places -/

/-- Characters for which `bound` holds touch in the second text if they touch in the first, and
characters of words touch in both texts or in neither. -/
def Keeps (bound : Char → Char → Bool) : Joint := fun c d before after =>
  (bound c d = true → before = true → after = true) ∧
    (isWord c = true → isWord d = true → before = after)

variable {bound : Char → Char → Bool}

/-- The places are before the same character. If it belongs to a word, both are at the edge of the
word or neither is. -/
def Faces (bound : Char → Char → Bool) (x y : Place) : Prop :=
  ∃ c d s t, x.after = c :: s ∧ y.after = d :: t ∧ isWhite c = false ∧ c.toLower = d.toLower ∧
    Mirrors (Keeps bound) (some c) s t ∧
      (isWord c = true → x.before.any isWord = y.before.any isWord)

theorem getLast?_cons_or (c : Char) (w : List Char) (prev : Option Char) :
    (c :: w).getLast?.or prev = w.getLast?.or (some c) := by
  cases w <;> simp [List.getLast?_cons]

theorem any_isWord_after {w : List Char} (hw : AllWhite w) (prev : Option Char) :
    (w.getLast?.or prev).any isWord = (w.isEmpty && prev.any isWord) := by
  cases hlast : w.getLast? with
  | none =>
    rw [List.getLast?_eq_none_iff] at hlast
    simp [hlast]
  | some c =>
    have hc := List.mem_of_getLast? hlast
    have hne : w ≠ [] := List.ne_nil_of_mem hc
    simp [not_isWord_of_isWhite (hw c hc), hne]

/-- After the white space that is next, the places face the same character. -/
theorem Mirrors.faces_next {prev prev' : Option Char} {w v s t : List Char} {c d : Char}
    (hprev : prev.map Char.toLower = prev'.map Char.toLower) (hw : AllWhite w) (hv : AllWhite v)
    (hc : isWhite c = false) (hcd : c.toLower = d.toLower)
    (joint : ∀ p ∈ prev, Keeps bound p.toLower c.toLower w.isEmpty v.isEmpty)
    (rest : Mirrors (Keeps bound) (some c) s t) :
    Faces bound ⟨w.getLast?.or prev, c :: s⟩ ⟨v.getLast?.or prev', d :: t⟩ := by
  refine ⟨c, d, s, t, rfl, rfl, hc, hcd, rest, fun hword => ?_⟩
  change (w.getLast?.or prev).any isWord = (v.getLast?.or prev').any isWord
  have hany : prev.any isWord = prev'.any isWord := by
    have hmap : ∀ o : Option Char, o.any isWord = (o.map Char.toLower).any isWord := by
      intro o
      cases o <;> simp [ignoresCase_isWord _]
    rw [hmap prev, hprev, ← hmap]
  rw [any_isWord_after hw, any_isWord_after hv, ← hany]
  cases prev with
  | none => simp
  | some p =>
    by_cases hp : isWord p = true
    · rw [(joint p rfl).2 (by rwa [ignoresCase_isWord]) (by rwa [ignoresCase_isWord])]
    · simp [hp]

/-- A place before a character has a counterpart before the same character. -/
theorem Mirrors.faces {prev prev' : Option Char} {pre rest t : List Char} {c : Char}
    (h : Mirrors (Keeps bound) prev (pre ++ c :: rest) t)
    (hprev : prev.map Char.toLower = prev'.map Char.toLower) (hc : isWhite c = false) :
    ∃ pre' rest', t = pre' ++ rest' ∧
      Faces bound ⟨pre.getLast?.or prev, c :: rest⟩ ⟨pre'.getLast?.or prev', rest'⟩ := by
  generalize hs : pre ++ c :: rest = s at h
  induction h generalizing pre prev' with
  | done hwhite =>
    rw [← hs] at hwhite
    rw [hwhite c (by simp)] at hc
    cases hc
  | @next prev w v s t c' d hw hv hc' hcd joint hrest ih =>
    rcases List.append_eq_append_iff.mp hs with ⟨gap, hgap, hcons⟩ | ⟨gap, hgap, hcons⟩
    · cases gap with
      | nil =>
        obtain ⟨rfl, rfl⟩ := List.cons.inj hcons
        obtain rfl : w = pre := by simpa using hgap
        exact ⟨v, _, rfl, faces_next hprev hw hv hc hcd joint hrest⟩
      | cons g gap =>
        obtain ⟨rfl, -⟩ := List.cons.inj hcons
        rw [hw c (by simp [hgap])] at hc
        cases hc
    · cases gap with
      | nil =>
        obtain ⟨rfl, rfl⟩ := List.cons.inj hcons
        obtain rfl : pre = w := by simpa using hgap
        exact ⟨v, _, rfl, faces_next hprev hw hv hc hcd joint hrest⟩
      | cons g gap =>
        obtain ⟨rfl, hs'⟩ := List.cons.inj hcons
        have hsame : (some c').map Char.toLower = (some d).map Char.toLower := congrArg some hcd
        obtain ⟨pre', rest', rfl, hfaces⟩ := ih hsame hs'.symm
        refine ⟨v ++ d :: pre', rest', by simp, ?_⟩
        rw [hgap, List.getLast?_append, List.getLast?_append, Option.or_assoc, Option.or_assoc,
          getLast?_cons_or, getLast?_cons_or]
        exact hfaces

end SqlFormat.Detect
