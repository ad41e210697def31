import Mathlib
import SqlFormat.Proofs.Text.Ascii
import SqlFormat.Token.Scan

/-!
# Texts in lower case

Lowering the ASCII letters of a text moves nothing: it keeps the class of every character, the bytes
that the text takes, and every occurrence of a character that is no letter. So a test that asks for
a class, or compares with such a character, has the same answer before and after.

Results: `IgnoresCase.of_ascii`, `toLower_eq_iff`, `wordsFrom_map_toLower`.
-/

namespace SqlFormat

open Text

/-! ## Characters -/

/-- What is asked of a character has the same answer for a letter in either case. -/
def IgnoresCase {α : Type} (f : Char → α) : Prop :=
  ∀ c, f c.toLower = f c

/-- Only the ASCII characters need to be looked at: lowering changes no other. -/
theorem IgnoresCase.of_ascii {α : Type} {f : Char → α}
    (h : ∀ n < 128, f (Char.ofNat n).toLower = f (Char.ofNat n)) : IgnoresCase f := by
  intro c
  by_cases hc : c.toNat < 128
  · exact ascii_induction (p := fun c => f c.toLower = f c) h hc
  · rw [toLower_of_not_isUpper]
    intro hu
    exact hc (isKeywordChar_lt (by simp [isKeywordChar, Char.isAlphanum, Char.isAlpha, hu]))

/-- Lowering brings no character that is no letter to a text, and takes none away. -/
theorem toLower_eq_iff {c : Char} (hc : c.isAlpha = false) (d : Char) : d.toLower = c ↔ d = c := by
  by_cases hu : d.isUpper = true
  · have hd : d.isAlpha = true := by simp [Char.isAlpha, hu]
    constructor
    · rintro rfl
      rw [isAlpha_toLower, hd] at hc
      cases hc
    · rintro rfl
      rw [hd] at hc
      cases hc
  · rw [toLower_of_not_isUpper hu]

theorem toLower_of_not_isAlpha {c : Char} (hc : c.isAlpha = false) : c.toLower = c :=
  (toLower_eq_iff hc c).mpr rfl

theorem ignoresCase_eq {c : Char} (hc : c.isAlpha = false) : IgnoresCase (· == c) := by
  intro d
  rw [Bool.eq_iff_iff, beq_iff_eq, beq_iff_eq, toLower_eq_iff hc]

theorem ignoresCase_isBlank : IgnoresCase isBlank :=
  .of_ascii (by decide)

theorem ignoresCase_isWhite : IgnoresCase isWhite :=
  .of_ascii (by decide)

theorem ignoresCase_isDigit : IgnoresCase Char.isDigit :=
  .of_ascii (by decide)

theorem ignoresCase_isAlpha : IgnoresCase Char.isAlpha :=
  isAlpha_toLower

theorem ignoresCase_isWordChar : IgnoresCase Scan.isWordChar :=
  .of_ascii (by decide)

theorem ignoresCase_isWordStart : IgnoresCase Scan.isWordStart :=
  .of_ascii (by decide)

theorem ignoresCase_utf8Size : IgnoresCase Char.utf8Size :=
  .of_ascii (by decide)

theorem ignoresCase_toLower : IgnoresCase Char.toLower :=
  .of_ascii (by decide)

theorem IgnoresCase.or {p q : Char → Bool} (hp : IgnoresCase p) (hq : IgnoresCase q) :
    IgnoresCase fun c => p c || q c :=
  fun c => congrArg₂ (· || ·) (hp c) (hq c)

/-! ## Lists of characters -/

variable {p : Char → Bool} {cs l : List Char}

theorem IgnoresCase.takeWhile (h : IgnoresCase p) (cs : List Char) :
    (cs.map Char.toLower).takeWhile p = (cs.takeWhile p).map Char.toLower := by
  rw [List.takeWhile_map]
  exact congrArg (List.map Char.toLower <| List.takeWhile · cs) (funext h)

theorem IgnoresCase.dropWhile (h : IgnoresCase p) (cs : List Char) :
    (cs.map Char.toLower).dropWhile p = (cs.dropWhile p).map Char.toLower := by
  rw [List.dropWhile_map]
  exact congrArg (List.map Char.toLower <| List.dropWhile · cs) (funext h)

theorem IgnoresCase.dropWhileEnd (h : IgnoresCase p) (cs : List Char) :
    Text.dropWhileEnd p (cs.map Char.toLower) = (Text.dropWhileEnd p cs).map Char.toLower := by
  rw [Text.dropWhileEnd, ← List.map_reverse, h.dropWhile, ← List.map_reverse]
  rfl

theorem IgnoresCase.any_head? (h : IgnoresCase p) (cs : List Char) :
    (cs.map Char.toLower).head?.any p = cs.head?.any p := by
  cases cs with
  | nil => rfl
  | cons c cs => exact h c

theorem IgnoresCase.any (h : IgnoresCase p) (cs : List Char) :
    (cs.map Char.toLower).any p = cs.any p := by
  rw [List.any_map]
  exact congrArg (List.any cs) (funext h)

/-- A pattern without letters. -/
def Letterless (l : List Char) : Prop :=
  l.all (!·.isAlpha) = true

instance (l : List Char) : Decidable (Letterless l) :=
  inferInstanceAs (Decidable (l.all (!·.isAlpha) = true))

theorem Letterless.isAlpha (h : Letterless l) {c : Char} (hc : c ∈ l) : c.isAlpha = false := by
  simpa using List.all_eq_true.mp h c hc

theorem Letterless.map_toLower (h : Letterless l) : l.map Char.toLower = l := by
  conv_rhs => rw [← List.map_id l]
  exact List.map_congr_left fun c hc => toLower_of_not_isAlpha (h.isAlpha hc)

theorem Letterless.map_eq_iff (h : Letterless l) (cs : List Char) :
    cs.map Char.toLower = l ↔ cs = l := by
  induction l generalizing cs with
  | nil => simp
  | cons c l ih =>
    simp only [Letterless, List.all_cons, Bool.and_eq_true, Bool.not_eq_true'] at h
    cases cs with
    | nil => simp
    | cons d cs =>
      rw [List.map_cons, List.cons.injEq, List.cons.injEq, toLower_eq_iff h.1, ih h.2]

theorem Letterless.isPrefixOf (h : Letterless l) (cs : List Char) :
    l.isPrefixOf (cs.map Char.toLower) = l.isPrefixOf cs := by
  rw [Bool.eq_iff_iff, List.isPrefixOf_iff_prefix, List.isPrefixOf_iff_prefix,
    List.prefix_iff_eq_take, List.prefix_iff_eq_take, ← List.map_take, eq_comm, h.map_eq_iff,
    eq_comm]

theorem Letterless.contains (h : Letterless l) : IgnoresCase (l.contains ·) := by
  intro c
  by_cases hc : c.isAlpha = true
  · have hl : ∀ {d : Char}, d.isAlpha = true → l.contains d = false := by
      intro d hd
      rw [Bool.eq_false_iff, ne_eq, List.contains_iff_mem]
      intro hmem
      rw [h.isAlpha hmem] at hd
      cases hd
    exact (hl ((ignoresCase_isAlpha c).trans hc)).trans (hl hc).symm
  · exact congrArg (l.contains ·) (toLower_of_not_isAlpha (by simpa using hc))

theorem byteLength_map_toLower (cs : List Char) :
    byteLength (cs.map Char.toLower) = byteLength cs := by
  induction cs with
  | nil => rfl
  | cons c cs ih => rw [List.map_cons, byteLength, byteLength, ignoresCase_utf8Size, ih]

/-! ## Texts -/

theorem toList_lowerAscii (s : String) :
    (lowerAscii s).toList = s.toList.map Char.toLower :=
  String.toList_ofList

theorem lowerAscii_ofList (cs : List Char) :
    lowerAscii (String.ofList cs) = String.ofList (cs.map Char.toLower) := by
  rw [lowerAscii, String.toList_ofList]

theorem lowerAscii_lowerAscii (s : String) : lowerAscii (lowerAscii s) = lowerAscii s := by
  rw [lowerAscii, toList_lowerAscii, List.map_map, lowerAscii]
  exact congrArg (fun f => String.ofList (s.toList.map f)) (funext ignoresCase_toLower)

theorem lowerAscii_eq_iff {t : String} (h : Letterless t.toList) (s : String) :
    lowerAscii s = t ↔ s = t := by
  rw [← String.toList_inj, toList_lowerAscii, h.map_eq_iff, String.toList_inj]

theorem lowerAscii_beq {t : String} (h : Letterless t.toList) (s : String) :
    (lowerAscii s == t) = (s == t) := by
  rw [Bool.eq_iff_iff, beq_iff_eq, beq_iff_eq, lowerAscii_eq_iff h]

theorem trim_lowerAscii (s : String) : trim (lowerAscii s) = lowerAscii (trim s) := by
  rw [trim, trim, lowerAscii_ofList, toList_lowerAscii, ignoresCase_isWhite.dropWhile,
    ignoresCase_isWhite.dropWhileEnd]

/-- The words of a text in lower case are its words in lower case. -/
theorem wordsFrom_map_toLower (word cs : List Char) :
    wordsFrom (word.map Char.toLower) (cs.map Char.toLower) =
      (wordsFrom word cs).map (·.map Char.toLower) := by
  induction cs generalizing word with
  | nil => cases word <;> rfl
  | cons c cs ih =>
    have hnil := ih []
    have hword := ih (word ++ [c])
    rw [List.map_nil] at hnil
    rw [List.map_append, List.map_cons, List.map_nil] at hword
    rw [List.map_cons, wordsFrom, wordsFrom, ignoresCase_isBlank, List.isEmpty_map, hnil, hword]
    split_ifs <;> rfl

end SqlFormat
