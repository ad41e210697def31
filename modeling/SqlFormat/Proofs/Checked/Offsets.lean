import Mathlib
import SqlFormat.Proofs.Text.Ascii
import SqlFormat.Proofs.Token.Number
import SqlFormat.Proofs.Token.Quoted
import SqlFormat.Proofs.Token.Operator

/-!
# Where the scans stop in the bytes of a text

A scan of the bytes of a text stops between two characters, namely where the scan of the characters
stops. The scans do not tell the characters outside ASCII apart, and every byte of such a character
is outside ASCII too, so that a character is passed with all its bytes or with none.

Results: `word_bytesOf`, `number_bytesOf`, `through_bytesOf`, `dollarTag?_bytesOf`,
`compoundOperator_bytesOf`.
-/

namespace SqlFormat.Scan

open Text

variable {β : Type} {cs : List Char} {n : Nat}

/-- What does not tell the characters outside ASCII apart. -/
def Blind (f : Char → β) : Prop :=
  ∀ c d : Char, 128 ≤ c.toNat → 128 ≤ d.toNat → f c = f d

/-- What holds of ASCII characters only. -/
theorem Blind.of_ascii {p : Char → Bool} (h : ∀ c, p c = true → c.toNat < 128) : Blind p := by
  intro c d hc hd
  rw [Bool.eq_false_iff.mpr fun hp => absurd (h c hp) (Nat.not_lt.mpr hc),
    Bool.eq_false_iff.mpr fun hp => absurd (h d hp) (Nat.not_lt.mpr hd)]

/-- A byte of a character counts as the character. -/
theorem Blind.byte {f : Char → β} (hf : Blind f) {c b : Char} (hb : b ∈ bytesOf [c]) :
    f b = f c := by
  rcases Nat.lt_or_ge c.toNat 128 with hascii | hlarge
  · rw [bytesOf_ascii hascii, List.mem_singleton] at hb
    rw [hb]
  · exact hf b c (le_of_mem_bytesOf hlarge b hb) hlarge

/-! ## Offsets -/

/-- The number of bytes of the first characters of a text. -/
def offset (cs : List Char) (n : Nat) : Nat :=
  byteLength (cs.take n)

theorem bytesOf_append (a b : List Char) : bytesOf (a ++ b) = bytesOf a ++ bytesOf b := by
  simp [bytesOf]

theorem take_bytesOf (cs : List Char) (n : Nat) :
    (bytesOf cs).take (offset cs n) = bytesOf (cs.take n) := by
  conv_lhs => rw [← List.take_append_drop n cs, bytesOf_append]
  rw [offset, List.take_append_drop, ← length_bytesOf, List.take_left]

theorem drop_bytesOf (cs : List Char) (n : Nat) :
    (bytesOf cs).drop (offset cs n) = bytesOf (cs.drop n) := by
  conv_lhs => rw [← List.take_append_drop n cs, bytesOf_append]
  rw [offset, List.take_append_drop, ← length_bytesOf, List.drop_left]

@[simp] theorem offset_zero (cs : List Char) : offset cs 0 = 0 := rfl

theorem offset_add (cs : List Char) (m n : Nat) :
    offset cs (m + n) = offset cs m + offset (cs.drop m) n := by
  rw [offset, List.take_add, ← length_bytesOf, bytesOf_append, List.length_append, length_bytesOf,
    length_bytesOf]
  rfl

theorem bytesOf_ascii_cons {c : Char} (h : c.toNat < 128) (cs : List Char) :
    bytesOf (c :: cs) = c :: bytesOf cs := by
  rw [bytesOf_cons, bytesOf_ascii h, List.singleton_append]

/-- ASCII characters are their bytes. -/
theorem bytesOf_eq_self (h : ∀ c ∈ cs, c.toNat < 128) : bytesOf cs = cs := by
  induction cs with
  | nil => rfl
  | cons c cs ih =>
    rw [bytesOf_ascii_cons (h c (by simp)), ih fun d hd => h d (by simp [hd])]

/-- As many bytes as characters, where these are ASCII. -/
theorem offset_ascii (h : ∀ c ∈ cs.take n, c.toNat < 128) (hn : n ≤ cs.length) : offset cs n = n := by
  rw [offset, ← length_bytesOf, bytesOf_eq_self h, List.length_take, Nat.min_eq_left hn]

theorem offset_ascii_cons {c : Char} (h : c.toNat < 128) (cs : List Char) (n : Nat) :
    offset (c :: cs) (n + 1) = 1 + offset cs n := by
  have hsize : c.utf8Size = 1 := by
    have := length_bytesOf [c]
    rw [bytesOf_ascii h] at this
    exact this.symm
  rw [offset, List.take_succ_cons, byteLength, hsize]
  rfl

theorem length_bytesOf_eq_zero : (bytesOf cs).length = 0 ↔ cs = [] := by
  cases cs with
  | nil => simp [bytesOf]
  | cons c cs =>
    have := c.utf8Size_pos
    rw [length_bytesOf, byteLength]
    simp
    omega

theorem offset_le (cs : List Char) (n : Nat) : offset cs n ≤ (bytesOf cs).length := by
  have h := congrArg List.length (take_bytesOf cs n)
  rw [List.length_take, length_bytesOf (cs.take n), ← offset] at h
  omega

theorem offset_pos {n : Nat} (hn : 0 < n) (hne : cs ≠ []) : 0 < offset cs n := by
  rw [offset, ← length_bytesOf, Nat.pos_iff_ne_zero, Ne, length_bytesOf_eq_zero,
    List.take_eq_nil_iff]
  rintro (h | h)
  · omega
  · exact hne h

theorem offset_length (a b : List Char) : offset (a ++ b) a.length = byteLength a := by
  rw [offset, List.take_left]

/-- Places of a text are as far from its start in bytes only if they are in characters. -/
theorem offset_inj {m : Nat} (hm : m ≤ cs.length) (hn : n ≤ cs.length) :
    offset cs m = offset cs n ↔ m = n := by
  have hlt : ∀ {m n : Nat}, n ≤ cs.length → m < n → offset cs m < offset cs n := by
    intro m n hn hmn
    obtain ⟨k, rfl⟩ := Nat.exists_eq_add_of_lt hmn
    have hne : cs.drop m ≠ [] := by
      rw [Ne, List.drop_eq_nil_iff]
      omega
    have hpos : 0 < offset (cs.drop m) (k + 1) := offset_pos (Nat.succ_pos k) hne
    rw [Nat.add_assoc, offset_add]
    omega
  refine ⟨fun h => ?_, fun h => by rw [h]⟩
  rcases Nat.lt_trichotomy m n with h' | h' | h'
  · have := hlt hn h'
    omega
  · exact h'
  · have := hlt hm h'
    omega

/-- An ASCII byte is a character. -/
theorem exists_of_bytesOf_cons {b : Char} {bs : List Char} (hb : b.toNat < 128)
    (h : bytesOf cs = b :: bs) : ∃ rest, cs = b :: rest ∧ bytesOf rest = bs := by
  cases cs with
  | nil => simp [bytesOf] at h
  | cons c rest =>
    rcases Nat.lt_or_ge c.toNat 128 with hascii | hlarge
    · rw [bytesOf_ascii_cons hascii, List.cons.injEq] at h
      exact ⟨rest, by rw [h.1], h.2⟩
    · have hpos : 0 < (bytesOf [c]).length := by
        rw [length_bytesOf]
        exact c.utf8Size_pos
      obtain ⟨d, ds, hds⟩ := List.exists_cons_of_length_pos hpos
      have hd := le_of_mem_bytesOf hlarge d (hds ▸ List.mem_cons_self)
      rw [bytesOf_cons, hds, List.cons_append, List.cons.injEq] at h
      rw [h.1] at hd
      omega

/-! ## Runs of characters -/

theorem takeWhile_bytesOf {p : Char → Bool} (hp : Blind p) (cs : List Char) :
    (bytesOf cs).takeWhile p = bytesOf (cs.takeWhile p) := by
  induction cs with
  | nil => rfl
  | cons c cs ih =>
    rw [bytesOf_cons, List.takeWhile_cons]
    have hbyte : ∀ b ∈ bytesOf [c], p b = p c := fun b hb => hp.byte hb
    cases hc : p c with
    | true =>
      rw [List.takeWhile_append_of_pos fun b hb => (hbyte b hb).trans hc, ih, if_pos rfl,
        ← bytesOf_cons]
    | false =>
      obtain ⟨b, bs, hbs⟩ := List.exists_cons_of_length_pos (l := bytesOf [c]) (by
        rw [length_bytesOf]
        exact c.utf8Size_pos)
      rw [hbs] at hbyte ⊢
      rw [List.cons_append, List.takeWhile_cons_of_neg (by simp [hbyte b (by simp), hc])]
      rfl

theorem length_takeWhile_bytesOf {p : Char → Bool} (hp : Blind p) (cs : List Char) :
    ((bytesOf cs).takeWhile p).length = offset cs (cs.takeWhile p).length := by
  rw [takeWhile_bytesOf hp, length_bytesOf, offset]
  congr 1
  exact List.prefix_iff_eq_take.mp (List.takeWhile_prefix p)

/-- The first byte counts as the first character. -/
theorem head?_bytesOf {f : Char → β} (hf : Blind f) (cs : List Char) :
    (bytesOf cs).head?.map f = cs.head?.map f := by
  cases cs with
  | nil => rfl
  | cons c cs =>
    obtain ⟨b, bs, hbs⟩ := List.exists_cons_of_length_pos (l := bytesOf [c]) (by
      rw [length_bytesOf]
      exact c.utf8Size_pos)
    rw [bytesOf_cons, hbs]
    exact congrArg some (hf.byte (hbs ▸ List.mem_cons_self))

theorem any_head?_bytesOf {p : Char → Bool} (hp : Blind p) (cs : List Char) :
    (bytesOf cs).head?.any p = cs.head?.any p := by
  have h := congrArg (Option.any id) (head?_bytesOf hp cs)
  rwa [Option.any_map, Option.any_map] at h

/-! ## Classes of characters -/

theorem blind_beq {a : Char} (h : a.toNat < 128) : Blind (· == a) :=
  .of_ascii fun c hc => by rwa [beq_iff_eq.mp hc]

theorem blind_isDigit : Blind Char.isDigit :=
  .of_ascii fun c hc => isKeywordChar_lt (by simp [isKeywordChar, Char.isAlphanum, hc])

theorem blind_isAlpha : Blind Char.isAlpha :=
  .of_ascii fun c hc => isKeywordChar_lt (by simp [isKeywordChar, Char.isAlphanum, hc])

theorem blind_isBlank : Blind isBlank :=
  .of_ascii fun c hc => by
    simp only [isBlank, Bool.or_eq_true, beq_iff_eq] at hc
    rcases hc with (((rfl | rfl) | rfl) | rfl) | rfl <;> decide

theorem blind_tagChar : Blind fun c => c.isAlphanum || c == '_' :=
  .of_ascii fun _ hc => isKeywordChar_lt hc

theorem blind_digit : Blind fun c => c.isDigit || c == '_' :=
  .of_ascii fun c hc => isKeywordChar_lt (by
    rw [Bool.or_eq_true] at hc
    rcases hc with hc | hc <;> simp [isKeywordChar, Char.isAlphanum, hc])

theorem blind_isSign : Blind fun c => c == '+' || c == '-' :=
  .of_ascii fun c hc => by
    rw [Bool.or_eq_true, beq_iff_eq, beq_iff_eq] at hc
    rcases hc with rfl | rfl <;> decide

theorem blind_isExponent : Blind fun c => c == 'e' || c == 'E' :=
  .of_ascii fun c hc => by
    rw [Bool.or_eq_true, beq_iff_eq, beq_iff_eq] at hc
    rcases hc with rfl | rfl <;> decide

/-- Radixes and their digits are ASCII. -/
theorem isRadixDigit_ascii {radix c : Char} (h : isRadixDigit radix c = true) :
    radix.toNat < 128 ∧ c.toNat < 128 := by
  have hle : ∀ {a : Char}, c ≤ a → a.toNat < 128 → c.toNat < 128 := by
    intro a hca ha
    exact Nat.lt_of_le_of_lt (UInt32.le_iff_toNat_le.mp hca) ha
  have hdigit : c.isDigit = true → c.toNat < 128 := fun hc =>
    isKeywordChar_lt (by simp [isKeywordChar, Char.isAlphanum, hc])
  have hhex : (c.isDigit || ('a' ≤ c && c ≤ 'f') || ('A' ≤ c && c ≤ 'F')) = true →
      c.toNat < 128 := by
    simp only [Bool.or_eq_true, Bool.and_eq_true, decide_eq_true_iff]
    rintro ((hc | ⟨-, hc⟩) | ⟨-, hc⟩)
    · exact hdigit hc
    · exact hle hc (by decide)
    · exact hle hc (by decide)
  have hbinary : (c == '0' || c == '1') = true → c.toNat < 128 := by
    rw [Bool.or_eq_true, beq_iff_eq, beq_iff_eq]
    rintro (rfl | rfl) <;> decide
  have hoctal : ('0' ≤ c && c ≤ '7') = true → c.toNat < 128 := by
    rw [Bool.and_eq_true, decide_eq_true_iff, decide_eq_true_iff]
    exact fun hc => hle hc.2 (by decide)
  rw [isRadixDigit.eq_def] at h
  split at h
  case h_1 => exact ⟨by decide, hhex h⟩
  case h_2 => exact ⟨by decide, hhex h⟩
  case h_3 => exact ⟨by decide, hbinary h⟩
  case h_4 => exact ⟨by decide, hbinary h⟩
  case h_5 => exact ⟨by decide, hoctal h⟩
  case h_6 => exact ⟨by decide, hoctal h⟩
  case h_7 => cases h

theorem blind_radixRest (radix : Char) : Blind fun c => isRadixDigit radix c || c == '_' :=
  .of_ascii fun c h => by
    rw [Bool.or_eq_true, beq_iff_eq] at h
    rcases h with h | rfl
    · exact (isRadixDigit_ascii h).2
    · decide

theorem blind_isWordChar : Blind isWordChar := by
  intro c d hc hd
  simp [isWordChar, hc, hd]

theorem blind_isWordStart : Blind isWordStart := by
  intro c d hc hd
  simp [isWordStart, hc, hd]

theorem blind_wordRest : Blind fun c => isWordChar c || c == '$' := by
  intro c d hc hd
  simp [isWordChar, hc, hd]

theorem blind_notLineFeed : Blind (· != '\n') := by
  intro c d hc hd
  have hne : ∀ e : Char, 128 ≤ e.toNat → (e != '\n') = true := by
    rintro e he
    refine bne_iff_ne.mpr ?_
    rintro rfl
    exact absurd he (by decide)
  exact (hne c hc).trans (hne d hd).symm

theorem head?_beq_bytesOf {a : Char} (h : a.toNat < 128) (cs : List Char) :
    ((bytesOf cs).head? == some a) = (cs.head? == some a) := by
  have hany : ∀ o : Option Char, (o == some a) = o.any (· == a) := by
    rintro (_ | c) <;> rfl
  rw [hany, hany, any_head?_bytesOf (blind_beq h)]

/-! ## The scans -/

theorem blanks_bytesOf (cs : List Char) : blanks (bytesOf cs) = offset cs (blanks cs) :=
  length_takeWhile_bytesOf blind_isBlank cs

theorem lineComment_bytesOf (cs : List Char) :
    lineComment (bytesOf cs) = offset cs (lineComment cs) :=
  length_takeWhile_bytesOf blind_notLineFeed cs

theorem digits_bytesOf (cs : List Char) : digits (bytesOf cs) = offset cs (digits cs) :=
  length_takeWhile_bytesOf blind_digit cs

/-- A word is the run of the characters that may stand in one, if it starts like one. -/
theorem word_eq_takeWhile (cs : List Char) : word cs =
    if cs.head?.any isWordChar then (cs.takeWhile fun c => isWordChar c || c == '$').length
    else 0 := by
  cases cs with
  | nil => rfl
  | cons c cs =>
    rw [word, List.head?_cons, Option.any_some]
    split
    · next h =>
      rw [List.takeWhile_cons_of_pos (by simp [h]), List.length_cons, Nat.add_comm]
    · rfl

theorem word_bytesOf (cs : List Char) : word (bytesOf cs) = offset cs (word cs) := by
  rw [word_eq_takeWhile, word_eq_takeWhile, any_head?_bytesOf blind_isWordChar,
    length_takeWhile_bytesOf blind_wordRest]
  split <;> rfl

theorem fraction_of_ne {cs : List Char} (h : cs.head?.any (· == '.') = false) : fraction cs = 0 := by
  rw [fraction]
  · rintro rest rfl
    simp at h
  · rintro rest rfl
    simp at h

theorem fraction_bytesOf (cs : List Char) : fraction (bytesOf cs) = offset cs (fraction cs) := by
  have hdot : ('.' : Char).toNat < 128 := by decide
  by_cases h : cs.head?.any (· == '.') = true
  · obtain ⟨rest, rfl⟩ : ∃ rest, cs = '.' :: rest := by
      cases cs with
      | nil => simp at h
      | cons c rest => exact ⟨rest, by rw [beq_iff_eq.mp h]⟩
    have hnext : (bytesOf rest).head? = some '.' ↔ rest.head? = some '.' := by
      rw [← beq_iff_eq, head?_beq_bytesOf hdot, beq_iff_eq]
    rw [bytesOf_ascii_cons hdot, fraction_cons, fraction_cons, if_pos rfl, if_pos rfl,
      if_congr hnext rfl rfl]
    split
    · rfl
    · rw [digits_bytesOf, Nat.add_comm 1 (digits rest), offset_ascii_cons hdot]
  · rw [fraction_of_ne (Bool.eq_false_iff.mpr h), fraction_of_ne]
    · rfl
    · rwa [any_head?_bytesOf (blind_beq hdot), Bool.eq_false_iff]

/-- A sign is one byte. -/
theorem offset_sign (cs : List Char) :
    offset cs (if cs.head?.any fun c => c == '+' || c == '-' then 1 else 0) =
      if cs.head?.any fun c => c == '+' || c == '-' then 1 else 0 := by
  split
  · next h =>
    refine offset_ascii ?_ ?_
    · cases cs with
      | nil => simp
      | cons c cs =>
        rw [List.head?_cons, Option.any_some, Bool.or_eq_true, beq_iff_eq, beq_iff_eq] at h
        rcases h with rfl | rfl <;> simp
    · cases cs with
      | nil => simp at h
      | cons c cs => simp
  · rfl

theorem exponent_bytesOf (cs : List Char) : exponent (bytesOf cs) = offset cs (exponent cs) := by
  have hmark := any_head?_bytesOf blind_isExponent cs
  cases cs with
  | nil => rfl
  | cons e rest =>
    rw [exponent, List.head?_cons, Option.any_some] at *
    by_cases he : (e == 'e' || e == 'E') = true
    · have hascii : e.toNat < 128 := by
        rw [Bool.or_eq_true, beq_iff_eq, beq_iff_eq] at he
        rcases he with rfl | rfl <;> decide
      rw [bytesOf_ascii_cons hascii, exponent]
      simp only [he, if_true, any_head?_bytesOf blind_isSign]
      have hsign := offset_sign rest
      generalize (if rest.head?.any fun c => c == '+' || c == '-' then 1 else 0) = sign at hsign ⊢
      have hdrop := drop_bytesOf rest sign
      rw [hsign] at hdrop
      rw [hdrop, any_head?_bytesOf blind_isDigit, digits_bytesOf]
      split
      · rw [Nat.add_assoc 1 sign (digits _), Nat.add_comm 1 (sign + _), offset_ascii_cons hascii,
          offset_add, hsign, Nat.add_assoc]
      · rfl
    · rw [if_neg he]
      rw [Bool.not_eq_true] at he
      rw [he] at hmark
      cases hbytes : bytesOf (e :: rest) with
      | nil => rfl
      | cons b bs =>
        rw [hbytes, List.head?_cons, Option.any_some] at hmark
        rw [exponent, if_neg (by simp [hmark])]
        rfl

theorem decimal_bytesOf (cs : List Char) : decimal (bytesOf cs) = offset cs (decimal cs) := by
  simp only [decimal]
  rw [digits_bytesOf, drop_bytesOf, fraction_bytesOf, ← offset_add, drop_bytesOf, exponent_bytesOf,
    ← offset_add]

/-- A number with a radix is known by its first three characters. -/
theorem radixNumber?_none {cs : List Char}
    (h : ∀ radix d rest, cs = '0' :: radix :: d :: rest → isRadixDigit radix d = false) :
    radixNumber? cs = none := by
  rw [radixNumber?.eq_def]
  split
  · next radix d rest =>
    rw [if_neg (by simp [h radix d rest rfl])]
  · rfl

theorem radixNumber?_bytesOf (cs : List Char) :
    radixNumber? (bytesOf cs) = (radixNumber? cs).map (offset cs) := by
  have hzero : ('0' : Char).toNat < 128 := by decide
  by_cases h : ∃ radix d rest, cs = '0' :: radix :: d :: rest ∧ isRadixDigit radix d = true
  · obtain ⟨radix, d, rest, rfl, hdigit⟩ := h
    obtain ⟨hradix, hd⟩ := isRadixDigit_ascii hdigit
    have hbytes : bytesOf ('0' :: radix :: d :: rest) = '0' :: radix :: d :: bytesOf rest := by
      rw [bytesOf_ascii_cons hzero, bytesOf_ascii_cons hradix, bytesOf_ascii_cons hd]
    have hoffset : ∀ n, offset ('0' :: radix :: d :: rest) (3 + n) = 3 + offset rest n := by
      intro n
      rw [Nat.add_comm 3 n, offset_ascii_cons hzero, offset_ascii_cons hradix, offset_ascii_cons hd]
      omega
    rw [hbytes, radixNumber?, if_pos hdigit, radixNumber?, if_pos hdigit, Option.map_some, hoffset,
      length_takeWhile_bytesOf (blind_radixRest radix)]
  · have hnone : radixNumber? cs = none :=
      radixNumber?_none fun radix d rest hcs =>
        Bool.eq_false_iff.mpr fun hdigit => h ⟨radix, d, rest, hcs, hdigit⟩
    rw [hnone, Option.map_none]
    refine radixNumber?_none fun radix d rest hbytes => Bool.eq_false_iff.mpr fun hdigit => ?_
    obtain ⟨hradix, hd⟩ := isRadixDigit_ascii hdigit
    obtain ⟨_, rfl, htail⟩ := exists_of_bytesOf_cons hzero hbytes
    obtain ⟨_, rfl, hlast⟩ := exists_of_bytesOf_cons hradix htail
    obtain ⟨rest, rfl, -⟩ := exists_of_bytesOf_cons hd hlast
    exact h ⟨radix, d, rest, rfl, hdigit⟩

theorem number_bytesOf (cs : List Char) : number (bytesOf cs) = offset cs (number cs) := by
  rw [number, number, radixNumber?_bytesOf, decimal_bytesOf]
  cases radixNumber? cs <;> rfl

/-! ## Patterns -/

section Pattern

variable {pattern : List Char}

theorem isPrefixOf_bytesOf (h : ∀ c ∈ pattern, c.toNat < 128) (cs : List Char) :
    pattern.isPrefixOf (bytesOf cs) = pattern.isPrefixOf cs := by
  induction pattern generalizing cs with
  | nil => rw [List.isPrefixOf_nil_left, List.isPrefixOf_nil_left]
  | cons p pattern ih =>
    have hp := h p (by simp)
    cases cs with
    | nil => rfl
    | cons c cs =>
      rcases Nat.lt_or_ge c.toNat 128 with hascii | hlarge
      · rw [bytesOf_ascii_cons hascii, List.isPrefixOf, List.isPrefixOf,
          ih fun d hd => h d (by simp [hd])]
      · have hne : ∀ b : Char, 128 ≤ b.toNat → (p == b) = false := by
          rintro b hb
          refine beq_eq_false_iff_ne.mpr ?_
          rintro rfl
          omega
        have hbytes := le_of_mem_bytesOf hlarge
        obtain ⟨b, bs, hbs⟩ := List.exists_cons_of_length_pos (l := bytesOf [c]) (by
          rw [length_bytesOf]
          exact c.utf8Size_pos)
        rw [bytesOf_cons, hbs, List.cons_append, List.isPrefixOf, List.isPrefixOf, hne c hlarge,
          hne b (hbytes b (hbs ▸ List.mem_cons_self)), Bool.false_and, Bool.false_and]

/-- A pattern does not start at a byte that is not ASCII. -/
theorem through_large (hne : pattern ≠ []) (h : ∀ c ∈ pattern, c.toNat < 128) {bs : List Char}
    (hbs : ∀ b ∈ bs, 128 ≤ b.toNat) (cs : List Char) :
    through pattern (bs ++ cs) = bs.length + through pattern cs := by
  induction bs with
  | nil => rw [List.nil_append, List.length_nil, Nat.zero_add]
  | cons b bs ih =>
    have hstart : ¬pattern.isPrefixOf (b :: (bs ++ cs)) = true := by
      obtain ⟨p, pattern, rfl⟩ := List.exists_cons_of_ne_nil hne
      have hp := h p (by simp)
      have hb := hbs b (by simp)
      rw [List.isPrefixOf, Bool.and_eq_true, beq_iff_eq]
      rintro ⟨rfl, -⟩
      omega
    rw [List.cons_append, through, if_neg hstart, ih fun d hd => hbs d (by simp [hd]),
      List.length_cons]
    omega

theorem through_bytesOf (hne : pattern ≠ []) (h : ∀ c ∈ pattern, c.toNat < 128) (cs : List Char) :
    through pattern (bytesOf cs) = offset cs (through pattern cs) := by
  induction cs with
  | nil => rfl
  | cons c cs ih =>
    rw [through]
    split
    · next hp =>
      have hprefix := List.isPrefixOf_iff_prefix.mp hp
      have htake := List.prefix_iff_eq_take.mp hprefix
      rw [offset_ascii (htake ▸ h) hprefix.length_le]
      rw [← isPrefixOf_bytesOf h] at hp
      cases hbytes : bytesOf (c :: cs) with
      | nil => exact absurd (length_bytesOf_eq_zero.mp (congrArg List.length hbytes)) (by simp)
      | cons b bs => rw [through, if_pos (hbytes ▸ hp)]
    · next hp =>
      rcases Nat.lt_or_ge c.toNat 128 with hascii | hlarge
      · rw [← isPrefixOf_bytesOf h, bytesOf_ascii_cons hascii] at hp
        rw [bytesOf_ascii_cons hascii, through, if_neg hp, ih, Nat.add_comm 1 (through _ _),
          offset_ascii_cons hascii]
      · rw [bytesOf_cons, through_large hne h (le_of_mem_bytesOf hlarge), ih, length_bytesOf,
          Nat.add_comm 1 (through _ _), offset, offset, List.take_succ_cons]
        rfl

theorem dollarTag?_bytesOf (cs : List Char) : dollarTag? (bytesOf cs) = dollarTag? cs := by
  have hdollar : ('$' : Char).toNat < 128 := by decide
  have hnone : ∀ {text : List Char}, text.head?.any (· == '$') = false → dollarTag? text = none := by
    intro text htext
    rw [dollarTag?]
    rintro rest rfl
    simp at htext
  by_cases h : cs.head?.any (· == '$') = true
  · obtain ⟨rest, rfl⟩ : ∃ rest, cs = '$' :: rest := by
      cases cs with
      | nil => simp at h
      | cons c rest => exact ⟨rest, by rw [beq_iff_eq.mp h]⟩
    have hascii : ∀ c ∈ rest.takeWhile fun c => c.isAlphanum || c == '_', c.toNat < 128 :=
      fun c hc => isKeywordChar_lt (List.mem_takeWhile_imp hc)
    have hdrop : ∀ name, name = (rest.takeWhile fun c => c.isAlphanum || c == '_') →
        (bytesOf rest).drop name.length = bytesOf (rest.drop name.length) := by
      rintro name rfl
      have hprefix := List.takeWhile_prefix (l := rest) fun c => c.isAlphanum || c == '_'
      have htake := List.prefix_iff_eq_take.mp hprefix
      conv_lhs => rw [← offset_ascii (htake ▸ hascii) hprefix.length_le]
      exact drop_bytesOf rest _
    rw [bytesOf_ascii_cons hdollar, dollarTag?, dollarTag?, takeWhile_bytesOf blind_tagChar,
      bytesOf_eq_self hascii]
    simp only [hdrop _ rfl]
    rw [head?_beq_bytesOf hdollar]
  · rw [Bool.not_eq_true] at h
    rw [hnone h, hnone (by rwa [any_head?_bytesOf (blind_beq hdollar)])]

/-- A tag is not empty, and it is ASCII. -/
theorem dollarTag?_ascii {tag : List Char} (h : dollarTag? cs = some tag) :
    tag ≠ [] ∧ ∀ c ∈ tag, c.toNat < 128 := by
  rw [dollarTag?.eq_def] at h
  split at h
  · next rest =>
    simp only [Option.ite_none_right_eq_some, Option.some.injEq] at h
    rw [← h.2]
    refine ⟨by simp, fun c hc => ?_⟩
    simp only [List.cons_append, List.mem_cons, List.mem_append, List.not_mem_nil, or_false] at hc
    rcases hc with rfl | hc | rfl
    · decide
    · exact isKeywordChar_lt (List.mem_takeWhile_imp hc)
    · decide
  · cases h

theorem dollarString?_bytesOf (cs : List Char) :
    dollarString? (bytesOf cs) = (dollarString? cs).map (offset cs) := by
  rw [dollarString?, dollarString?, dollarTag?_bytesOf]
  cases htag : dollarTag? cs with
  | none => rfl
  | some tag =>
    obtain ⟨hne, hascii⟩ := dollarTag?_ascii htag
    have hprefix := isPrefix_of_dollarTag? htag
    have htake := List.prefix_iff_eq_take.mp hprefix
    have hoffset : offset cs tag.length = tag.length :=
      offset_ascii (htake ▸ hascii) hprefix.length_le
    have hdrop := drop_bytesOf cs tag.length
    rw [hoffset] at hdrop
    simp only [Option.map_some]
    rw [hdrop, through_bytesOf hne hascii, offset_add, hoffset]

theorem startsBlockComment_bytesOf (cs : List Char) :
    startsBlockComment (bytesOf cs) = startsBlockComment cs :=
  isPrefixOf_bytesOf (by simp) cs

theorem blockComment_bytesOf {cs : List Char} (h : startsBlockComment cs = true) :
    blockComment (bytesOf cs) = offset cs (blockComment cs) := by
  obtain ⟨rest, rfl⟩ := List.isPrefixOf_iff_prefix.mp h
  have hslash : ('/' : Char).toNat < 128 := by decide
  have hstar : ('*' : Char).toNat < 128 := by decide
  have hoffset : ∀ n, offset ('/' :: '*' :: rest) (2 + n) = 2 + offset rest n := by
    intro n
    rw [Nat.add_comm 2 n, offset_ascii_cons hslash, offset_ascii_cons hstar]
    omega
  rw [List.cons_append, List.singleton_append, bytesOf_ascii_cons hslash, bytesOf_ascii_cons hstar,
    blockComment, blockComment, hoffset]
  simp only [List.drop_succ_cons, List.drop_zero]
  rw [through_bytesOf (by simp) (by simp)]

/-- The characters of operators are ASCII. -/
theorem operators_ascii : ∀ op ∈ tripleOperators ++ doubleOperators, ∀ c ∈ op.toList,
    c.toNat < 128 := by
  simp [tripleOperators, doubleOperators]

theorem compoundOperator_bytesOf (cs : List Char) :
    compoundOperator (bytesOf cs) = compoundOperator cs := by
  have hany : ∀ ops ⊆ tripleOperators ++ doubleOperators,
      (ops.any fun op => op.toList.isPrefixOf (bytesOf cs)) =
        ops.any fun op => op.toList.isPrefixOf cs := by
    intro ops hops
    rw [Bool.eq_iff_iff, List.any_eq_true, List.any_eq_true]
    refine exists_congr fun op => and_congr_right fun hop => ?_
    rw [isPrefixOf_bytesOf (operators_ascii op (hops hop))]
  rw [compoundOperator, compoundOperator, hany _ (List.subset_append_left _ _),
    hany _ (List.subset_append_right _ _)]

/-- An operator of several characters has as many bytes. -/
theorem offset_compoundOperator (cs : List Char) :
    offset cs (compoundOperator cs) = compoundOperator cs := by
  have hprefix : ∀ ops ⊆ tripleOperators ++ doubleOperators, ∀ n,
      (∀ op ∈ ops, op.toList.length = n) →
      (ops.any fun op => op.toList.isPrefixOf cs) = true → offset cs n = n := by
    intro ops hops n hlength hany
    obtain ⟨op, hop, hp⟩ := List.any_eq_true.mp hany
    have hprefix := List.isPrefixOf_iff_prefix.mp hp
    have htake := List.prefix_iff_eq_take.mp hprefix
    rw [hlength op hop] at htake
    exact offset_ascii (htake ▸ operators_ascii op (hops hop)) (hlength op hop ▸ hprefix.length_le)
  rw [compoundOperator]
  split
  · next h =>
    exact hprefix _ (List.subset_append_left _ _) 3 (by simp [tripleOperators]) h
  · split
    · next h =>
      exact hprefix _ (List.subset_append_right _ _) 2 (by simp [doubleOperators]) h
    · rfl

end Pattern

end SqlFormat.Scan
