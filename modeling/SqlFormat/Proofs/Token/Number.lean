import Mathlib
import SqlFormat.Proofs.Token.Scan

/-!
# Numbers and what follows them

How far a number reaches depends on what follows it only through the next few characters. A
character that no number holds ends it wherever it stands; a dot does so unless it would start a
fraction.

Results: `number_alone`, `number_stop`, `number_dot`, `number_dots`.
-/

namespace SqlFormat.Scan

open Text

/-- No number goes on with this character, a dot apart. -/
def stopsNumber (c : Char) : Bool :=
  !isWordChar c && c != '+' && c != '-'

variable {c : Char} {r t u : List Char}

theorem fraction_cons (c : Char) (cs : List Char) :
    fraction (c :: cs) =
      if c = '.' then if cs.head? = some '.' then 0 else 1 + digits cs else 0 := by
  unfold fraction
  split
  · next heq => cases heq; simp
  · next cs' hcs heq =>
    cases heq
    rw [if_pos rfl, if_neg]
    intro h
    cases cs with
    | nil => cases h
    | cons d ds => exact hcs ds (by simp_all)
  · next hdd hd =>
    rw [if_neg]
    rintro rfl
    exact hd cs rfl

theorem radixNumber?_cons (a b d : Char) (cs : List Char) :
    radixNumber? (a :: b :: d :: cs) =
      if a = '0' ∧ isRadixDigit b d = true then
        some (3 + (cs.takeWhile fun c => isRadixDigit b c || c == '_').length)
      else none := by
  unfold radixNumber?
  split
  · next heq => cases heq; simp
  · next h =>
    rw [if_neg]
    rintro ⟨rfl, -⟩
    exact h b d cs rfl

theorem radixNumber?_short (h : t.length < 3) : radixNumber? t = none := by
  unfold radixNumber?
  split
  · simp at h
    omega
  · rfl

/-- The digits of a number with a radix are digits and letters. -/
theorem isRadixDigit_of_not_isAlphanum (h : c.isAlphanum = false) (radix : Char) :
    isRadixDigit radix c = false := by
  simp only [Char.isAlphanum, Char.isAlpha, Bool.or_eq_false_iff] at h
  obtain ⟨⟨hu, hl⟩, hd⟩ := h
  have h01 : (c == '0') = false ∧ (c == '1') = false := by
    constructor <;> refine beq_eq_false_iff_ne.mpr ?_ <;> rintro rfl <;> simp [Char.isDigit] at hd
  unfold isRadixDigit
  split <;> simp_all [Char.isDigit, Char.isUpper, Char.isLower, Char.le_def] <;> grind

section Stop

variable (hc : stopsNumber c = true)

include hc

theorem isWordChar_of_stopsNumber : isWordChar c = false := by
  simp only [stopsNumber, Bool.and_eq_true, Bool.not_eq_true'] at hc
  exact hc.1.1

theorem isDigit_of_stopsNumber : c.isDigit = false := by
  cases hd : c.isDigit with
  | false => rfl
  | true => exact absurd (isWordChar_of_isDigit hd) (by simp [isWordChar_of_stopsNumber hc])

theorem isRadixDigit_of_stopsNumber (radix : Char) : isRadixDigit radix c = false := by
  have hw := isWordChar_of_stopsNumber hc
  simp only [isWordChar, Bool.or_eq_false_iff] at hw
  exact isRadixDigit_of_not_isAlphanum hw.1.1 radix

theorem digits_stop (u r : List Char) : digits (u ++ c :: r) = digits u := by
  have hu : (c == '_') = false := by
    have hw := isWordChar_of_stopsNumber hc
    simp only [isWordChar, Bool.or_eq_false_iff] at hw
    exact hw.1.2
  rw [digits, takeWhile_append_stop u (by simp [isDigit_of_stopsNumber hc, hu]), digits]

theorem fraction_stop (hd : c ≠ '.') (u r : List Char) : fraction (u ++ c :: r) = fraction u := by
  cases u with
  | nil => simp [hd, fraction]
  | cons d u =>
    rw [List.cons_append, fraction_cons, fraction_cons, digits_stop hc]
    cases u with
    | nil => simp [hd]
    | cons e u => rfl

theorem exponent_stop (u r : List Char) : exponent (u ++ c :: r) = exponent u := by
  have he : (c == 'e' || c == 'E') = false := by
    have hw := isWordChar_of_stopsNumber hc
    cases h : (c == 'e' || c == 'E') with
    | false => rfl
    | true =>
      simp only [Bool.or_eq_true, beq_iff_eq] at h
      rcases h with rfl | rfl <;> simp [isWordChar, Char.isAlphanum, Char.isAlpha] at hw
  have hs : (c == '+' || c == '-') = false := by
    simp only [stopsNumber, Bool.and_eq_true, bne_iff_ne] at hc
    simp [hc.1.2, hc.2]
  have hd := isDigit_of_stopsNumber hc
  cases u with
  | nil => simp [exponent, he]
  | cons e u =>
    rw [List.cons_append, exponent, exponent]
    cases u with
    | nil => simp [hs, hd]
    | cons d u =>
      by_cases hsign : (d == '+' || d == '-') = true
      · cases u with
        | nil => simp [hsign, hd]
        | cons f u =>
          simp only [List.cons_append, List.head?_cons, Option.any_some, hsign, if_true,
            List.drop_succ_cons, List.drop_zero]
          rw [← List.cons_append, digits_stop hc]
      · simp only [List.cons_append, List.head?_cons, Option.any_some, hsign, Bool.false_eq_true,
          if_false, List.drop_zero]
        rw [← List.cons_append, digits_stop hc]

theorem radixNumber?_stop (u r : List Char) : radixNumber? (u ++ c :: r) = radixNumber? u := by
  have hr := isRadixDigit_of_stopsNumber hc
  have hw := isWordChar_of_stopsNumber hc
  have hu : (c == '_') = false := by
    simp only [isWordChar, Bool.or_eq_false_iff] at hw
    exact hw.1.2
  rcases u with _ | ⟨a, _ | ⟨b, _ | ⟨d, u⟩⟩⟩
  · rw [radixNumber?_short (t := []) (by simp)]
    rcases r with _ | ⟨a, _ | ⟨b, r⟩⟩
    · exact radixNumber?_short (by simp)
    · exact radixNumber?_short (by simp)
    · rw [List.nil_append, radixNumber?_cons, if_neg]
      rintro ⟨rfl, -⟩
      simp [isWordChar, Char.isAlphanum, Char.isDigit] at hw
  · rw [radixNumber?_short (t := [a]) (by simp)]
    rcases r with _ | ⟨b, r⟩
    · exact radixNumber?_short (by simp)
    · have hb : isRadixDigit c b = false := by
        unfold isRadixDigit
        split <;> first | rfl | simp [isWordChar, Char.isAlphanum, Char.isAlpha] at hw
      simp [radixNumber?_cons, hb]
  · rw [radixNumber?_short (t := [a, b]) (by simp)]
    simp [radixNumber?_cons, hr]
  · simp only [List.cons_append, radixNumber?_cons]
    rw [takeWhile_append_stop u (by simp [hr, hu])]

end Stop

/-! ## A number without what follows it -/

theorem digits_alone (h : digits (t ++ r) ≤ t.length) : digits (t ++ r) = digits t := by
  rw [digits, takeWhile_append_le h, digits]

/-- The part of a number after its whole digits. -/
theorem fraction_alone
    (h : fraction (u ++ r) + exponent ((u ++ r).drop (fraction (u ++ r))) = u.length) :
    fraction (u ++ r) = fraction u := by
  cases u with
  | nil =>
    simp only [List.nil_append, List.length_nil] at h ⊢
    exact Nat.eq_zero_of_add_eq_zero_right h
  | cons d u =>
    rw [List.cons_append, fraction_cons] at h
    rw [List.cons_append, fraction_cons, fraction_cons]
    by_cases hd : d = '.'
    · subst hd
      simp only [if_true, List.length_cons] at h ⊢
      split at h
      · simp [exponent] at h
      · next hne =>
        have hdig := digits_alone (t := u) (r := r) (by omega)
        rw [if_neg hne, hdig, if_neg]
        intro hu
        cases u with
        | nil => cases hu
        | cons e u => exact hne hu
    · simp [hd]

theorem digits_pos (h : t.head?.any Char.isDigit = true) : 0 < digits t := by
  cases t with
  | nil => cases h
  | cons c t =>
    simp only [List.head?_cons, Option.any_some] at h
    simp [digits, h]

theorem exponent_alone (h : exponent (u ++ r) = u.length) : exponent u = u.length := by
  match u with
  | [] => rfl
  | [e] =>
    simp only [List.cons_append, List.nil_append, exponent, List.length_singleton] at h
    split_ifs at h with he hs hd hd
    · have := digits_pos hd
      omega
    · have := digits_pos hd
      omega
  | e :: d :: u =>
    simp only [List.cons_append, exponent, List.head?_cons, Option.any_some,
      List.length_cons] at h ⊢
    split at h
    · next he =>
      rw [if_pos he]
      by_cases hs : (d == '+' || d == '-') = true
      · simp only [hs, if_true, List.drop_succ_cons, List.drop_zero] at h ⊢
        split at h
        · next hd =>
          have hpos := digits_pos hd
          have hdig := digits_alone (t := u) (r := r) (by omega)
          cases u with
          | nil => simp only [List.nil_append, List.length_nil] at hpos h; omega
          | cons f u => rw [if_pos (by simpa using hd), ← hdig, h]
        · omega
      · simp only [hs, Bool.false_eq_true, if_false, List.drop_zero] at h ⊢
        split at h
        · next hd =>
          rw [← List.cons_append] at h
          have hdig := digits_alone (t := d :: u) (r := r) (by simp only [List.length_cons]; omega)
          rw [if_pos (by simpa using hd), ← hdig, h]
        · omega
    · omega

/-- A number that something follows is the same without it. -/
theorem number_alone (h : number (t ++ r) = t.length) : number t = t.length := by
  cases hr : radixNumber? (t ++ r) with
  | some n =>
    simp only [number, hr, Option.getD_some] at h
    subst h
    match t with
    | [] => exact absurd (radixNumber?_le hr).1 (by simp)
    | [a] | [a, b] =>
      unfold radixNumber? at hr
      split at hr
      · split at hr
        · simp only [Option.some.injEq, List.length_cons, List.length_nil] at hr
          omega
        · cases hr
      · cases hr
    | a :: b :: d :: t =>
      simp only [List.cons_append, radixNumber?_cons, List.length_cons] at hr
      split at hr
      · next hd =>
        have hlen := Option.some.inj hr
        rw [takeWhile_append_le (by omega)] at hlen
        simp only [number, radixNumber?_cons, if_pos hd, Option.getD_some, hlen, List.length_cons]
      · cases hr
  | none =>
    have hr' : radixNumber? t = none := by
      match t with
      | [] | [_] | [_, _] => exact radixNumber?_short (by simp)
      | a :: b :: d :: t =>
        rw [List.cons_append, List.cons_append, List.cons_append, radixNumber?_cons] at hr
        rw [radixNumber?_cons]
        split at hr
        · cases hr
        · next hn => rw [if_neg hn]
    simp only [number, hr, hr', Option.getD_none, decimal] at h ⊢
    have hdig := digits_alone (t := t) (r := r) (by omega)
    rw [hdig, List.drop_append_of_le_length (digits_le t), ← List.drop_drop,
      List.drop_append_of_le_length (digits_le t)] at h
    have hlen : (t.drop (digits t)).length = t.length - digits t := List.length_drop
    have hle := digits_le t
    have hf := fraction_alone (u := t.drop (digits t)) (r := r) (by omega)
    rw [hf] at h
    have hfl := fraction_le (t.drop (digits t))
    rw [List.drop_append_of_le_length hfl] at h
    have he := exponent_alone (u := (t.drop (digits t)).drop (fraction (t.drop (digits t))))
      (r := r) (by rw [List.length_drop]; omega)
    rw [← List.drop_drop, he, List.length_drop, hlen]
    omega

/-! ## A number before what ends it -/

/-- A number ends before a character that no number holds. -/
theorem number_stop (hc : stopsNumber c = true) (hd : c ≠ '.') (h : number t = t.length) :
    number (t ++ c :: r) = t.length := by
  rw [← h]
  simp only [number, radixNumber?_stop hc, decimal, digits_stop hc]
  have hdig := digits_le t
  have hf : fraction ((t ++ c :: r).drop (digits t)) = fraction (t.drop (digits t)) := by
    rw [List.drop_append_of_le_length hdig, fraction_stop hc hd]
  have hle : digits t + fraction (t.drop (digits t)) ≤ t.length := by
    have := fraction_le (t.drop (digits t))
    rw [List.length_drop] at this
    omega
  rw [hf, List.drop_append_of_le_length hle, exponent_stop hc]

theorem fraction_dot (hu : u ≠ []) : fraction (u ++ '.' :: r) = fraction (u ++ ['.']) ∧
    fraction (u ++ ['.']) ≤ u.length := by
  obtain ⟨d, u, rfl⟩ := List.exists_cons_of_ne_nil hu
  have hc : stopsNumber '.' = true := by decide
  have hle := digits_le u
  simp only [List.cons_append, fraction_cons, digits_stop hc, List.length_cons]
  cases u with
  | nil => simp
  | cons e u =>
    refine ⟨rfl, ?_⟩
    simp only [List.length_cons] at hle ⊢
    split_ifs <;> omega

/-- A number that ends before a dot does so whatever follows the dot. -/
theorem number_dot (h : number (t ++ ['.']) ≤ t.length) :
    number (t ++ '.' :: r) = number (t ++ ['.']) := by
  have hc : stopsNumber '.' = true := by decide
  simp only [number, radixNumber?_stop hc] at h ⊢
  cases hr : radixNumber? t with
  | some n => rfl
  | none =>
    simp only [hr, Option.getD_none, decimal, digits_stop hc] at h ⊢
    have hle := digits_le t
    have hne : t.drop (digits t) ≠ [] := by
      intro hnil
      have hlen := List.drop_eq_nil_iff.mp hnil
      rw [List.drop_append_of_le_length hle, hnil, List.nil_append] at h
      have : fraction ['.'] = 1 := rfl
      omega
    rw [List.drop_append_of_le_length hle] at h ⊢
    rw [List.drop_append_of_le_length hle]
    obtain ⟨hf, hfl⟩ := fraction_dot (r := r) hne
    rw [List.length_drop] at hfl
    rw [hf, List.drop_append_of_le_length (by omega), List.drop_append_of_le_length (by omega),
      exponent_stop hc, exponent_stop hc]

/-- Two dots end a number whatever follows them. -/
theorem number_dots : number (t ++ '.' :: '.' :: r) = number (t ++ ['.', '.']) := by
  have hc : stopsNumber '.' = true := by decide
  simp only [number, radixNumber?_stop hc]
  cases radixNumber? t with
  | some n => rfl
  | none =>
    have hle := digits_le t
    simp only [Option.getD_none, decimal, digits_stop hc, List.drop_append_of_le_length hle]
    by_cases hne : t.drop (digits t) = []
    · simp [hne, fraction, List.drop_append_of_le_length hle, exponent]
    · obtain ⟨hf, hfl⟩ := fraction_dot (r := '.' :: r) hne
      obtain ⟨hf', _⟩ := fraction_dot (r := ['.']) hne
      rw [List.length_drop] at hfl
      rw [hf, hf', List.drop_append_of_le_length (by omega), List.drop_append_of_le_length (by omega),
        exponent_stop hc, exponent_stop hc]

/-! ## The characters of a number -/

/-- The characters that a number is made of. -/
def inNumber (c : Char) : Bool :=
  c.isAlphanum || c == '_' || c == '.' || c == '+' || c == '-'

theorem inNumber_digits (cs : List Char) : ∀ c ∈ cs.take (digits cs), inNumber c = true := by
  intro c hc
  rw [digits, ← List.prefix_iff_eq_take.mp (List.takeWhile_prefix _)] at hc
  have := List.mem_takeWhile_imp hc
  simp only [Bool.or_eq_true, beq_iff_eq] at this
  rcases this with hd | rfl
  · simp [inNumber, Char.isAlphanum, hd]
  · decide

theorem inNumber_fraction (cs : List Char) : ∀ c ∈ cs.take (fraction cs), inNumber c = true := by
  cases cs with
  | nil => simp
  | cons a cs =>
    rw [fraction_cons]
    split_ifs with ha
    · simp
    · rw [Nat.add_comm, List.take_succ_cons]
      rintro c (_ | ⟨_, hc⟩)
      · subst ha
        decide
      · exact inNumber_digits cs c hc
    · simp

theorem inNumber_exponent (cs : List Char) : ∀ c ∈ cs.take (exponent cs), inNumber c = true := by
  intro c hc
  cases cs with
  | nil => simp at hc
  | cons a cs =>
    simp only [exponent] at hc
    split_ifs at hc with ha hsign hdigit hdigit
    · cases cs with
      | nil => simp at hsign
      | cons s cs =>
        rw [Nat.add_assoc, Nat.add_comm 1, Nat.add_comm 1, List.take_succ_cons,
          List.take_succ_cons] at hc
        rcases hc with _ | ⟨_, _ | ⟨_, hc⟩⟩
        · rcases (by simpa using ha : c = 'e' ∨ c = 'E') with rfl | rfl <;> decide
        · rcases (by simpa using hsign : c = '+' ∨ c = '-') with rfl | rfl <;> decide
        · exact inNumber_digits cs c hc
    · simp at hc
    · rw [Nat.add_zero, Nat.add_comm, List.take_succ_cons, List.drop_zero] at hc
      rcases hc with _ | ⟨_, hc⟩
      · rcases (by simpa using ha : c = 'e' ∨ c = 'E') with rfl | rfl <;> decide
      · exact inNumber_digits cs c hc
    · simp at hc
    · simp at hc

theorem inNumber_radix {radix d : Char} (h : isRadixDigit radix d = true) :
    inNumber radix = true ∧ ∀ c, isRadixDigit radix c = true → inNumber c = true := by
  constructor
  · unfold isRadixDigit at h
    split at h
    all_goals first | cases h | decide
  · intro c hc
    cases hs : c.isAlphanum with
    | true => simp [inNumber, hs]
    | false => rw [isRadixDigit_of_not_isAlphanum hs] at hc; cases hc

/-- A number has no other characters. -/
theorem inNumber_of_mem (cs : List Char) : ∀ c ∈ cs.take (number cs), inNumber c = true := by
  intro c hc
  cases hr : radixNumber? cs with
  | none =>
    rw [number, hr, Option.getD_none, decimal, List.take_add, List.take_add, List.mem_append,
      List.mem_append] at hc
    rcases hc with (hc | hc) | hc
    · exact inNumber_digits _ c hc
    · exact inNumber_fraction _ c hc
    · exact inNumber_exponent _ c hc
  | some n =>
    rw [number, hr, Option.getD_some] at hc
    unfold radixNumber? at hr
    split at hr
    · next radix d cs =>
      split_ifs at hr with hd
      cases hr
      obtain ⟨hradix, hall⟩ := inNumber_radix hd
      rw [Nat.add_comm, List.take_succ_cons, List.take_succ_cons, List.take_succ_cons,
        ← List.prefix_iff_eq_take.mp (List.takeWhile_prefix _)] at hc
      rcases hc with _ | ⟨_, _ | ⟨_, _ | ⟨_, hc⟩⟩⟩
      · decide
      · exact hradix
      · exact hall c hd
      · have := List.mem_takeWhile_imp hc
        simp only [Bool.or_eq_true, beq_iff_eq] at this
        rcases this with h | rfl
        · exact hall c h
        · decide
    · cases hr

end SqlFormat.Scan
