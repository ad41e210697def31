import Mathlib
import SqlFormat.Checked.Scan
import SqlFormat.Proofs.Checked.Bytes
import SqlFormat.Proofs.Checked.Fault
import SqlFormat.Proofs.Token.Operator

/-!
# The scans of bytes ask for no byte that is not there

Every scan gives a number, and it is the one that the scan of the list of the bytes gives. Nothing is
asked of the bytes here: they need not be the bytes of a text.

Results: `word_eq`, `number_eq`, `string_eq`, `dollarString?_eq`, `blockComment_eq`,
`compoundOperator_eq`.
-/

namespace SqlFormat.Checked.Scan

open SqlFormat.Scan Text Bytes

variable {bytes : Bytes}

/-- Going on takes the bytes that satisfy `p`. -/
theorem skip_eq {p : Nat → Char → Bool} {q : Char → Bool} {i : Nat} (hp : ∀ j ≥ i, p j = q) :
    skip bytes p i = .ok (i + ((bytes.chars.drop i).takeWhile q).length) := by
  fun_induction skip bytes p i with
  | case1 i h ih =>
    obtain ⟨b, hb, hdrop⟩ := drop_chars_of_lt h
    rw [Bytes.element_eq hb, ok_bind, hdrop, hp i (Nat.le_refl i), List.takeWhile_cons]
    split
    · rw [ih fun j hj => hp j (by omega), List.length_cons]
      congr 1
      omega
    · rfl
  | case2 i h => rw [drop_chars_of_le h]; rfl

/-- The place of the first byte that does not satisfy `p`, or the end. -/
theorem position?_getD (p : Char → Bool) :
    (bytes.position? fun b => !p b).getD bytes.size = (bytes.chars.takeWhile p).length := by
  rw [position?_eq, ← length_chars]
  induction bytes.chars with
  | nil => rfl
  | cons c cs ih =>
    rw [List.findIdx?_cons, List.takeWhile_cons]
    cases p c with
    | false => rfl
    | true =>
      simp only [Bool.not_true, Bool.false_eq_true, if_false, if_true, List.length_cons, ← ih]
      cases cs.findIdx? fun b => !p b <;> rfl

theorem blanks_eq : blanks bytes = SqlFormat.Scan.blanks bytes.chars :=
  position?_getD isBlank

theorem lineComment_eq : lineComment bytes = SqlFormat.Scan.lineComment bytes.chars := by
  have hfeed : (fun b : Char => b == '\n') = fun b => !(b != '\n') := by
    funext b
    rw [bne, Bool.not_not]
  rw [lineComment, SqlFormat.Scan.lineComment, hfeed, position?_getD]

/-! ## Words -/

theorem word_eq : word bytes = .ok (SqlFormat.Scan.word bytes.chars) := by
  rw [word, skip]
  split
  · next h =>
    obtain ⟨b, hb, hdrop⟩ := drop_chars_of_lt h
    rw [List.drop_zero] at hdrop
    rw [Bytes.element_eq hb, ok_bind, hdrop, SqlFormat.Scan.word]
    simp only [Nat.lt_irrefl, decide_false, Bool.and_false, Bool.or_false]
    split
    · rw [skip_eq (q := fun b => isWordChar b || b == '$')]
      intro j hj
      funext b
      rw [decide_eq_true (by omega : 0 < j), Bool.and_true]
    · rfl
  · next h =>
    have hdrop := drop_chars_of_le h
    rw [List.drop_zero] at hdrop
    rw [hdrop]
    rfl

/-! ## Numbers -/

theorem digits_eq (i : Nat) :
    digits bytes i = .ok (i + SqlFormat.Scan.digits (bytes.chars.drop i)) :=
  skip_eq fun _ _ => rfl

theorem radixNumber?_eq (h : 0 < bytes.size) :
    radixNumber? bytes = .ok (SqlFormat.Scan.radixNumber? bytes.chars) := by
  have hskip : ∀ radix, skip bytes (fun _ b => isRadixDigit radix b || b == '_') 2 =
      .ok (2 + ((bytes.chars.drop 2).takeWhile fun b => isRadixDigit radix b || b == '_').length) :=
    fun radix => skip_eq fun _ _ => rfl
  have hsize := length_chars bytes
  have hbyte := fun i c => @Bytes.element_eq bytes i c
  simp only [radixNumber?, hskip, ← hsize]
  cases hcs : bytes.chars with
  | nil =>
    rw [hcs, List.length_nil] at hsize
    omega
  | cons a rest =>
    rw [hcs] at hbyte
    rw [hbyte 0 a rfl, ok_bind]
    by_cases ha : a = '0'
    · subst ha
      match rest with
      | radix :: d :: cs =>
        rw [hbyte 1 radix rfl, hbyte 2 d rfl, SqlFormat.Scan.radixNumber?]
        simp only [ok_bind, pure_eq, List.drop_succ_cons, List.drop_zero, List.length_cons]
        rw [if_pos (by simp)]
        split
        · next hd =>
          rw [List.takeWhile_cons_of_pos (by rw [hd, Bool.true_or]), List.length_cons]
          congr 2
          omega
        · rfl
      | [] => rfl
      | [b] => rfl
    · rw [if_neg (by simp [ha]), SqlFormat.Scan.radixNumber?]
      · rfl
      · rintro radix d cs h
        exact ha (List.cons.inj h).1

theorem fraction_eq (i : Nat) :
    fraction bytes i = .ok (i + SqlFormat.Scan.fraction (bytes.chars.drop i)) := by
  rw [fraction]
  split
  · next h =>
    obtain ⟨b, hb, hdrop⟩ := drop_chars_of_lt h
    rw [Bytes.element_eq hb, ok_bind, digits_eq, char?_eq, hdrop]
    have hnext : bytes.chars[i + 1]? = (bytes.chars.drop (i + 1)).head? := by
      rw [List.head?_drop]
    rw [hnext]
    generalize bytes.chars.drop (i + 1) = cs
    by_cases hdot : b = '.'
    · subst hdot
      by_cases htwo : cs.head? = some '.'
      · obtain ⟨rest, rfl⟩ : ∃ rest, cs = '.' :: rest := by
          cases cs with
          | nil => cases htwo
          | cons c rest => exact ⟨rest, by rw [Option.some.inj htwo]⟩
        rfl
      · rw [if_pos (by simp [htwo]), SqlFormat.Scan.fraction]
        · congr 1
          omega
        · rintro rest rfl
          exact htwo rfl
    · rw [if_neg (by simp [hdot]), SqlFormat.Scan.fraction]
      · rfl
      · rintro rest h
        exact hdot (List.cons.inj h).1
      · rintro rest h
        exact hdot (List.cons.inj h).1
  · next h => rw [drop_chars_of_le h]; rfl

theorem sign_eq (i : Nat) :
    sign bytes i = .ok (i +
      if (bytes.chars.drop i).head?.any fun c => c == '+' || c == '-' then 1 else 0) := by
  rw [sign]
  split
  · next h =>
    obtain ⟨b, hb, hdrop⟩ := drop_chars_of_lt h
    rw [Bytes.element_eq hb, ok_bind, hdrop, List.head?_cons, Option.any_some]
    split <;> rfl
  · next h => rw [drop_chars_of_le h]; rfl

theorem exponent_eq (i : Nat) :
    exponent bytes i = .ok (i + SqlFormat.Scan.exponent (bytes.chars.drop i)) := by
  rw [exponent]
  split
  · next h =>
    obtain ⟨e, he, hdrop⟩ := drop_chars_of_lt h
    rw [Bytes.element_eq he, ok_bind, hdrop, SqlFormat.Scan.exponent]
    split
    · rw [sign_eq, ok_bind]
      generalize (if (bytes.chars.drop (i + 1)).head?.any fun c => c == '+' || c == '-' then 1
        else 0) = signs
      simp only [List.drop_drop]
      split
      · next hlt =>
        obtain ⟨d, hd, hrest⟩ := drop_chars_of_lt hlt
        rw [Bytes.element_eq hd, ok_bind, digits_eq, hrest, List.head?_cons, Option.any_some]
        split
        · congr 1
          omega
        · rfl
      · next hle => rw [drop_chars_of_le hle]; rfl
    · rfl
  · next h => rw [drop_chars_of_le h]; rfl

theorem number_eq : number bytes = .ok (SqlFormat.Scan.number bytes.chars) := by
  rw [number]
  split
  · next h =>
    rw [← length_chars] at h
    rw [List.length_eq_zero_iff.mp h]
    rfl
  · next h =>
    rw [radixNumber?_eq (Nat.pos_of_ne_zero h), ok_bind, SqlFormat.Scan.number]
    cases SqlFormat.Scan.radixNumber? bytes.chars with
    | some n => rfl
    | none =>
      simp only [digits_eq, ok_bind, fraction_eq, exponent_eq, Nat.zero_add, List.drop_zero,
        Option.getD_none, decimal]

/-! ## Strings -/

/-- What stands before and at the first element that satisfies `p`. -/
theorem exists_of_findIdx? {p : Char → Bool} {cs : List Char} {k : Nat}
    (h : cs.findIdx? p = some k) : ∃ before c after, cs = before ++ c :: after ∧
      before.length = k ∧ (∀ b ∈ before, p b = false) ∧ p c = true := by
  obtain ⟨hk, hp, hbefore⟩ := List.findIdx?_eq_some_iff_getElem.mp h
  refine ⟨cs.take k, cs[k], cs.drop (k + 1), ?_, by simp; omega, fun b hb => ?_, hp⟩
  · rw [← List.drop_eq_getElem_cons hk, List.take_append_drop]
  · obtain ⟨j, hj, rfl⟩ := List.mem_take_iff_getElem.mp hb
    simpa using hbefore j (by omega)

theorem stringFrom_past (style : StringStyle) {i : Nat} (h : bytes.size ≤ i) :
    stringFrom style bytes i = .ok bytes.size := by
  rw [stringFrom, if_neg (Nat.not_lt.mpr h)]
  rfl

/-- What the scan of a string does at a byte that it looks at closer. -/
theorem atMark_eq {style : StringStyle} {pos : Nat} {c : Char} {after : List Char}
    (hdrop : bytes.chars.drop pos = c :: after)
    (hmark : (c == style.closing || (style.backslash && c == '\\')) = true)
    (hskip : ∀ d rest, after = d :: rest →
      stringFrom style bytes (pos + 2) = .ok (pos + 2 + stringBody style rest)) :
    (do
      let found ← bytes.element pos
      if found == '\\' && style.backslash then stringFrom style bytes (pos + 2)
      else if bytes.char? (pos + 1) == some style.closing then stringFrom style bytes (pos + 2)
      else return pos + 1) = .ok (pos + stringBody style (c :: after)) := by
  have hget : ∀ m, bytes.chars[pos + m]? = (c :: after)[m]? := by
    intro m
    rw [← List.getElem?_drop, hdrop]
  have hsize : bytes.size = pos + 1 + after.length := by
    have h := congrArg List.length hdrop
    rw [List.length_drop, length_chars, List.length_cons] at h
    omega
  rw [Bytes.element_eq (i := pos) (c := c) (hget 0), ok_bind, char?_eq, hget 1]
  cases after with
  | nil =>
    rw [stringFrom_past style (by simp [hsize]), stringBody, hsize]
    split <;> rfl
  | cons d rest =>
    rw [hskip d rest rfl, stringBody, Bool.and_comm]
    split
    · rw [Nat.add_assoc]
    · next hescape =>
      have hclosing : (c == style.closing) = true := by
        simpa [hescape] using hmark
      have hnext : ((c :: d :: rest)[1]? == some style.closing) = (d == style.closing) := rfl
      rw [if_pos hclosing, hnext]
      cases d == style.closing with
      | true => exact congrArg Except.ok (Nat.add_assoc pos 2 _)
      | false => rfl

/-- The scan of a string stops where the scan of its list stops. -/
theorem stringFrom_eq (style : StringStyle) (i : Nat) (hi : i ≤ bytes.size) :
    stringFrom style bytes i = .ok (i + stringBody style (bytes.chars.drop i)) := by
  induction hn : bytes.size - i using Nat.strong_induction_on generalizing i with
  | _ n ih =>
    rcases Nat.eq_or_lt_of_le hi with rfl | hlt
    · rw [stringFrom_past style (Nat.le_refl _), drop_chars_of_le (Nat.lt_irrefl _)]
      rfl
    · rw [stringFrom, if_pos hlt, since_eq (length_chars bytes ▸ hi), ok_bind, position?_eq,
        chars_drop]
      have hlength : (bytes.chars.drop i).length = bytes.size - i := by simp
      split
      · next hnone =>
        have hplain := @stringBody_plain style [] (bytes.chars.drop i)
          fun b hb => by simpa using List.findIdx?_eq_none_iff.mp hnone b hb
        rw [List.append_nil, hlength, stringBody] at hplain
        rw [hplain, pure_eq]
        congr 1
        omega
      · next k hfind =>
        obtain ⟨before, c, after, hsplit, rfl, hbefore, hmark⟩ := exists_of_findIdx? hfind
        have hdrop : bytes.chars.drop (i + before.length) = c :: after := by
          rw [← List.drop_drop, hsplit, List.drop_left]
        have hplain := @stringBody_plain style (c :: after) before
          fun b hb => by simpa using hbefore b hb
        rw [hsplit, hplain, ← Nat.add_assoc]
        refine atMark_eq hdrop hmark ?_
        rintro d rest rfl
        have hsize : bytes.size = i + before.length + 2 + rest.length := by
          rw [hsplit] at hlength
          simp only [List.length_append, List.length_cons] at hlength
          omega
        rw [ih _ (by omega) (i + before.length + 2) (by omega) rfl, ← List.drop_drop, hdrop]
        rfl

/-- The length of a string is that of the scan of the list. -/
theorem string_eq (style : StringStyle) (h : 0 < bytes.size) :
    string style bytes = .ok (SqlFormat.Scan.string style bytes.chars) :=
  stringFrom_eq style 1 h

/-! ## Dollar-quoted strings and block comments -/

theorem dollarTag?_eq {cs : List Char} (h : bytes.chars = '$' :: cs) :
    ∃ tag, dollarTag? bytes = .ok tag ∧
      tag.map Bytes.chars = SqlFormat.Scan.dollarTag? bytes.chars := by
  have hskip := @skip_eq bytes (fun _ b => b.isAlphanum || b == '_')
    (fun b => b.isAlphanum || b == '_') 1 fun _ _ => rfl
  rw [dollarTag?, hskip, ok_bind, h, SqlFormat.Scan.dollarTag?]
  simp only [List.drop_succ_cons, List.drop_zero]
  generalize hname : cs.takeWhile (fun c => c.isAlphanum || c == '_') = name
  obtain ⟨after, rfl⟩ : ∃ after, cs = name ++ after := by
    rw [← hname]
    exact ⟨_, (List.takeWhile_append_dropWhile).symm⟩
  have hsize : bytes.size = 1 + name.length + after.length := by
    rw [← length_chars, h, List.length_cons, List.length_append]
    omega
  rw [List.drop_left]
  cases after with
  | nil =>
    rw [if_neg (by rw [hsize]; simp)]
    exact ⟨none, rfl, rfl⟩
  | cons d rest =>
    rw [List.length_cons] at hsize
    have hd : bytes.chars[1 + name.length]? = some d := by
      rw [h, Nat.add_comm, List.getElem?_cons_succ, List.getElem?_append_right (Nat.le_refl _)]
      simp
    obtain ⟨second, hsecond⟩ : ∃ second, bytes.chars[1]? = some second :=
      ⟨_, List.getElem?_eq_getElem (by rw [length_chars]; omega)⟩
    -- without a name the second byte is the one behind the tag, which the bound on it leaves out
    have hdigit : (decide (1 < 1 + name.length) && second.isDigit) = name.head?.any Char.isDigit := by
      cases name with
      | nil => simp
      | cons c name =>
        rw [h] at hsecond
        obtain rfl : c = second := by simpa using hsecond
        simp
    rw [if_pos (by omega), Bytes.element_eq hd, ok_bind, Bytes.element_eq hsecond, ok_bind, hdigit,
      List.head?_cons]
    by_cases htag : d = '$' ∧ name.head?.any Char.isDigit = false
    · obtain ⟨rfl, hany⟩ := htag
      rw [if_neg (by simp [hany]), before_eq (by rw [length_chars]; omega), if_pos (by simp [hany])]
      refine ⟨some (bytes.take (1 + name.length + 1)), rfl, ?_⟩
      rw [Option.map_some, chars_take, h, Nat.add_comm 1, List.take_succ_cons, List.take_append]
      simp
    · rw [if_pos (by grind), if_neg (by grind)]
      exact ⟨none, rfl, rfl⟩

theorem dollarString?_eq {cs : List Char} (h : bytes.chars = '$' :: cs) :
    dollarString? bytes = .ok (SqlFormat.Scan.dollarString? bytes.chars) := by
  obtain ⟨tag, htag, hchars⟩ := dollarTag?_eq h
  rw [dollarString?, htag, ok_bind, SqlFormat.Scan.dollarString?, ← hchars]
  cases tag with
  | none => rfl
  | some tag =>
    have hle : tag.size ≤ bytes.chars.length := by
      have hprefix := SqlFormat.Scan.isPrefix_of_dollarTag? hchars.symm
      rw [← length_chars]
      exact hprefix.length_le
    have hfind := find?_eq (bytes.drop tag.size) tag.chars
    rw [chars_drop, ← length_chars (bytes.drop _), chars_drop, List.length_drop] at hfind
    simp only [since_eq hle, ok_bind, Option.map_some, length_chars] at hfind ⊢
    rw [← hfind]
    cases (bytes.drop tag.size).find? tag.chars with
    | none =>
      simp only [Option.map_none, Option.getD_none, pure_eq]
      rw [length_chars] at hle
      congr 2
      omega
    | some offset =>
      simp only [Option.map_some, Option.getD_some, pure_eq]
      congr 2
      omega

theorem blockComment_eq (h : 2 ≤ bytes.size) :
    blockComment bytes = .ok (SqlFormat.Scan.blockComment bytes.chars) := by
  have hfind := find?_eq (bytes.drop 2) ['*', '/']
  rw [← length_chars (bytes.drop 2), chars_drop, List.length_drop, length_chars] at hfind
  rw [blockComment, since_eq (by rw [length_chars]; exact h), ok_bind, SqlFormat.Scan.blockComment,
    ← hfind]
  cases (bytes.drop 2).find? ['*', '/'] with
  | none =>
    simp only [Option.map_none, Option.getD_none, pure_eq]
    congr 1
    omega
  | some offset =>
    simp only [Option.map_some, Option.getD_some, pure_eq, List.length_cons, List.length_nil]
    congr 1
    omega

/-! ## Operators -/

/-- No operator of several characters holds a character that no text is asked for. -/
theorem not_isTriple_zero (a b : Char) : isTriple [a, b, '\x00'] = false := by
  refine Bool.eq_false_iff.mpr fun h => ?_
  have hzero := isTriple_imp (p := ('\x00' ∉ ·)) (forall_mem_of_all (by decide)) h
  exact hzero (by simp)

theorem compoundOperator_eq :
    compoundOperator bytes = .ok (SqlFormat.Scan.compoundOperator bytes.chars) := by
  have hsize := length_chars bytes
  have hbyte := fun i c => @Bytes.element_eq bytes i c
  rw [compoundOperator, char?_eq, ← hsize]
  have htriple : ∀ {l : List Char}, l.length ≠ 3 → isTriple l = false :=
    fun hne => Bool.eq_false_iff.mpr fun h => hne (isTriple_length h)
  have hdouble : ∀ {l : List Char}, l.length ≠ 2 → isDouble l = false :=
    fun hne => Bool.eq_false_iff.mpr fun h => hne (isDouble_length h)
  match hcs : bytes.chars with
  | [] => rfl
  | [a] =>
    rw [if_pos (by simp), SqlFormat.Scan.compoundOperator_eq, htriple (by simp), hdouble (by simp)]
    rfl
  | a :: b :: cs =>
    rw [hcs] at hbyte
    rw [if_neg (by simp), hbyte 1 b rfl, ok_bind, hbyte 0 a rfl, ok_bind, pure_eq,
      SqlFormat.Scan.compoundOperator_eq, SqlFormat.Scan.compoundOperator_eq]
    cases cs with
    | nil =>
      have hshort : isTriple [a, b] = false := htriple (by simp)
      simp [not_isTriple_zero, hshort]
    | cons c cs => rfl

end SqlFormat.Checked.Scan
