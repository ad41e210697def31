import Mathlib
import SqlFormat.Checked.Lexer
import SqlFormat.Proofs.Checked.Offsets
import SqlFormat.Proofs.Checked.Scan
import SqlFormat.Proofs.Text.Utf8
import SqlFormat.Proofs.Token.Keyword

/-!
# Words and keywords in bytes

The words of a phrase are found in the bytes of a text where they stand in the text. The key of a word
outside ASCII is not the same in bytes, and no table holds either.

Results: `phrases_bytesOf`, `keyword?_bytesOf` (the phrases of the bytes), `longest?_eq` (the index
loops find the same), `nextWord?_eq`, `refine_eq`.
-/

namespace SqlFormat

open Text Scan

variable {cs : List Char}

/-! ## Phrases of the bytes of a text -/

namespace Scan

/-- A letter outside ASCII has no case here, and neither have its bytes. -/
theorem map_toLower_bytesOf (cs : List Char) :
    (bytesOf cs).map Char.toLower = bytesOf (cs.map Char.toLower) := by
  have hlarge : ∀ c : Char, 128 ≤ c.toNat → c.toLower = c := by
    refine fun c hc => toLower_of_not_isUpper fun h => ?_
    have : c.toNat < 128 :=
      isKeywordChar_lt (by simp [isKeywordChar, Char.isAlphanum, Char.isAlpha, h])
    omega
  have hsmall : ∀ c : Char, c.toNat < 128 → c.toLower.toNat < 128 := fun c =>
    ascii_induction (p := fun c => c.toLower.toNat < 128) (by decide)
  induction cs with
  | nil => rfl
  | cons c cs ih =>
    rw [bytesOf_cons, List.map_append, ih, List.map_cons, bytesOf_cons c.toLower]
    congr 1
    rcases Nat.lt_or_ge c.toNat 128 with hascii | hc
    · rw [bytesOf_ascii hascii, bytesOf_ascii (hsmall c hascii)]
      rfl
    · rw [hlarge c hc]
      rw [List.map_congr_left fun b hb => hlarge b (le_of_mem_bytesOf hc b hb), List.map_id']

theorem blanks_ne_zero (cs : List Char) : (blanks cs != 0) = cs.head?.any isBlank := by
  cases cs with
  | nil => rfl
  | cons c cs =>
    rw [blanks, List.takeWhile_cons, List.head?_cons, Option.any_some]
    cases isBlank c <;> rfl

end Scan

namespace Lexer

theorem phrases_bytesOf (n : Nat) (cs : List Char) :
    phrases n (bytesOf cs) = (phrases n cs).map fun p => (bytesOf p.1, offset cs p.2) := by
  induction n generalizing cs with
  | zero => rfl
  | succ n ih =>
    have hspace : (' ' : Char).toNat < 128 := by decide
    simp only [phrases]
    rw [word_bytesOf, take_bytesOf, map_toLower_bytesOf, drop_bytesOf, blanks_bytesOf, drop_bytesOf,
      ← blanks_bytesOf, blanks_ne_zero, blanks_ne_zero, any_head?_bytesOf blind_isBlank,
      any_head?_bytesOf blind_isAlpha]
    split
    · rw [ih, List.map_cons, List.map_map, List.map_map]
      congr 1
      refine List.map_congr_left fun p _ => ?_
      simp only [Function.comp]
      rw [bytesOf_append, bytesOf_ascii_cons hspace, offset_add, offset_add, blanks_bytesOf,
        List.drop_drop]
    · rfl

/-- A phrase of a table is ASCII, so that its bytes are looked up as it is. -/
theorem classify_bytesOf (dialect : Dialect) (key : List Char) :
    dialect.lexicon.classify (.ofList (bytesOf key)) =
      dialect.lexicon.classify (.ofList key) ∧
    (dialect.lexicon.classify (.ofList key) ≠ none → bytesOf key = key) := by
  have hknown : ∀ {k : List Char}, dialect.lexicon.classify (.ofList k) ≠ none →
      ∀ c ∈ k, c.toNat < 128 := by
    intro k hk c hc
    obtain ⟨kind, hkind⟩ := Option.ne_none_iff_exists'.mp hk
    have hplain := dialect.isPlainPhrase hkind
    rw [isPlainPhrase, String.toList_ofList, List.all_eq_true] at hplain
    have hchar := hplain c hc
    rw [Bool.or_eq_true, beq_iff_eq] at hchar
    rcases hchar with hchar | rfl
    · exact isKeywordChar_lt hchar
    · decide
  have hself : dialect.lexicon.classify (.ofList key) ≠ none → bytesOf key = key :=
    fun h => bytesOf_eq_self (hknown h)
  refine ⟨?_, hself⟩
  by_cases h : dialect.lexicon.classify (.ofList key) = none
  · rw [h]
    by_contra hbytes
    -- A character outside ASCII leaves its bytes in the key.
    have hall : ∀ c ∈ key, c.toNat < 128 := by
      intro c hc
      by_contra hlarge
      obtain ⟨a, b, rfl⟩ := List.append_of_mem hc
      have hpos : 0 < (bytesOf [c]).length := by
        rw [length_bytesOf]
        exact c.utf8Size_pos
      obtain ⟨x, hx⟩ := List.exists_mem_of_length_pos hpos
      have := hknown hbytes x (by
        rw [bytesOf_append, bytesOf_cons]
        simp [hx])
      have := le_of_mem_bytesOf (Nat.le_of_not_lt hlarge) x hx
      omega
    rw [bytesOf_eq_self hall] at hbytes
    exact hbytes h
  · rw [hself h]

/-- The longest keyword of the bytes is that of the text. -/
theorem keyword?_bytesOf (dialect : Dialect) (cs : List Char) :
    keyword? dialect.lexicon (bytesOf cs) =
      (keyword? dialect.lexicon cs).map fun found => (found.1, found.2.1, offset cs found.2.2) := by
  rw [keyword?, keyword?, phrases_bytesOf, ← List.map_reverse, List.findSome?_map,
    List.map_findSome?]
  congr 1
  funext ⟨key, length⟩
  obtain ⟨hclassify, hself⟩ := classify_bytesOf dialect key
  simp only [Function.comp]
  rw [hclassify]
  cases h : dialect.lexicon.classify (.ofList key) with
  | none => rfl
  | some kind =>
    rw [hself (by simp [h])]
    rfl

end Lexer


/-! ## The index loops -/

namespace Checked

open Bytes

variable {rest after : Bytes} {dialect : Dialect}

theorem toUInt8_ofUInt8 (b : UInt8) : (Char.ofUInt8 b).toUInt8 = b := by
  apply UInt8.toNat_inj.mp
  rw [Char.toUInt8, Char.ofUInt8]
  simp

/-- The bytes behind their characters. -/
theorem map_toUInt8_chars (bytes : Bytes) : bytes.chars.map Char.toUInt8 = bytes.toList := by
  rw [chars, List.map_map]
  exact (List.map_congr_left fun b _ => toUInt8_ofUInt8 b).trans (List.map_id' _)

theorem map_toUInt8_bytesOf (cs : List Char) :
    (bytesOf cs).map Char.toUInt8 = cs.flatMap String.utf8EncodeChar := by
  simp only [bytesOf, List.map_flatMap, List.map_map]
  refine congrArg (List.flatMap · cs) (funext fun c => ?_)
  exact (List.map_congr_left fun b _ => toUInt8_ofUInt8 b).trans (List.map_id' _)

/-- Bytes of a text are read as that text. -/
theorem decodeLossy_toList {bytes : Bytes} (h : bytes.chars = bytesOf cs) :
    decodeLossy bytes.toList = .ofList cs := by
  rw [← map_toUInt8_chars, h, map_toUInt8_bytesOf, decodeLossy_encode]

namespace Lexer

open SqlFormat.Lexer

/-- A word of a phrase, in lower case. -/
def wordOf (chars : List Char) (span : Nat × Nat) : List Char :=
  ((chars.take span.2).drop span.1).map Char.toLower

/-- The key of the phrase that words make. -/
def phraseOf (chars : List Char) (spans : List (Nat × Nat)) : List Char :=
  [' '].intercalate (spans.map (wordOf chars))

/-- The words stand inside the bytes. -/
def Inside (chars : List Char) (spans : List (Nat × Nat)) : Prop :=
  ∀ span ∈ spans, span.1 ≤ span.2 ∧ span.2 ≤ chars.length

theorem keyOf_eq {spans : List (Nat × Nat)} (h : Inside rest.chars spans) :
    keyOf rest spans = .ok (.ofList (phraseOf rest.chars spans)) := by
  have hwords : spans.mapM (m := Checked) (fun span : Nat × Nat => do
      return (← rest.part span.1 span.2).chars.map Char.toLower) =
        .ok (spans.map (wordOf rest.chars)) := by
    induction spans with
    | nil => rfl
    | cons span spans ih =>
      obtain ⟨hle, hstop⟩ := h span List.mem_cons_self
      rw [List.mapM_cons, ih fun s hs => h s (List.mem_cons_of_mem _ hs)]
      simp only [Bytes.part_eq hle hstop, ok_bind, pure_eq, List.map_cons, chars_drop, chars_take]
      rfl
  exact congrArg (· >>= fun words => pure (String.ofList ([' '].intercalate words))) hwords

/-- The words of the phrases that stand at a place of the bytes, up to `n` of them. -/
structure Spans (chars : List Char) (n start : Nat) (spans : List (Nat × Nat)) : Prop where
  inside : Inside chars spans
  length : spans.length = (phrases n (chars.drop start)).length
  phrase : ∀ (k : Nat) (p : List Char × Nat), (phrases n (chars.drop start))[k]? = some p →
    p.1 = phraseOf chars (spans.take (k + 1)) ∧ spans[k]?.map Prod.snd = some (start + p.2)

theorem wordOf_first (chars : List Char) (start : Nat) :
    wordOf chars (start, start + SqlFormat.Scan.word (chars.drop start)) =
      ((chars.drop start).take (SqlFormat.Scan.word (chars.drop start))).map Char.toLower := by
  rw [wordOf, List.drop_take, Nat.add_sub_cancel_left]

theorem phraseOf_cons (chars : List Char) (span : Nat × Nat) {spans : List (Nat × Nat)}
    (h : spans ≠ []) :
    phraseOf chars (span :: spans) = wordOf chars span ++ ' ' :: phraseOf chars spans := by
  obtain ⟨next, spans, rfl⟩ := List.exists_cons_of_ne_nil h
  rw [phraseOf, phraseOf, List.map_cons, List.map_cons, List.intercalate_cons_cons]
  simp

/-- One word alone. -/
theorem Spans.single {chars : List Char} {n start : Nat} (hstart : start ≤ chars.length)
    (h : continued n ((chars.drop start).drop (SqlFormat.Scan.word (chars.drop start))) = []) :
    Spans chars (n + 1) start [(start, start + SqlFormat.Scan.word (chars.drop start))] := by
  have hword := SqlFormat.Scan.word_le (chars.drop start)
  rw [List.length_drop] at hword
  constructor
  case inside =>
    intro span hspan
    rw [List.mem_singleton] at hspan
    subst hspan
    exact ⟨Nat.le_add_right _ _, by simp only; omega⟩
  case length => rw [phrases_succ, h]; rfl
  case phrase =>
    intro k p hp
    rw [phrases_succ, h, List.map_nil] at hp
    cases k with
    | zero =>
      obtain rfl := Option.some.inj hp
      refine ⟨?_, rfl⟩
      rw [List.take_succ_cons, phraseOf, List.take_nil, List.map_cons, List.map_nil, wordOf_first]
      simp
    | succ k => cases hp

/-- A word before others. -/
theorem Spans.cons {chars : List Char} {n start gap : Nat} {spans : List (Nat × Nat)}
    (hgap : SqlFormat.Scan.blanks
      ((chars.drop start).drop (SqlFormat.Scan.word (chars.drop start))) = gap)
    (hcontinued : continued (n + 1) ((chars.drop start).drop
      (SqlFormat.Scan.word (chars.drop start))) =
        phrases (n + 1) (chars.drop (start + SqlFormat.Scan.word (chars.drop start) + gap)))
    (h : Spans chars (n + 1) (start + SqlFormat.Scan.word (chars.drop start) + gap) spans)
    (hstart : start ≤ chars.length) :
    Spans chars (n + 2) start
      ((start, start + SqlFormat.Scan.word (chars.drop start)) :: spans) := by
  have hword := SqlFormat.Scan.word_le (chars.drop start)
  rw [List.length_drop] at hword
  constructor
  case inside =>
    refine List.forall_mem_cons.mpr ⟨⟨Nat.le_add_right _ _, ?_⟩, h.inside⟩
    simp only
    omega
  case length =>
    rw [phrases_succ, hcontinued, List.length_cons, List.length_cons, List.length_map, h.length]
  case phrase =>
    intro k p hp
    rw [phrases_succ, hcontinued, hgap] at hp
    cases k with
    | zero =>
      obtain rfl := Option.some.inj hp
      refine ⟨?_, rfl⟩
      rw [List.take_succ_cons, phraseOf, List.take_zero, List.map_cons, List.map_nil, wordOf_first]
      simp
    | succ k =>
      rw [List.getElem?_cons_succ, List.getElem?_map, Option.map_eq_some_iff] at hp
      obtain ⟨q, hq, rfl⟩ := hp
      obtain ⟨hkey, hlength⟩ := h.phrase k q hq
      -- a phrase of one word more, which is put before those of the spans that follow
      have hne : spans.take (k + 1) ≠ [] := by
        rintro hnil
        rw [List.take_eq_nil_iff] at hnil
        rcases hnil with hnil | rfl
        · omega
        · cases hlength
      constructor
      · rw [List.take_succ_cons, phraseOf_cons _ _ hne, wordOf_first, ← hkey]
      · rw [List.getElem?_cons_succ, hlength]
        congr 1
        simp only
        omega

theorem gapFrom_eq {stop : Nat} (h : stop ≤ rest.chars.length) :
    gapFrom rest stop = .ok (SqlFormat.Scan.blanks (rest.chars.drop stop)) := by
  have hposition := @Scan.blanks_eq (rest.drop stop)
  rw [Scan.blanks, chars_drop] at hposition
  rw [gapFrom, since_eq h, ok_bind, ← hposition]
  cases (rest.drop stop).position? fun b => !isBlank b with
  | some gap => rfl
  | none =>
    simp only [Option.getD_none]
    rw [minus_eq (by rwa [← length_chars]), ← length_chars (rest.drop stop), chars_drop,
      List.length_drop, length_chars]

/-- The words after the first are found where the phrases go on. -/
theorem spansFrom_eq (n : Nat) {start : Nat} (hstart : start ≤ rest.chars.length) :
    ∃ spans, spansFrom rest n (start + SqlFormat.Scan.word (rest.chars.drop start)) = .ok spans ∧
      Spans rest.chars (n + 1) start
        ((start, start + SqlFormat.Scan.word (rest.chars.drop start)) :: spans) := by
  -- on the number of words that may follow, for the first one may start anywhere
  induction n generalizing start with
  | zero =>
    refine ⟨[], rfl, .single hstart ?_⟩
    rw [continued]
    split <;> rfl
  | succ n ih =>
    have hword := SqlFormat.Scan.word_le (rest.chars.drop start)
    rw [List.length_drop] at hword
    generalize hstop : start + SqlFormat.Scan.word (rest.chars.drop start) = stop at ih ⊢
    have hafter : (rest.chars.drop start).drop (SqlFormat.Scan.word (rest.chars.drop start)) =
        rest.chars.drop stop := by
      rw [List.drop_drop, hstop]
    have hle : stop ≤ rest.chars.length := by omega
    have hgap := @gapFrom_eq rest stop hle
    have hblanks := SqlFormat.Scan.blanks_le (rest.chars.drop stop)
    rw [List.length_drop] at hblanks
    generalize hcount : SqlFormat.Scan.blanks (rest.chars.drop stop) = gap at hgap hblanks
    rw [spansFrom, hgap, ok_bind]
    have hcontinued : continued (n + 1) ((rest.chars.drop start).drop
        (SqlFormat.Scan.word (rest.chars.drop start))) =
          if gap != 0 && (rest.chars.drop (stop + gap)).head?.any Char.isAlpha then
            phrases (n + 1) (rest.chars.drop (stop + gap)) else [] := by
      rw [hafter, continued, hcount, List.drop_drop]
    by_cases hend : gap = 0 ∨ rest.size ≤ stop + gap
    · refine ⟨[], ?_, hstop ▸ .single hstart ?_⟩
      · simp [hend]
      · rw [hcontinued, if_neg]
        rcases hend with rfl | hend
        · simp
        · rw [drop_chars_of_le (by omega)]
          simp
    · obtain ⟨hpos, hlt⟩ := not_or.mp hend
      obtain ⟨letter, hletter, hdrop⟩ := drop_chars_of_lt (Nat.lt_of_not_le hlt)
      simp only [hend, Bool.or_eq_true, decide_eq_true_eq, if_false]
      rw [Bytes.element_eq hletter, ok_bind]
      have hgo : (gap != 0 && (rest.chars.drop (stop + gap)).head?.any Char.isAlpha) =
          letter.isAlpha := by
        rw [hdrop, List.head?_cons, Option.any_some, bne_iff_ne.mpr hpos, Bool.true_and]
      rw [hgo] at hcontinued
      split
      · next halpha =>
        rw [if_pos halpha] at hcontinued
        obtain ⟨spans, hspans, hinside⟩ := @ih (stop + gap) (by omega)
        subst hstop
        refine ⟨_, ?_, Spans.cons (hafter ▸ hcount) hcontinued hinside hstart⟩
        rw [since_eq (by omega), ok_bind, Scan.word_eq, ok_bind, chars_drop, hspans]
        rfl
      · next halpha =>
        rw [if_neg halpha] at hcontinued
        exact ⟨[], rfl, hstop ▸ .single hstart hcontinued⟩

/-- The longest of the first phrases that the tables hold. -/
theorem longest?_upTo {spans : List (Nat × Nat)} (hinside : Inside rest.chars spans) {count : Nat}
    (hcount : count ≤ spans.length) :
    longest? dialect.lexicon rest spans.toArray count =
      .ok ((List.range count).reverse.findSome? fun k =>
        (dialect.lexicon.classify (.ofList (phraseOf rest.chars (spans.take (k + 1))))).map
          (·, .ofList (phraseOf rest.chars (spans.take (k + 1))),
            (spans[k]?.map Prod.snd).getD 0)) := by
  induction count with
  | zero => rfl
  | succ count ih =>
    have hpart : part spans.toArray 0 (count + 1) = .ok (spans.take (count + 1)).toArray := by
      rw [part_eq (Nat.zero_le _) (by simpa using hcount)]
      simp
    have htake : Inside rest.chars (spans.take (count + 1)) :=
      fun span hspan => hinside span (List.mem_of_mem_take hspan)
    have hlast : element spans.toArray count = .ok spans[count] := by
      apply Checked.element_eq
      simp
    rw [longest?, hpart, ok_bind, keyOf_eq htake, ok_bind, hlast, List.range_succ,
      List.reverse_append, List.reverse_singleton, List.singleton_append, List.findSome?_cons,
      List.getElem?_eq_getElem (by omega)]
    cases dialect.lexicon.classify (.ofList (phraseOf rest.chars (spans.take (count + 1)))) with
    | some kind => rfl
    | none => exact ih (by omega)

/-- **Keywords**: the index loops find the longest keyword of the bytes. -/
theorem longest?_eq (bytes : Bytes) : ∃ spans,
    spansFrom bytes (Lexicon.maxPhraseWords - 1) (SqlFormat.Scan.word bytes.chars) = .ok spans ∧
    longest? dialect.lexicon bytes (((0, SqlFormat.Scan.word bytes.chars) :: spans).toArray)
      (spans.length + 1) = .ok (keyword? dialect.lexicon bytes.chars) := by
  obtain ⟨spans, hspans, h⟩ := @spansFrom_eq bytes (Lexicon.maxPhraseWords - 1) 0
    (Nat.zero_le _)
  rw [List.drop_zero, Nat.zero_add] at hspans h
  refine ⟨spans, hspans, ?_⟩
  generalize hall : ((0, SqlFormat.Scan.word bytes.chars) :: spans) = all at h
  have hphrases : phrases Lexicon.maxPhraseWords bytes.chars =
      (List.range all.length).map fun k =>
        (phraseOf bytes.chars (all.take (k + 1)), (all[k]?.map Prod.snd).getD 0) := by
    refine List.ext_getElem? fun k => ?_
    have hlength : all.length = (phrases Lexicon.maxPhraseWords bytes.chars).length := h.length
    rw [List.getElem?_map]
    rcases Nat.lt_or_ge k all.length with hk | hk
    · have hk' : k < (phrases Lexicon.maxPhraseWords bytes.chars).length := hlength ▸ hk
      obtain ⟨hkey, hstop⟩ := h.phrase k _ (by
        rw [List.drop_zero]
        exact List.getElem?_eq_getElem hk')
      rw [List.getElem?_range hk, List.getElem?_eq_getElem hk', Option.map_some, hstop,
        Option.getD_some, Nat.zero_add, ← hkey]
    · rw [List.getElem?_eq_none (by rw [← hlength]; exact hk),
        List.getElem?_eq_none (by rwa [List.length_range])]
      rfl
  have hcount : spans.length + 1 = all.length := by rw [← hall, List.length_cons]
  rw [hcount, longest?_upTo h.inside (Nat.le_refl _), keyword?, hphrases, ← List.map_reverse,
    List.findSome?_map]
  rfl

/-! ## Keywords in their context -/

theorem dropWhile_bytesOf {p : Char → Bool} (hp : Blind p) (cs : List Char) :
    (bytesOf cs).dropWhile p = bytesOf (cs.dropWhile p) := by
  have h := congrArg bytesOf (List.takeWhile_append_dropWhile (p := p) (l := cs))
  have h' := List.takeWhile_append_dropWhile (p := p) (l := bytesOf cs)
  rw [bytesOf_append, ← takeWhile_bytesOf hp] at h
  exact List.append_cancel_left (h'.trans h.symm)

/-- The place of the first byte that is no blank. -/
theorem position?_blank (bytes : Bytes) :
    (bytes.position? fun b => !isBlank b) =
      if SqlFormat.Scan.blanks bytes.chars < bytes.chars.length
        then some (SqlFormat.Scan.blanks bytes.chars) else none := by
  have h := @Scan.position?_getD bytes isBlank
  rw [position?_eq] at h ⊢
  rw [SqlFormat.Scan.blanks, ← h]
  cases hfind : bytes.chars.findIdx? fun b => !isBlank b with
  | none =>
    rw [Option.getD_none, if_neg]
    rw [length_chars]
    omega
  | some i =>
    rw [Option.getD_some, if_pos]
    obtain ⟨hi, -⟩ := List.findIdx?_eq_some_iff_getElem.mp hfind
    exact hi

/-- The next word of the bytes of a text is that of the text. -/
theorem nextWord?_eq {cs : List Char} (h : after.chars = bytesOf cs) :
    Scan.nextWord? after = .ok (SqlFormat.Scan.nextWord? cs) := by
  rw [Scan.nextWord?, position?_blank, SqlFormat.Scan.nextWord?]
  have hdrop : after.chars.drop (SqlFormat.Scan.blanks after.chars) =
      bytesOf (cs.dropWhile isBlank) := by
    rw [← dropWhile_eq_drop, h, dropWhile_bytesOf blind_isBlank]
  by_cases hlt : SqlFormat.Scan.blanks after.chars < after.chars.length
  · rw [if_pos hlt]
    have hne : cs.dropWhile isBlank ≠ [] := by
      rintro hnil
      rw [hnil] at hdrop
      have := List.drop_eq_nil_iff.mp hdrop
      omega
    simp only
    generalize SqlFormat.Scan.blanks after.chars = start at hdrop hlt ⊢
    generalize cs.dropWhile isBlank = tail at hdrop hne ⊢
    have hword := SqlFormat.Scan.word_bytesOf tail
    have hbound := offset_le tail (SqlFormat.Scan.word tail)
    rw [← hdrop, List.length_drop] at hbound
    rw [since_eq (Nat.le_of_lt hlt), ok_bind, Scan.word_eq, chars_drop, hdrop, hword, ok_bind]
    by_cases hzero : SqlFormat.Scan.word tail = 0
    · simp [hzero]
    · have hpos := offset_pos (Nat.pos_of_ne_zero hzero) hne
      rw [if_neg (by omega), if_neg hzero, Bytes.part_eq (Nat.le_add_right _ _) (by omega), ok_bind]
      have hchars : ((after.take (start + offset tail (SqlFormat.Scan.word tail))).drop
          start).chars = bytesOf (tail.take (SqlFormat.Scan.word tail)) := by
        rw [chars_drop, chars_take, List.drop_take, hdrop, Nat.add_sub_cancel_left, take_bytesOf]
      rw [decodeLossy_toList hchars]
      rfl
  · rw [List.drop_eq_nil_of_le (Nat.le_of_not_lt hlt)] at hdrop
    rw [if_neg hlt, length_bytesOf_eq_zero.mp (congrArg List.length hdrop.symm)]
    rfl

/-- `not` has a byte for each of its characters. -/
theorem drop_not {cs : List Char} (h : SqlFormat.Scan.nextWord? cs = some "not") :
    ∃ tail, cs.dropWhile isBlank = tail ∧ 3 ≤ tail.length ∧ offset tail 3 = 3 := by
  rw [SqlFormat.Scan.nextWord?] at h
  refine ⟨_, rfl, ?_⟩
  generalize cs.dropWhile isBlank = tail at h ⊢
  by_cases hzero : SqlFormat.Scan.word tail = 0
  · rw [if_pos hzero] at h
    cases h
  · rw [if_neg hzero] at h
    have hword := congrArg String.toList (Option.some.inj h)
    rw [lowerAscii, String.toList_ofList, String.toList_ofList] at hword
    have hlength := congrArg List.length hword
    have hle := SqlFormat.Scan.word_le tail
    rw [List.length_map, List.length_take, Nat.min_eq_left hle] at hlength
    have hthree : SqlFormat.Scan.word tail = 3 := hlength
    rw [hthree] at hword
    refine ⟨by omega, offset_ascii (fun c hc => ?_) (by omega)⟩
    have hmem : c.toLower ∈ ("not" : String).toList := hword ▸ List.mem_map_of_mem hc
    have hletters : ("not" : String).toList.all isKeywordChar = true := by decide
    exact isKeywordChar_lt (isKeywordChar_of_toLower (List.all_eq_true.mp hletters _ hmem))

theorem existsFollows_eq {cs : List Char} (h : after.chars = bytesOf cs) :
    existsFollows after = .ok (SqlFormat.Lexer.existsFollows cs) := by
  -- Only the checked side is split; the plain one is opened in each case.
  rw [existsFollows, nextWord?_eq h, ok_bind]
  split
  · next hexists =>
    rw [SqlFormat.Lexer.existsFollows, hexists]
    rfl
  · next hnot =>
    obtain ⟨tail, htail, hlength, hoffset⟩ := drop_not hnot
    have hdrop : after.chars.drop (SqlFormat.Scan.blanks after.chars) = bytesOf tail := by
      rw [← dropWhile_eq_drop, h, dropWhile_bytesOf blind_isBlank, htail]
    have hthree : 3 ≤ (bytesOf tail).length := hoffset ▸ offset_le tail 3
    have hlt := congrArg List.length hdrop
    rw [List.length_drop] at hlt
    have hnext : ((after.drop (SqlFormat.Scan.blanks after.chars + 3))).chars =
        bytesOf (tail.drop 3) := by
      rw [chars_drop, ← List.drop_drop, hdrop, ← drop_bytesOf, hoffset]
    rw [SqlFormat.Lexer.existsFollows, hnot, position?_blank, if_pos (by omega), Option.getD_some]
    simp only
    rw [since_eq (by omega), ok_bind, nextWord?_eq hnext, htail]
    rfl
  · next hne hne' =>
    rw [SqlFormat.Lexer.existsFollows]
    split
    · next hexists => exact absurd hexists hne
    · next hnot => exact absurd hnot hne'
    · rfl

theorem opensNothing_eq (memory : Memory) (key : String) {cs : List Char}
    (h : after.chars = bytesOf cs) :
    opensNothing memory key after = .ok (memory.opensNothing key cs) := by
  rw [opensNothing.eq_def]
  split
  · rw [nextWord?_eq h, Memory.opensNothing.eq_def]
    have hnext : ((after.position? fun b => !isBlank b).bind after.char?) =
        (bytesOf (cs.dropWhile isBlank)).head? := by
      rw [← dropWhile_bytesOf blind_isBlank, ← h, dropWhile_eq_drop, List.head?_drop,
        position?_blank]
      split
      · rw [Option.bind_some, char?_eq]
      · next hge => rw [Option.bind_none, List.getElem?_eq_none (Nat.le_of_not_lt hge)]
    have hnone : (bytesOf (cs.dropWhile isBlank)).head?.isNone =
        (cs.dropWhile isBlank).head?.isNone := by
      have hblind := congrArg Option.isNone
        (head?_bytesOf (f := fun _ => ()) (fun _ _ _ _ => rfl) (cs.dropWhile isBlank))
      rwa [Option.isNone_map, Option.isNone_map] at hblind
    simp only [ok_bind, pure_eq]
    rw [hnext, hnone, head?_beq_bytesOf (by decide)]
  · rw [existsFollows_eq h]
    rfl
  · rfl
  · rfl
  · next hbegin hif hwhile hrepeat =>
    rw [Memory.opensNothing.eq_def]
    split
    · exact absurd rfl hbegin
    · exact absurd rfl hif
    · exact absurd rfl hwhile
    · exact absurd rfl hrepeat
    · rfl

theorem refine_eq (memory : Memory) (kind : TokenKind) (key : String) {cs : List Char}
    (h : after.chars = bytesOf cs) :
    refine memory kind key after = .ok (memory.refine kind key cs) := by
  rw [refine, Memory.refine, opensNothing_eq memory key h]
  cases kind == .openParen with
  | false => rfl
  | true =>
    simp only [ok_bind, Bool.true_and, if_true, pure_eq]

end Lexer

end Checked

end SqlFormat
