import Mathlib
import SqlFormat.Proofs.Token.Phrase

/-!
# Keywords as they are written

A keyword is written with one space between its words and its letters in the case that the style
asks for. It is the same phrase then: the tables hold nothing but ASCII words.

Results: `phrased_of_keyword`, `Phrased.respaced`, `Respaced.phraseKey_eq`.
-/

namespace SqlFormat

open Text

/-! ## The tables -/

/-- All phrases that a lexicon knows. -/
def Lexicon.tables (lexicon : Lexicon) : List (List String) :=
  [lexicon.closers.map Prod.fst, lexicon.openers.map Prod.fst] ++ lexicon.topLevel ++
    lexicon.topLevelNoIndent ++ lexicon.newline ++ lexicon.reserved

/-- The phrase is made of keyword characters and spaces. -/
def isPlainPhrase (key : String) : Bool :=
  key.toList.all fun c => isKeywordChar c || c == ' '

theorem Lexicon.mem_tables {lexicon : Lexicon} {key : String} {kind : TokenKind}
    (h : lexicon.classify key = some kind) : ∃ table ∈ lexicon.tables, key ∈ table := by
  have hlookup : ∀ {α : Type} {l : List (String × α)}, (l.lookup key).isSome = true →
      key ∈ l.map Prod.fst := by
    intro α l hl
    obtain ⟨v, hv⟩ := Option.isSome_iff_exists.mp hl
    obtain ⟨l₁, l₂, rfl, _⟩ := List.lookup_eq_some_iff.mp hv
    simp
  have hlayers : ∀ {layers : List (List String)}, inLayers layers key = true →
      ∃ table ∈ layers, key ∈ table := by
    intro layers hl
    simpa [inLayers] using hl
  unfold classify at h
  simp only [tables, List.mem_append, List.mem_cons, List.not_mem_nil, or_false]
  split_ifs at h with h₁ h₂ h₃ h₄ h₅ h₆
  · exact ⟨_, .inl (.inl (.inl (.inl (.inl rfl)))), hlookup h₁⟩
  · obtain ⟨table, hm, hk⟩ := hlayers h₂
    exact ⟨table, .inl (.inl (.inl (.inr hm))), hk⟩
  · obtain ⟨table, hm, hk⟩ := hlayers h₃
    exact ⟨table, .inl (.inl (.inr hm)), hk⟩
  · obtain ⟨table, hm, hk⟩ := hlayers h₄
    exact ⟨table, .inl (.inr hm), hk⟩
  · exact ⟨_, .inl (.inl (.inl (.inl (.inr rfl)))), hlookup h₅⟩
  · obtain ⟨table, hm, hk⟩ := hlayers h₆
    exact ⟨table, .inr hm, hk⟩

namespace Lexicon.Shared

theorem topLevel_plain : topLevel.all isPlainPhrase = true := by decide

theorem topLevelNoIndent_plain : topLevelNoIndent.all isPlainPhrase = true := by decide

theorem newline_plain : newline.all isPlainPhrase = true := by decide

theorem reserved_plain : reserved.all isPlainPhrase = true := by decide

end Lexicon.Shared

/-- The tables of every dialect are plain: those that all share are looked through once. -/
theorem Dialect.tables_plain (dialect : Dialect) :
    dialect.lexicon.tables.all (·.all isPlainPhrase) = true := by
  cases dialect <;>
    simp only [lexicon, Lexicon.standard, Lexicon.postgresql, Lexicon.mysql, Lexicon.sqlite,
      Lexicon.plsql, Lexicon.n1ql, Lexicon.db2, Lexicon.tables, List.cons_append, List.nil_append,
      List.all_cons, Lexicon.Shared.topLevel_plain, Lexicon.Shared.topLevelNoIndent_plain,
      Lexicon.Shared.newline_plain, Lexicon.Shared.reserved_plain] <;>
    decide

theorem Dialect.isPlainPhrase (dialect : Dialect) {key : String} {kind : TokenKind}
    (h : dialect.lexicon.classify key = some kind) : isPlainPhrase key = true := by
  obtain ⟨table, htable, hkey⟩ := Lexicon.mem_tables h
  exact List.all_eq_true.mp (List.all_eq_true.mp dialect.tables_plain table htable) key hkey

namespace Lexer

/-! ## Phrases in a text -/

/-- A text that is a phrase of keyword words, with gaps between them. -/
inductive Phrased : List Char → List (List Char) → Prop
  | word {w : List Char} (hw : IsKeywordWord w) : Phrased w [w]
  | more {w g t : List Char} {ws : List (List Char)} (hw : IsKeywordWord w) (hg : IsGap g)
      (rest : Phrased t ws) : Phrased (w ++ (g ++ t)) (w :: ws)

variable {text t x : List Char} {ws : List (List Char)}

theorem Phrased.ne_nil (h : Phrased t ws) : ws ≠ [] := by
  cases h <;> simp

/-- The first word of a text that starts with a letter, if its characters are those of keywords. -/
theorem isKeywordWord_take (halpha : text.head?.any Char.isAlpha = true)
    (hkey : ∀ c ∈ (text.take (Scan.word text)).map Char.toLower,
      (isKeywordChar c || c == ' ') = true) :
    IsKeywordWord (text.take (Scan.word text)) := by
  cases text with
  | nil => cases halpha
  | cons c cs =>
    simp only [List.head?_cons, Option.any_some] at halpha
    have hc : Scan.isWordChar c = true := by simp [Scan.isWordChar, Char.isAlphanum, halpha]
    have hpos : 0 < Scan.word (c :: cs) := Scan.word_pos hc
    obtain ⟨n, hn⟩ := Nat.exists_eq_succ_of_ne_zero (Nat.pos_iff_ne_zero.mp hpos)
    have hword := isWord_take hpos
    refine ⟨by simp [hn, halpha], fun d hd => ?_⟩
    have hd' := hkey d.toLower (List.mem_map_of_mem hd)
    simp only [Bool.or_eq_true, beq_iff_eq] at hd'
    rcases hd' with hd' | hspace
    · exact isKeywordChar_of_toLower hd'
    · -- A word holds no space.
      have hnu : ¬d.isUpper = true := by
        intro hu
        have halpha : d.isAlpha = true := by simp [Char.isAlpha, hu]
        rw [← isAlpha_toLower, hspace] at halpha
        exact absurd halpha (by decide)
      rw [toLower_of_not_isUpper hnu] at hspace
      subst hspace
      exact absurd (hword.not_blank _ hd) (by decide)

/-- A phrase made of keyword characters, and its key. -/
theorem phrased_of_mem {n length : Nat} {key : List Char} (h : (key, length) ∈ phrases n text)
    (halpha : text.head?.any Char.isAlpha = true)
    (hkey : ∀ c ∈ key, (isKeywordChar c || c == ' ') = true) :
    ∃ ws, Phrased (text.take length) ws ∧
      key = [' '].intercalate (ws.map (List.map Char.toLower)) := by
  induction n generalizing text key length with
  | zero => cases h
  | succ n ih =>
    rw [phrases_succ, List.mem_cons] at h
    rcases h with h | h
    · simp only [Prod.mk.injEq] at h
      obtain ⟨rfl, rfl⟩ := h
      exact ⟨_, .word (isKeywordWord_take halpha hkey), by simp⟩
    · obtain ⟨⟨k, len⟩, hmem, heq⟩ := List.mem_map.mp h
      simp only [Prod.mk.injEq] at heq
      obtain ⟨rfl, rfl⟩ := heq
      simp only [continued] at hmem
      split at hmem
      · next hc =>
        simp only [Bool.and_eq_true, bne_iff_ne] at hc
        obtain ⟨ws, hws, hk⟩ := ih hmem hc.2 fun c hc => hkey c (by simp [hc])
        have hw := isKeywordWord_take halpha fun c hc => hkey c (List.mem_append_left _ hc)
        refine ⟨text.take (Scan.word text) :: ws, ?_, ?_⟩
        · rw [Nat.add_assoc, List.take_add, List.take_add]
          refine .more hw ⟨?_, ?_⟩ hws
          · intro hnil
            rw [List.take_eq_nil_iff] at hnil
            rcases hnil with hnil | hnil
            · exact hc.1 hnil
            · rw [hnil] at hc
              exact hc.1 rfl
          · intro d hd
            rw [Scan.blanks, ← List.prefix_iff_eq_take.mp (List.takeWhile_prefix _)] at hd
            exact List.mem_takeWhile_imp hd
        · rw [List.map_cons, List.intercalate_cons_of_ne_nil (by simpa using hws.ne_nil), ← hk]
          simp
      · cases hmem

/-- The text of a keyword is a phrase. -/
theorem phrased_of_keyword {dialect : Dialect} {kind : TokenKind} {key : String} {length : Nat}
    (h : keyword? dialect.lexicon text = some (kind, key, length))
    (halpha : text.head?.any Char.isAlpha = true) : ∃ ws, Phrased (text.take length) ws := by
  obtain ⟨hmem, hclass⟩ := keyword?_eq_some h
  obtain ⟨ws, hws, -⟩ :=
    phrased_of_mem hmem halpha (List.all_eq_true.mp (dialect.isPlainPhrase hclass))
  exact ⟨ws, hws⟩

/-! ## Phrases with one space between words -/

theorem not_isBlank_of_isKeywordChar {c : Char} (h : isKeywordChar c = true) :
    isBlank c = false := by
  cases hb : isBlank c with
  | false => rfl
  | true =>
    have := isWordChar_of_isBlank hb
    rw [isWordChar_of_isKeywordChar h] at this
    cases this

theorem wordsFrom_append (word : List Char) {w : List Char} (hw : ∀ c ∈ w, isBlank c = false)
    (rest : List Char) : wordsFrom word (w ++ rest) = wordsFrom (word ++ w) rest := by
  induction w generalizing word with
  | nil => simp
  | cons c w ih =>
    rw [List.cons_append, wordsFrom, hw c (by simp), if_neg Bool.false_ne_true,
      ih _ fun d hd => hw d (List.mem_cons_of_mem _ hd), List.append_assoc, List.singleton_append]

theorem wordsFrom_blanks {g : List Char} (hg : ∀ c ∈ g, isBlank c = true) (rest : List Char) :
    wordsFrom [] (g ++ rest) = wordsFrom [] rest := by
  induction g with
  | nil => rfl
  | cons c g ih =>
    rw [List.cons_append, wordsFrom, if_pos (hg c (by simp)), List.isEmpty_nil, if_pos rfl,
      ih fun d hd => hg d (List.mem_cons_of_mem _ hd)]

theorem wordsFrom_gap {word g : List Char} (hword : word ≠ []) (hg : IsGap g) (rest : List Char) :
    wordsFrom word (g ++ rest) = word :: wordsFrom [] rest := by
  obtain ⟨hne, hblank⟩ := hg
  obtain ⟨c, g, rfl⟩ := List.exists_cons_of_ne_nil hne
  rw [List.cons_append, wordsFrom, if_pos (hblank c (by simp)), if_neg (by simpa using hword),
    wordsFrom_blanks fun d hd => hblank d (List.mem_cons_of_mem _ hd)]

theorem IsKeywordWord.ne_nil {w : List Char} (h : IsKeywordWord w) : w ≠ [] := by
  rintro rfl
  cases h.head

theorem Phrased.words_eq (h : Phrased t ws) : words t = ws := by
  induction h with
  | @word w hw =>
    have := wordsFrom_append [] (fun c hc => not_isBlank_of_isKeywordChar (hw.chars c hc)) []
    simp only [List.append_nil, List.nil_append] at this
    rw [words, this, wordsFrom, if_neg (by simpa using hw.ne_nil)]
  | @more w g t ws hw hg _ ih =>
    rw [words, wordsFrom_append [] fun c hc => not_isBlank_of_isKeywordChar (hw.chars c hc),
      List.nil_append, wordsFrom_gap hw.ne_nil hg, ← ih, words]

theorem toList_normalizePhrase (h : Phrased t ws) :
    (normalizePhrase (String.ofList t)).toList = [' '].intercalate ws := by
  have hwords := h.words_eq
  unfold normalizePhrase
  rw [String.toList_ofList]
  split
  · rw [joinWith, String.toList_intercalate, hwords, List.map_map]
    simp
  · next hblank =>
    rw [String.toList_ofList]
    cases h with
    | word => simp
    | @more w g t ws hw hg rest =>
      obtain ⟨c, cs, rfl⟩ := List.exists_cons_of_ne_nil hg.1
      exact absurd (by simp [hg.2 c (by simp)]) hblank

theorem Phrased.chars_intercalate (h : Phrased t ws) :
    ∀ c ∈ [' '].intercalate ws, isKeywordChar c = true ∨ c = ' ' := by
  induction h with
  | word hw =>
    rw [List.intercalate_singleton]
    exact fun c hc => .inl (hw.chars c hc)
  | more hw _ rest ih =>
    intro c hc
    rw [List.intercalate_cons_of_ne_nil rest.ne_nil, List.append_assoc] at hc
    rcases List.mem_append.mp hc with hc | hc
    · exact .inl (hw.chars c hc)
    · rcases List.mem_cons.mp hc with rfl | hc
      · exact .inr rfl
      · exact ih c hc

/-- The characters of a phrase are ASCII, however it is spaced. -/
theorem Phrased.ascii_intercalate (h : Phrased t ws) :
    ∀ c ∈ [' '].intercalate ws, c.toNat < 128 := by
  intro c hc
  rcases h.chars_intercalate c hc with hkey | rfl
  · exact isKeywordChar_lt hkey
  · decide

theorem IsKeywordWord.keeps {w : List Char} (h : IsKeywordWord w) (case : KeywordCase) :
    ∀ c ∈ w, case.Keeps c :=
  fun c hc => case.keeps (isKeywordChar_lt (h.chars c hc))

theorem IsKeywordWord.recased {w : List Char} (h : IsKeywordWord w) (case : KeywordCase) :
    IsKeywordWord (w.map case.letter) where
  head := by
    cases w with
    | nil => cases h.head
    | cons c w =>
      have hhead := h.head
      simp only [List.map_cons, List.head?_cons, Option.any_some] at hhead ⊢
      rw [(h.keeps case c (by simp)).isAlpha, hhead]
  chars c hc := by
    obtain ⟨d, hd, rfl⟩ := List.mem_map.mp hc
    rw [(h.keeps case d hd).isKeywordChar, h.chars d hd]

theorem isGap_space (case : KeywordCase) : IsGap ([' '].map case.letter) :=
  ⟨by simp, by simp [isBlank]⟩

/-- A phrase in any case, with one space between its words, is the same phrase. -/
theorem Phrased.respaced (h : Phrased t ws) (case : KeywordCase) :
    Respaced t (([' '].intercalate ws).map case.letter) := by
  have hlower : ∀ {w : List Char}, IsKeywordWord w →
      w.map Char.toLower = (w.map case.letter).map Char.toLower := by
    intro w hw
    rw [List.map_map]
    exact List.map_congr_left fun c hc => ((hw.keeps case c hc).toLower).symm
  induction h with
  | word hw =>
    rw [List.intercalate_singleton]
    exact .word hw (hw.recased case) (hlower hw)
  | more hw hg rest ih =>
    rw [List.intercalate_cons_of_ne_nil rest.ne_nil, List.append_assoc, List.map_append,
      List.map_append]
    exact .more hw (hw.recased case) (hlower hw) hg (isGap_space case) ih

/-- It has the words of the phrase in that case. -/
theorem Phrased.recased (h : Phrased t ws) (case : KeywordCase) :
    Phrased (([' '].intercalate ws).map case.letter) (ws.map (List.map case.letter)) := by
  induction h with
  | word hw =>
    rw [List.intercalate_singleton]
    exact .word (hw.recased case)
  | more hw hg rest ih =>
    rw [List.intercalate_cons_of_ne_nil rest.ne_nil, List.append_assoc, List.map_append,
      List.map_append]
    exact .more (hw.recased case) (isGap_space case) ih

/-- Two writings of a phrase have the same words up to letter case. -/
theorem Respaced.phrased (h : Respaced t x) : ∃ ws ws', Phrased t ws ∧ Phrased x ws' ∧
    ws.map (List.map Char.toLower) = ws'.map (List.map Char.toLower) := by
  induction h with
  | word hw hw' heq => exact ⟨_, _, .word hw, .word hw', by simp [heq]⟩
  | more hw hw' heq hg hg' _ ih =>
    obtain ⟨ws, ws', ht, hx, hws⟩ := ih
    exact ⟨_, _, .more hw hg ht, .more hw' hg' hx, by simp [heq, hws]⟩

theorem map_intercalate (f : Char → Char) (sep : List Char) (ws : List (List Char)) :
    (sep.intercalate ws).map f = (sep.map f).intercalate (ws.map (List.map f)) := by
  induction ws with
  | nil => rfl
  | cons w ws ih =>
    cases ws with
    | nil => simp
    | cons v ws =>
      simp only [List.map_cons, List.intercalate_cons_cons, List.map_append, ih]

/-- A phrase that is written in a case with one space between its words stays as it is when it is written
so again. -/
theorem Phrased.apply_recased (h : Phrased t ws) (case : KeywordCase) :
    (case.apply (normalizePhrase (String.ofList (([' '].intercalate ws).map case.letter)))).toList =
      ([' '].intercalate ws).map case.letter := by
  have hrecased := h.recased case
  have hphrase := toList_normalizePhrase hrecased
  have hwords : [' '].intercalate (ws.map (List.map case.letter)) =
      ([' '].intercalate ws).map case.letter := by
    rw [map_intercalate, List.map_singleton, case.letter_space]
  rw [case.toList_apply (hphrase ▸ hrecased.ascii_intercalate), hphrase, hwords, List.map_map]
  exact List.map_congr_left fun c hc => case.letter_letter (h.ascii_intercalate c hc)

theorem Phrased.toList_phraseKey (h : Phrased t ws) :
    (phraseKey (String.ofList t)).toList = ([' '].intercalate ws).map Char.toLower := by
  rw [phraseKey, lowerAscii, String.toList_ofList, toList_normalizePhrase h]

/-- Two writings of a phrase are compared as equal. -/
theorem Respaced.phraseKey_eq (h : Respaced t x) :
    phraseKey (String.ofList t) = phraseKey (String.ofList x) := by
  obtain ⟨ws, ws', ht, hx, heq⟩ := h.phrased
  rw [← String.toList_inj, ht.toList_phraseKey, hx.toList_phraseKey, map_intercalate,
    map_intercalate, heq]

/-- A keyword is looked up by the key that it is compared by. -/
theorem phraseKey_of_keyword {dialect : Dialect} {kind : TokenKind} {key : String} {length : Nat}
    (h : keyword? dialect.lexicon text = some (kind, key, length))
    (halpha : text.head?.any Char.isAlpha = true) :
    phraseKey (String.ofList (text.take length)) = key := by
  obtain ⟨hmem, hclass⟩ := keyword?_eq_some h
  obtain ⟨ws, hws, hkey⟩ :=
    phrased_of_mem hmem halpha (List.all_eq_true.mp (dialect.isPlainPhrase hclass))
  rw [← String.toList_inj, hkey, hws.toList_phraseKey, map_intercalate]
  rfl

end Lexer

end SqlFormat
