import Mathlib
import SqlFormat.Proofs.Text.Lowered
import SqlFormat.Proofs.Token.Keyword
import SqlFormat.Proofs.Token.Lossless

/-!
# Which keyword is read

Where a word starts with a letter, the lexer reads the longest phrase of its tables that the text starts
with, word by word and in any case. It looks at four words at most and compares one key for each number
of words; this finds every phrase, since no phrase is longer and since a key says what its words are.

Results: `keyword?_eq_none_iff`, `longest_of_keyword?` (the search), `keywords_recognized` (the tokens of
a text).
-/

namespace SqlFormat

open Text

/-! ## Phrases of the tables -/

/-- The words of a phrase, in lower case. -/
def phraseWords (phrase : String) : List (List Char) :=
  (words phrase.toList).map (List.map Char.toLower)

/-- The phrase has as many words as the lexer looks at, or fewer. Each starts with a letter, and one
space stands between two. -/
def isShortPhrase (phrase : String) : Bool :=
  (phraseWords phrase).length ≤ Lexicon.maxPhraseWords &&
    (phraseWords phrase).all (·.head?.any Char.isAlpha) &&
    [' '].intercalate (phraseWords phrase) == phrase.toList

namespace Lexicon

namespace Shared

theorem topLevel_short : topLevel.all isShortPhrase = true := by decide +kernel

theorem topLevelNoIndent_short : topLevelNoIndent.all isShortPhrase = true := by decide +kernel

theorem newline_short : newline.all isShortPhrase = true := by decide +kernel

theorem reserved_short : reserved.all isShortPhrase = true := by decide +kernel

end Shared

/-- The phrase stands in a table. -/
def Knows (lexicon : Lexicon) (phrase : String) : Prop :=
  ∃ table ∈ lexicon.tables, phrase ∈ table

theorem classify_isSome_iff {lexicon : Lexicon} {phrase : String} :
    (lexicon.classify phrase).isSome = true ↔ lexicon.Knows phrase := by
  constructor
  · intro h
    obtain ⟨kind, hkind⟩ := Option.isSome_iff_exists.mp h
    exact mem_tables hkind
  · rintro ⟨table, htable, hphrase⟩
    have hlookup : ∀ {α : Type} {l : List (String × α)}, phrase ∈ l.map Prod.fst →
        (l.lookup phrase).isSome = true := by
      intro α l hl
      obtain ⟨e, he, rfl⟩ := List.mem_map.mp hl
      exact List.lookup_isSome_iff.mpr ⟨e, he, by simp⟩
    have hlayers : ∀ {layers : List (List String)}, table ∈ layers → inLayers layers phrase = true := by
      intro layers hl
      simpa [inLayers] using ⟨table, hl, hphrase⟩
    simp only [tables, List.mem_append, List.mem_cons, List.not_mem_nil, or_false] at htable
    unfold classify
    split_ifs with h₁ h₂ h₃ h₄ h₅ h₆ <;> try rfl
    rcases htable with ((((rfl | rfl) | h) | h) | h) | h
    · exact absurd (hlookup hphrase) h₁
    · exact absurd (hlookup hphrase) h₅
    · exact absurd (hlayers h) h₂
    · exact absurd (hlayers h) h₃
    · exact absurd (hlayers h) h₄
    · exact absurd (hlayers h) h₆

end Lexicon

theorem Dialect.tables_short (dialect : Dialect) :
    dialect.lexicon.tables.all (·.all isShortPhrase) = true := by
  cases dialect <;>
    simp only [lexicon, Lexicon.standard, Lexicon.postgresql, Lexicon.mysql, Lexicon.sqlite,
      Lexicon.plsql, Lexicon.n1ql, Lexicon.db2, Lexicon.tables, List.cons_append, List.nil_append,
      List.all_cons, Lexicon.Shared.topLevel_short, Lexicon.Shared.topLevelNoIndent_short,
      Lexicon.Shared.newline_short, Lexicon.Shared.reserved_short] <;>
    decide +kernel

/-- What holds of the words of a phrase in a table. -/
structure IsShort (phrase : String) : Prop where
  length : (phraseWords phrase).length ≤ Lexicon.maxPhraseWords
  head : ∀ w ∈ phraseWords phrase, w.head?.any Char.isAlpha = true
  key : [' '].intercalate (phraseWords phrase) = phrase.toList

theorem Lexicon.Knows.isShort {dialect : Dialect} {phrase : String}
    (h : dialect.lexicon.Knows phrase) : IsShort phrase := by
  obtain ⟨table, htable, hphrase⟩ := h
  have hshort := List.all_eq_true.mp (List.all_eq_true.mp dialect.tables_short table htable) phrase hphrase
  simp only [isShortPhrase, Bool.and_eq_true, decide_eq_true_eq, List.all_eq_true, beq_iff_eq] at hshort
  exact ⟨hshort.1.1, hshort.1.2, hshort.2⟩

namespace Lexer

variable {text : List Char} {ws : List (List Char)} {key : List Char} {length n i : Nat}

/-! ## Texts that start with words -/

/-- The text starts with words that stand apart by blanks and take so many characters of it. Each word
ends where words end for the lexer. The words are given in lower case. -/
inductive StartsWith : List (List Char) → List Char → Nat → Prop
  | last (text : List Char) :
    StartsWith [(text.take (Scan.word text)).map Char.toLower] text (Scan.word text)
  | more {ws : List (List Char)} {text : List Char} {length : Nat}
    (hgap : Scan.blanks (text.drop (Scan.word text)) ≠ 0)
    (rest : StartsWith ws ((text.drop (Scan.word text)).drop (Scan.blanks (text.drop (Scan.word text))))
      length) :
    StartsWith ((text.take (Scan.word text)).map Char.toLower :: ws) text
      (Scan.word text + Scan.blanks (text.drop (Scan.word text)) + length)

/-- A word in lower case. -/
structure IsLowWord (w : List Char) : Prop where
  ne_nil : w ≠ []
  not_blank : ∀ c ∈ w, isBlank c = false
  lower : w.map Char.toLower = w

theorem isLowWord_take (halpha : text.head?.any Char.isAlpha = true) :
    IsLowWord ((text.take (Scan.word text)).map Char.toLower) := by
  cases text with
  | nil => cases halpha
  | cons c cs =>
    have hc : Scan.isWordChar c = true := by
      have hc : c.isAlpha = true := halpha
      simp [Scan.isWordChar, Char.isAlphanum, hc]
    obtain ⟨n, hn⟩ : ∃ n, Scan.word (c :: cs) = n + 1 :=
      ⟨_, by rw [Scan.word, if_pos hc, Nat.add_comm]⟩
    have hpos : 0 < Scan.word (c :: cs) := Scan.word_pos hc
    have hword := isWord_take hpos
    refine ⟨?_, ?_, ?_⟩
    · rw [hn, List.take_succ_cons, List.map_cons]
      exact List.cons_ne_nil _ _
    · intro d hd
      obtain ⟨e, he, rfl⟩ := List.mem_map.mp hd
      rw [ignoresCase_isBlank]
      exact hword.not_blank e he
    · rw [List.map_map]
      exact List.map_congr_left fun d _ => ignoresCase_toLower d

theorem words_intercalate (hne : ws ≠ []) (h : ∀ w ∈ ws, IsLowWord w) :
    words ([' '].intercalate ws) = ws := by
  induction ws with
  | nil => exact absurd rfl hne
  | cons w ws ih =>
    have hw := h w (by simp)
    cases ws with
    | nil =>
      have hword := wordsFrom_append [] hw.not_blank []
      rw [List.append_nil, List.nil_append] at hword
      rw [List.intercalate_singleton, words, hword, wordsFrom, if_neg (by simpa using hw.ne_nil)]
    | cons v vs =>
      have hrest := ih (by simp) fun u hu => h u (List.mem_cons_of_mem _ hu)
      have hgap : IsGap [' '] := ⟨by simp, by simp [isBlank]⟩
      rw [List.intercalate_cons_cons, List.append_assoc, words, wordsFrom_append [] hw.not_blank,
        List.nil_append, wordsFrom_gap hw.ne_nil hgap, ← words, hrest]

theorem phraseWords_ofList (hne : ws ≠ []) (h : ∀ w ∈ ws, IsLowWord w) :
    phraseWords (String.ofList ([' '].intercalate ws)) = ws := by
  rw [phraseWords, String.toList_ofList, words_intercalate hne h]
  calc ws.map (List.map Char.toLower) = ws.map id := List.map_congr_left fun w hw => (h w hw).lower
    _ = ws := List.map_id ws

/-! ## The keys that the lexer compares -/

/-- The key with `i` blanks is made of `i + 1` words that the text starts with. -/
theorem exists_startsWith (halpha : text.head?.any Char.isAlpha = true)
    (h : (phrases n text)[i]? = some (key, length)) :
    ∃ ws, ws.length = i + 1 ∧ StartsWith ws text length ∧ key = [' '].intercalate ws ∧
      ∀ w ∈ ws, IsLowWord w := by
  induction n generalizing text key length i with
  | zero => cases h
  | succ n ih =>
    have hfirst := isLowWord_take halpha
    rw [phrases_succ] at h
    cases i with
    | zero =>
      obtain ⟨rfl, rfl⟩ := Prod.mk.inj (Option.some.inj h)
      exact ⟨_, rfl, .last text, (List.intercalate_singleton ..).symm, by simpa using hfirst⟩
    | succ i =>
      rw [List.getElem?_cons_succ, List.getElem?_map] at h
      obtain ⟨⟨k, len⟩, hk, heq⟩ := Option.map_eq_some_iff.mp h
      obtain ⟨rfl, rfl⟩ := Prod.mk.inj heq
      simp only [continued] at hk
      split at hk
      · next hc =>
        simp only [Bool.and_eq_true, bne_iff_ne] at hc
        obtain ⟨ws, hlen, hws, rfl, hwords⟩ := ih hc.2 hk
        have hne : ws ≠ [] := by
          rintro rfl
          cases hlen
        refine ⟨_, by rw [List.length_cons, hlen], .more hc.1 hws, ?_, ?_⟩
        · rw [List.intercalate_cons_of_ne_nil hne]
          simp
        · rintro w (_ | ⟨_, hw⟩)
          · exact hfirst
          · exact hwords w hw
      · cases hk

theorem StartsWith.ne_nil (h : StartsWith ws text length) : ws ≠ [] := by
  cases h <;> simp

theorem head?_of_startsWith (h : StartsWith ws text length)
    (halpha : ∀ w ∈ ws.head?, w.head?.any Char.isAlpha = true) :
    text.head?.any Char.isAlpha = true := by
  have hfirst : ((text.take (Scan.word text)).map Char.toLower).head?.any Char.isAlpha = true := by
    cases h <;> exact halpha _ rfl
  rw [ignoresCase_isAlpha.any_head?, List.head?_take] at hfirst
  split at hfirst
  · cases hfirst
  · exact hfirst

/-- Every phrase that the text starts with is among those that are compared, if it is short enough and
its words start with letters. -/
theorem StartsWith.getElem? (h : StartsWith ws text length) (hlen : ws.length ≤ n)
    (halpha : ∀ w ∈ ws.tail, w.head?.any Char.isAlpha = true) :
    (phrases n text)[ws.length - 1]? = some ([' '].intercalate ws, length) := by
  induction h generalizing n with
  | last text =>
    obtain ⟨n, rfl⟩ : ∃ m, n = m + 1 := Nat.exists_eq_add_one.mpr hlen
    rw [phrases_succ, List.intercalate_singleton]
    rfl
  | @more ws text length hgap hrest ih =>
    obtain ⟨n, rfl⟩ : ∃ m, n = m + 1 := Nat.exists_eq_add_one.mpr (Nat.zero_lt_of_lt hlen)
    have hne := hrest.ne_nil
    have hnext := head?_of_startsWith hrest fun w hw => halpha w (List.mem_of_mem_head? hw)
    have hcontinued := ih (n := n) (by simpa using hlen) fun w hw => halpha w (List.mem_of_mem_tail hw)
    have hpos : ws.length = ws.length - 1 + 1 := by
      have := List.length_pos_iff.mpr hne
      omega
    rw [phrases_succ, List.length_cons, Nat.add_sub_cancel, hpos, List.getElem?_cons_succ,
      List.getElem?_map, continued, hnext, bne_iff_ne.mpr hgap]
    simp only [Bool.and_self, if_true, hcontinued, Option.map_some]
    rw [List.intercalate_cons_of_ne_nil hne]
    simp

/-! ## The search -/

/-- The phrase stands in a table of the lexicon, and the text starts with its words. -/
structure Matches (lexicon : Lexicon) (text : List Char) (phrase : String) (length : Nat) : Prop where
  known : lexicon.Knows phrase
  starts : StartsWith (phraseWords phrase) text length

/-- The phrase matches, and every other one that does has fewer words. -/
structure LongestMatch (lexicon : Lexicon) (text : List Char) (phrase : String) (length : Nat) : Prop
    extends Matches lexicon text phrase length where
  longest : ∀ other n, Matches lexicon text other n → other ≠ phrase →
    (phraseWords other).length < (phraseWords phrase).length

section Search

variable {dialect : Dialect} {phrase : String} {kind : TokenKind}

/-- The key of a phrase that matches is compared, at the place of its number of words. -/
theorem Matches.getElem? (h : Matches dialect.lexicon text phrase length) :
    (phrases Lexicon.maxPhraseWords text)[(phraseWords phrase).length - 1]? =
      some (phrase.toList, length) := by
  have hshort := h.known.isShort
  rw [h.starts.getElem? hshort.length fun w hw => hshort.head w (List.mem_of_mem_tail hw), hshort.key]

/-- A key that is compared and known is that of a phrase that matches. -/
theorem matches_of_getElem? (halpha : text.head?.any Char.isAlpha = true)
    (hkey : (phrases n text)[i]? = some (phrase.toList, length))
    (hknown : dialect.lexicon.Knows phrase) :
    Matches dialect.lexicon text phrase length ∧ (phraseWords phrase).length = i + 1 := by
  obtain ⟨ws, hlen, hstarts, heq, hwords⟩ := exists_startsWith halpha hkey
  have hphrase : phraseWords phrase = ws := by
    rw [← String.ofList_toList (s := phrase), heq, phraseWords_ofList hstarts.ne_nil hwords]
  rw [hphrase]
  exact ⟨⟨hknown, hphrase ▸ hstarts⟩, hlen⟩

theorem keyword?_eq_none_iff (halpha : text.head?.any Char.isAlpha = true) :
    keyword? dialect.lexicon text = none ↔
      ∀ phrase length, ¬ Matches dialect.lexicon text phrase length := by
  constructor
  · intro hnone phrase length hmatch
    have hmem := List.mem_of_getElem? hmatch.getElem?
    have hclass := List.findSome?_eq_none_iff.mp hnone _ (List.mem_reverse.mpr hmem)
    simp only [String.ofList_toList, Option.map_eq_none_iff] at hclass
    have hknown := Lexicon.classify_isSome_iff.mpr hmatch.known
    rw [hclass] at hknown
    cases hknown
  · intro hnone
    by_contra hne
    obtain ⟨⟨kind, phrase, length⟩, hsome⟩ := Option.ne_none_iff_exists'.mp hne
    obtain ⟨hmem, hclass⟩ := keyword?_eq_some hsome
    obtain ⟨i, hi⟩ := List.getElem?_of_mem hmem
    have hknown := Lexicon.classify_isSome_iff.mp (Option.isSome_of_eq_some hclass)
    exact hnone phrase length (matches_of_getElem? halpha hi hknown).1

/-- Where the key that is found stands among those compared: no key of more words is known. -/
theorem place_of_keyword? (h : keyword? dialect.lexicon text = some (kind, phrase, length)) :
    ∃ i, (phrases Lexicon.maxPhraseWords text)[i]? = some (phrase.toList, length) ∧
      ∀ (m : Nat) (other : String) (n : Nat), i < m →
        (phrases Lexicon.maxPhraseWords text)[m]? = some (other.toList, n) →
        dialect.lexicon.classify other = none := by
  obtain ⟨longer, ⟨key, len⟩, shorter, hsplit, hkey, hlonger⟩ := List.findSome?_eq_some_iff.mp h
  obtain ⟨kind', -, heq⟩ := Option.map_eq_some_iff.mp hkey
  obtain ⟨-, rfl, rfl⟩ : kind' = kind ∧ String.ofList key = phrase ∧ len = length := by
    simpa using heq
  -- the keys are compared from the last on
  have hphrases : phrases Lexicon.maxPhraseWords text =
      shorter.reverse ++ (key, len) :: longer.reverse := by
    simpa using congrArg List.reverse hsplit
  refine ⟨shorter.length, ?_, fun m other n hm hother => ?_⟩
  · rw [hphrases, List.getElem?_append_right (by simp)]
    simp
  · obtain ⟨d, rfl⟩ := Nat.exists_eq_add_of_lt hm
    rw [hphrases, List.getElem?_append_right (by rw [List.length_reverse]; omega),
      List.length_reverse, Nat.add_assoc, Nat.add_sub_cancel_left, List.getElem?_cons_succ] at hother
    have hnone := hlonger _ (List.mem_reverse.mp (List.mem_of_getElem? hother))
    simpa using hnone

/-- **The search finds the longest phrase**: keys of more words were compared first, and none of them
was known. -/
theorem longest_of_keyword? (halpha : text.head?.any Char.isAlpha = true)
    (h : keyword? dialect.lexicon text = some (kind, phrase, length)) :
    LongestMatch dialect.lexicon text phrase length := by
  have hclass := (keyword?_eq_some h).2
  have hknown := Lexicon.classify_isSome_iff.mp (Option.isSome_of_eq_some hclass)
  obtain ⟨i, hplace, hlonger⟩ := place_of_keyword? h
  obtain ⟨hmatch, hcount⟩ := matches_of_getElem? halpha hplace hknown
  refine ⟨hmatch, fun other n hother hne => ?_⟩
  have hpos := List.length_pos_iff.mpr hother.starts.ne_nil
  have hkey := hother.getElem?
  rcases Nat.lt_trichotomy ((phraseWords other).length - 1) i with hlt | heq | hlt
  · omega
  · -- as many words make the same key
    rw [heq, hplace] at hkey
    have hsame := (Prod.mk.inj (Option.some.inj hkey)).1
    exact absurd (String.toList_inj.mp hsame).symm hne
  · have hsome := Lexicon.classify_isSome_iff.mpr hother.known
    rw [hlonger _ other n hlt hkey] at hsome
    cases hsome

end Search

/-! ## The tokens of a text -/

theorem last_foldl_after (before : List Token) (memory : Memory) :
    (before.foldl Memory.after memory).last =
      (before.filter (·.kind.isSignificant)).getLast?.or memory.last := by
  induction before using List.reverseRecOn with
  | nil => rfl
  | append_singleton before t ih =>
    rw [List.foldl_append, List.foldl_cons, List.foldl_nil, List.filter_append, Memory.after, ih]
    by_cases ht : t.kind.isSignificant = true
    · simp [ht]
    · simp [ht]

/-- Where a token of a text begins, the lexer remembers the tokens before it. -/
theorem token_of_split (dialect : Dialect) (memory : Memory) (pos : Nat) (text : List Char)
    {before after : List Token} {t : Token}
    (h : tokensFrom dialect.lexicon memory pos text = before ++ t :: after) :
    ∃ start, t = (lexeme dialect.lexicon (before.foldl Memory.after memory)
      ((t :: after).flatMap (·.text.toList))).token ((t :: after).flatMap (·.text.toList)) start := by
  induction before generalizing memory pos text with
  | nil =>
    have hne : text ≠ [] := by
      rintro rfl
      simp [tokensFrom_nil] at h
    have hrest := flatMap_text dialect memory pos text
    rw [h, List.nil_append] at hrest
    rw [tokensFrom_cons dialect memory pos hne (lexeme_reads dialect.lexicon memory text)] at h
    rw [hrest]
    exact ⟨pos, ((List.cons.inj h).1).symm⟩
  | cons b before ih =>
    have hne : text ≠ [] := by
      rintro rfl
      simp [tokensFrom_nil] at h
    rw [tokensFrom_cons dialect memory pos hne (lexeme_reads dialect.lexicon memory text)] at h
    obtain ⟨rfl, hrest⟩ := List.cons.inj h
    exact ih _ _ _ hrest

theorem refine_of_last {memory other : Memory} (h : memory.last = other.last) (kind : TokenKind)
    (key : String) (after : List Char) :
    memory.refine kind key after = other.refine kind key after := by
  unfold Memory.refine Memory.opensNothing Memory.atStatementStart
  rw [h]

/-- The token is a word and no more. -/
def IsFirstWord (rest : List Char) (t : Token) : Prop :=
  t.kind = .word ∧ t.text.toList = rest.take (Scan.word rest)

/-- The token at the head of the rest of a text is the keyword that is to be read there, `last` being the
last significant token before it. -/
structure Recognized (lexicon : Lexicon) (last : Option Token) (rest : List Char) (t : Token) : Prop where
  afterDot : last.any (·.isOperator ".") = true → IsFirstWord rest t
  unknown : last.any (·.isOperator ".") = false → rest.head?.any Char.isAlpha = true →
    (∀ phrase length, ¬ Matches lexicon rest phrase length) → IsFirstWord rest t
  known : last.any (·.isOperator ".") = false → rest.head?.any Char.isAlpha = true →
    (∃ phrase length, Matches lexicon rest phrase length) →
    ∃ phrase length kind, LongestMatch lexicon rest phrase length ∧
      t.text.toList = rest.take length ∧ t.keyText = phrase ∧
      lexicon.classify phrase = some kind ∧
      t.kind = (Memory.mk last 0).refine kind phrase (rest.drop length)

theorem recognized_of_word? {dialect : Dialect} {memory : Memory} {rest : List Char} {found : Lexeme}
    (h : word? dialect.lexicon memory rest = some found) (pos : Nat) :
    Recognized dialect.lexicon memory.last rest (found.token rest pos) := by
  have hfirst : found = .plain .word (Scan.word rest) → IsFirstWord rest (found.token rest pos) := by
    rintro rfl
    exact ⟨rfl, String.toList_ofList⟩
  obtain ⟨-, ⟨hword, hfound⟩ | ⟨hdot, halpha, kind, phrase, length, hkeyword, rfl⟩⟩ :=
    word?_eq_some h
  · refine ⟨fun _ => hfirst hfound, fun _ _ _ => hfirst hfound, fun hdot halpha hmatch => ?_⟩
    rcases hword with h | h | h
    · exact absurd (hdot.symm.trans h) Bool.false_ne_true
    · exact absurd (h.symm.trans halpha) Bool.false_ne_true
    · obtain ⟨phrase, length, hmatch⟩ := hmatch
      exact absurd hmatch ((keyword?_eq_none_iff halpha).mp h phrase length)
  · have hlongest := longest_of_keyword? halpha hkeyword
    refine ⟨fun h => absurd (hdot.symm.trans h) Bool.false_ne_true, fun _ _ hnone =>
      absurd hlongest.toMatches (hnone phrase length), fun _ _ _ => ?_⟩
    exact ⟨phrase, length, kind, hlongest, String.toList_ofList, phraseKey_of_keyword hkeyword halpha,
      (keyword?_eq_some hkeyword).2, refine_of_last rfl ..⟩

/-- **Keywords are recognized**: where a token of a text begins with a word, after a dot it is that word.
Anywhere else it is the longest phrase that the rest of the text starts with, of the kind that the
lexicon gives it unless it opens nothing there, or the word if there is no such phrase. -/
theorem keywords_recognized (dialect : Dialect) (text : String) (before : List Token) (t : Token)
    (after : List Token)
    (hsplit : tokenize dialect.lexicon text = before ++ t :: after)
    (hbare : Bare dialect.lexicon ((t :: after).flatMap (·.text.toList)))
    (hstart : ((t :: after).flatMap (·.text.toList)).head?.any Scan.isWordStart = true) :
    Recognized dialect.lexicon (before.filter (·.kind.isSignificant)).getLast?
      ((t :: after).flatMap (·.text.toList)) t := by
  obtain ⟨pos, ht⟩ := token_of_split dialect .start 0 text.toList hsplit
  have hlast := last_foldl_after before .start
  rw [show Memory.start.last = none from rfl, Option.or_none] at hlast
  generalize (t :: after).flatMap (·.text.toList) = rest at ht hbare hstart ⊢
  obtain ⟨found, hfound⟩ : ∃ found,
      word? dialect.lexicon (before.foldl Memory.after .start) rest = some found := by
    refine Option.ne_none_iff_exists'.mp fun hnone => ?_
    exact absurd (hstart.symm.trans (word?_eq_none.mp hnone)) Bool.noConfusion
  rw [ht, (Reads.word hbare hfound).eq, ← hlast]
  exact recognized_of_word? hfound pos

/-- A clause of two words, with a gap and in mixed case. -/
theorem keywords_recognized_clause :
    Recognized Dialect.standard.lexicon (some (.plain .word "a" 0))
      "oRDer \t By b".toList (.plain .reservedTopLevel "oRDer \t By" 2) :=
  keywords_recognized .standard "a oRDer \t By b" [.plain .word "a" 0, .plain .whitespace " " 1]
    (.plain .reservedTopLevel "oRDer \t By" 2) [.plain .whitespace " " 12, .plain .word "b" 13]
    (by decide +kernel)
    ⟨by decide +kernel, by decide +kernel, by decide +kernel, by decide +kernel, by decide +kernel⟩
    (by decide +kernel)

end Lexer

end SqlFormat
