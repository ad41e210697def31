import Mathlib
import SqlFormat.Proofs.Text.Ascii
import SqlFormat.Proofs.Token.Rules

/-!
# Phrases and the words ahead

Whether a word is a keyword, and which one, depends on the words that follow it, and on nothing else
of the text ahead. The lexer sees those words up to letter case and to the amount of white space
between them, so that a phrase written in another case or with other gaps is read as the same one.

Results: `keyword?_respaced`, `keyword?_none`, `Facing.opensNothing`.
-/

namespace SqlFormat.Lexer

open Text

variable {r r' : List Char}

/-! ## Words -/

/-- The text does not go on with the word before it. -/
def endsWord (r : List Char) : Bool :=
  !r.head?.any fun c => Scan.isWordChar c || c == '$'

/-- A character that may start a word and others that a word may go on with. -/
def IsWord (w : List Char) : Prop :=
  ∃ c cs, w = c :: cs ∧ Scan.isWordChar c = true ∧
    ∀ d ∈ cs, (Scan.isWordChar d || d == '$') = true

theorem isWordChar_of_isBlank {c : Char} (h : isBlank c = true) :
    (Scan.isWordChar c || c == '$') = false := by
  simp only [isBlank, Bool.or_eq_true, beq_iff_eq] at h
  rcases h with (((h | h) | h) | h) | h <;> subst h <;> decide

theorem endsWord_of_isBlank (h : r.head?.any isBlank = true) : endsWord r = true := by
  cases r with
  | nil => cases h
  | cons c r =>
    simp only [List.head?_cons, Option.any_some] at h
    simp [endsWord, isWordChar_of_isBlank h]

theorem IsWord.word_append {w : List Char} (hw : IsWord w) (hr : endsWord r = true) :
    Scan.word (w ++ r) = w.length := by
  obtain ⟨c, cs, rfl, hc, hcs⟩ := hw
  have hstop : r.head?.any (fun d => Scan.isWordChar d || d == '$') = false := by
    simpa [endsWord] using hr
  simp only [List.cons_append, Scan.word, hc, if_true, List.length_cons]
  rw [Scan.takeWhile_append_stop cs hstop, List.takeWhile_eq_self_iff.mpr hcs]
  omega

/-- What is read as a word is one, and the word ends there. -/
theorem isWord_of_word {w : List Char} (hne : w ≠ []) (h : Scan.word (w ++ r) = w.length) :
    IsWord w ∧ endsWord r = true := by
  obtain ⟨c, cs, rfl⟩ := List.exists_cons_of_ne_nil hne
  simp only [List.cons_append, Scan.word, List.length_cons] at h
  split at h
  · next hc =>
    obtain ⟨hcs, hr⟩ := Scan.takeWhile_append_eq (a := cs) (r := r)
      (p := fun d => Scan.isWordChar d || d == '$') (by omega)
    exact ⟨⟨c, cs, rfl, hc, hcs⟩, by simp [endsWord, hr]⟩
  · omega

/-- The word at the head of a text. -/
theorem isWord_take {text : List Char} (h : 0 < Scan.word text) :
    IsWord (text.take (Scan.word text)) := by
  have hlen : (text.take (Scan.word text)).length = Scan.word text := by
    rw [List.length_take, min_eq_left (Scan.word_le text)]
  refine (isWord_of_word (r := text.drop (Scan.word text)) ?_ ?_).1
  · rw [← List.length_pos_iff, hlen]
    exact h
  · rw [List.take_append_drop, hlen]

theorem isWordChar_not_blank {c : Char} (h : (Scan.isWordChar c || c == '$') = true) :
    isBlank c = false := by
  rw [Bool.eq_false_iff]
  intro hb
  rw [isWordChar_of_isBlank hb] at h
  cases h

theorem IsWord.not_blank {w : List Char} (hw : IsWord w) : ∀ c ∈ w, isBlank c = false := by
  obtain ⟨c, cs, rfl, hc, hcs⟩ := hw
  rintro d (_ | ⟨_, hd⟩)
  · exact isWordChar_not_blank (by simp [hc])
  · exact isWordChar_not_blank (hcs d hd)

theorem word_eq_zero (h : endsWord r = true) : Scan.word r = 0 := by
  cases r with
  | nil => rfl
  | cons c r =>
    simp only [endsWord, List.head?_cons, Option.any_some, Bool.not_eq_true',
      Bool.or_eq_false_iff] at h
    simp [Scan.word, h.1]

/-! ## The words ahead -/

/-- The words that the text goes on with, in lower case: each stands after blanks and starts with a
letter. -/
def wordsAhead : Nat → List Char → List (List Char)
  | 0, _ => []
  | n + 1, r =>
    let next := r.drop (Scan.blanks r)
    if Scan.blanks r != 0 && next.head?.any Char.isAlpha then
      (next.take (Scan.word next)).map Char.toLower :: wordsAhead n (next.drop (Scan.word next))
    else []

/-- The phrases that words make, shortest first. -/
def keysOf : List (List Char) → List (List Char)
  | [] => []
  | w :: ws => w :: (keysOf ws).map (w ++ ' ' :: ·)

/-- The phrases that the text goes on with. -/
def continued (n : Nat) (r : List Char) : List (List Char × Nat) :=
  let next := r.drop (Scan.blanks r)
  if Scan.blanks r != 0 && next.head?.any Char.isAlpha then phrases n next else []

theorem phrases_succ (n : Nat) (text : List Char) :
    phrases (n + 1) text =
      ((text.take (Scan.word text)).map Char.toLower, Scan.word text) ::
        (continued n (text.drop (Scan.word text))).map fun p =>
          ((text.take (Scan.word text)).map Char.toLower ++ ' ' :: p.1,
            Scan.word text + Scan.blanks (text.drop (Scan.word text)) + p.2) := by
  simp only [phrases, continued]
  split <;> rfl

theorem map_fst_continued (n : Nat) (r : List Char) :
    (continued n r).map Prod.fst = keysOf (wordsAhead n r) := by
  induction n generalizing r with
  | zero => simp [continued, phrases, wordsAhead, keysOf]
  | succ n ih =>
    simp only [continued, wordsAhead]
    split
    · rw [phrases_succ, List.map_cons, List.map_map, keysOf, ← ih, List.map_map]
      rfl
    · rfl

theorem phrases_append {w : List Char} (hw : IsWord w) (hr : endsWord r = true) (n : Nat) :
    phrases (n + 1) (w ++ r) = (w.map Char.toLower, w.length) ::
      (continued n r).map fun p =>
        (w.map Char.toLower ++ ' ' :: p.1, w.length + Scan.blanks r + p.2) := by
  rw [phrases_succ, hw.word_append hr, List.take_left', List.drop_left'] <;> rfl

/-- A gap: blanks, and at least one. -/
def IsGap (g : List Char) : Prop :=
  g ≠ [] ∧ ∀ c ∈ g, isBlank c = true

theorem IsGap.blanks_append {g next : List Char} (hg : IsGap g)
    (hnext : next.head?.any isBlank = false) : Scan.blanks (g ++ next) = g.length := by
  rw [Scan.blanks, Scan.takeWhile_append_stop g hnext, List.takeWhile_eq_self_iff.mpr hg.2]

theorem not_isBlank_of_isAlpha {c : Char} (h : c.isAlpha = true) : isBlank c = false := by
  cases hb : isBlank c with
  | false => rfl
  | true =>
    have := isWordChar_of_isBlank hb
    simp [Scan.isWordChar, Char.isAlphanum, h] at this

theorem IsGap.continued {g next : List Char} (hg : IsGap g)
    (hnext : next.head?.any Char.isAlpha = true) (n : Nat) :
    continued n (g ++ next) = phrases n next ∧ Scan.blanks (g ++ next) = g.length := by
  have hb : next.head?.any isBlank = false := by
    cases next with
    | nil => rfl
    | cons c next => exact not_isBlank_of_isAlpha hnext
  have hlen := hg.blanks_append hb
  have hpos : (g.length != 0) = true := by simpa using hg.1
  refine ⟨?_, hlen⟩
  rw [Lexer.continued, hlen, List.drop_left' rfl]
  simp [hpos, hnext]

theorem head?_any_append {p : Char → Bool} {a : List Char} (h : a.head?.any p = true)
    (b : List Char) : (a ++ b).head?.any p = true := by
  cases a with
  | nil => cases h
  | cons c a => exact h

/-- The first word ahead. -/
theorem IsGap.wordsAhead {g w : List Char} (hg : IsGap g) (hw : IsWord w)
    (halpha : w.head?.any Char.isAlpha = true) (hr : endsWord r = true) (n : Nat) :
    wordsAhead (n + 1) (g ++ (w ++ r)) = w.map Char.toLower :: wordsAhead n r := by
  have hnext := head?_any_append halpha r
  have hlen := (hg.continued hnext 0).2
  have hpos : (g.length != 0) = true := by simpa using hg.1
  rw [Lexer.wordsAhead, hlen, List.drop_left' rfl, hpos, hnext, Bool.and_self, if_pos rfl,
    hw.word_append hr, List.take_left' rfl, List.drop_left' rfl]

/-! ## Phrases written in another way -/

/-- A word of a keyword phrase. -/
structure IsKeywordWord (w : List Char) : Prop where
  head : w.head?.any Char.isAlpha = true
  chars : ∀ c ∈ w, isKeywordChar c = true

theorem isWordChar_of_isKeywordChar {c : Char} (h : isKeywordChar c = true) :
    Scan.isWordChar c = true := by
  simp only [isKeywordChar, Bool.or_eq_true] at h
  simp only [Scan.isWordChar, Bool.or_eq_true]
  exact .inl h

theorem IsKeywordWord.isWord {w : List Char} (h : IsKeywordWord w) : IsWord w := by
  cases w with
  | nil => exact absurd h.head (by simp)
  | cons c cs =>
    refine ⟨c, cs, rfl, isWordChar_of_isKeywordChar (h.chars c (by simp)), fun d hd => ?_⟩
    rw [isWordChar_of_isKeywordChar (h.chars d (List.mem_cons_of_mem _ hd)), Bool.true_or]

/-- Two texts of the same phrase: the words are the same up to letter case, and the gaps between them
are any. -/
inductive Respaced : List Char → List Char → Prop
  | word {w w' : List Char} (hw : IsKeywordWord w) (hw' : IsKeywordWord w')
      (heq : w.map Char.toLower = w'.map Char.toLower) : Respaced w w'
  | more {w w' g g' t x : List Char} (hw : IsKeywordWord w) (hw' : IsKeywordWord w')
      (heq : w.map Char.toLower = w'.map Char.toLower) (hg : IsGap g) (hg' : IsGap g')
      (rest : Respaced t x) : Respaced (w ++ (g ++ t)) (w' ++ (g' ++ x))

theorem Respaced.head {t x : List Char} (h : Respaced t x) :
    t.head?.any Char.isAlpha = true ∧ x.head?.any Char.isAlpha = true := by
  cases h with
  | word hw hw' _ => exact ⟨hw.head, hw'.head⟩
  | more hw hw' _ _ _ _ => exact ⟨head?_any_append hw.head _, head?_any_append hw'.head _⟩

theorem endsWord_gap {g : List Char} (hg : IsGap g) (next : List Char) :
    endsWord (g ++ next) = true := by
  obtain ⟨c, cs, rfl⟩ := List.exists_cons_of_ne_nil hg.1
  exact endsWord_of_isBlank (hg.2 c (by simp))

/-- Two texts ahead look the same to a word before them: no word goes on, the same words follow, and
either both come to the end of the statement or neither does. -/
structure Facing (r r' : List Char) : Prop where
  left : endsWord r = true
  right : endsWord r' = true
  ahead : ∀ n, wordsAhead n r = wordsAhead n r'
  ends : (r.dropWhile isBlank).head?.all (· == ';') = (r'.dropWhile isBlank).head?.all (· == ';')

/-- The words of a phrase are ahead of a gap, however they are written. -/
theorem Respaced.wordsAhead {t x : List Char} (h : Respaced t x) (hf : Facing r r') {g g' : List Char}
    (hg : IsGap g) (hg' : IsGap g') (n : Nat) :
    wordsAhead n (g ++ (t ++ r)) = wordsAhead n (g' ++ (x ++ r')) := by
  induction h generalizing g g' n with
  | word hw hw' heq =>
    cases n with
    | zero => rfl
    | succ n =>
      rw [hg.wordsAhead hw.isWord hw.head hf.left, hg'.wordsAhead hw'.isWord hw'.head hf.right,
        heq, hf.ahead]
  | @more w w' gap gap' t x hw hw' heq hgap hgap' _ ih =>
    cases n with
    | zero => rfl
    | succ n =>
      simp only [List.append_assoc]
      rw [hg.wordsAhead hw.isWord hw.head (endsWord_gap hgap _),
        hg'.wordsAhead hw'.isWord hw'.head (endsWord_gap hgap' _), heq, ih hgap hgap']

/-- The phrases that go on past a word are the same, and longer than the word. -/
theorem Facing.continued (hf : Facing r r') (n : Nat) :
    List.Forall₂ (fun p q => p.1 = q.1 ∧ 0 < Scan.blanks r)
      (continued n r) (continued n r') := by
  have hkeys : List.Forall₂ (fun p q => p.1 = q.1) (Lexer.continued n r) (Lexer.continued n r') := by
    rw [← List.forall₂_map_right_iff, ← List.forall₂_map_left_iff, List.forall₂_eq_eq_eq,
      map_fst_continued, map_fst_continued, hf.ahead]
  rcases Nat.eq_zero_or_pos (Scan.blanks r) with hz | hpos
  · have hnil : Lexer.continued n r = [] := by simp [Lexer.continued, hz]
    rw [hnil, List.forall₂_nil_left_iff] at hkeys ⊢
    exact hkeys
  · exact hkeys.imp fun _ _ h => ⟨h, hpos⟩

/-- Both texts give the same phrases, and where one phrase is the whole of the first text, the
phrase in its place is the whole of the second. -/
theorem Respaced.phrases {t x : List Char} (h : Respaced t x) (hf : Facing r r') (n : Nat) :
    List.Forall₂ (fun p q => p.1 = q.1 ∧ (p.2 = t.length → q.2 = x.length))
      (phrases n (t ++ r)) (phrases n (x ++ r')) := by
  induction h generalizing n with
  | @word w w' hw hw' heq =>
    cases n with
    | zero => exact .nil
    | succ n =>
      rw [phrases_append hw.isWord hf.left, phrases_append hw'.isWord hf.right]
      refine .cons ⟨heq, fun _ => rfl⟩ ?_
      rw [List.forall₂_map_left_iff, List.forall₂_map_right_iff]
      refine (hf.continued n).imp fun p q hpq => ⟨by rw [heq, hpq.1], fun h => ?_⟩
      have := hpq.2
      omega
  | @more w w' g g' t x hw hw' heq hg hg' rest ih =>
    cases n with
    | zero => exact .nil
    | succ n =>
      simp only [List.append_assoc]
      rw [phrases_append hw.isWord (endsWord_gap hg _),
        phrases_append hw'.isWord (endsWord_gap hg' _)]
      obtain ⟨hc, hlen⟩ := hg.continued (head?_any_append rest.head.1 r) n
      obtain ⟨hc', hlen'⟩ := hg'.continued (head?_any_append rest.head.2 r') n
      rw [hc, hc', hlen, hlen']
      have hpos := List.length_pos_iff.mpr hg.1
      refine .cons ⟨heq, fun h => ?_⟩ ?_
      · simp only [List.length_append] at h
        omega
      · rw [List.forall₂_map_left_iff, List.forall₂_map_right_iff]
        refine (ih n).imp fun p q hpq => ⟨by rw [heq, hpq.1], fun h => ?_⟩
        simp only [List.length_append] at h ⊢
        have := hpq.2 (by omega)
        omega

/-! ## Keywords -/

variable {lexicon : Lexicon}

/-- The longest phrase that the lexicon knows is the same in another writing. -/
theorem keyword?_respaced {t x : List Char} (h : Respaced t x) (hf : Facing r r')
    {kind : TokenKind} {key : String}
    (hk : keyword? lexicon (t ++ r) = some (kind, key, t.length)) :
    keyword? lexicon (x ++ r') = some (kind, key, x.length) := by
  unfold keyword? at hk ⊢
  have hall := List.forall₂_reverse_iff.mpr (h.phrases hf Lexicon.maxPhraseWords)
  generalize (phrases Lexicon.maxPhraseWords (t ++ r)).reverse = l at hall hk
  generalize (phrases Lexicon.maxPhraseWords (x ++ r')).reverse = l' at hall
  induction hall with
  | nil => cases hk
  | @cons p q l l' hpq _ ih =>
    obtain ⟨key, length⟩ := p
    obtain ⟨key', length'⟩ := q
    obtain ⟨rfl, hlen⟩ := hpq
    rw [List.findSome?_cons] at hk ⊢
    cases hc : lexicon.classify (String.ofList key) with
    | none =>
      simp only [hc, Option.map_none] at hk ⊢
      exact ih hk
    | some k =>
      simp only [hc, Option.map_some, Option.some.injEq, Prod.mk.injEq] at hk ⊢
      exact ⟨hk.1, hk.2.1, hlen hk.2.2⟩

/-- A word that starts no phrase before one text starts none before the other. -/
theorem keyword?_none {w : List Char} (hw : IsWord w) (hf : Facing r r')
    (hk : keyword? lexicon (w ++ r) = none) : keyword? lexicon (w ++ r') = none := by
  unfold keyword? at hk ⊢
  rw [List.findSome?_eq_none_iff] at hk ⊢
  have hkeys : (phrases Lexicon.maxPhraseWords (w ++ r)).map Prod.fst =
      (phrases Lexicon.maxPhraseWords (w ++ r')).map Prod.fst := by
    rw [← List.forall₂_eq_eq_eq, List.forall₂_map_left_iff, List.forall₂_map_right_iff,
      Lexicon.maxPhraseWords, phrases_append hw hf.left, phrases_append hw hf.right]
    refine .cons rfl ?_
    rw [List.forall₂_map_left_iff, List.forall₂_map_right_iff]
    exact (hf.continued 3).imp fun p q hpq => by rw [hpq.1]
  rintro ⟨key, length'⟩ hq
  obtain ⟨⟨_, length⟩, hp, rfl⟩ : ∃ p ∈ phrases Lexicon.maxPhraseWords (w ++ r), p.1 = key := by
    rw [← List.mem_map, hkeys]
    exact List.mem_map.mpr ⟨_, List.mem_reverse.mp hq, rfl⟩
  have := hk _ (List.mem_reverse.mpr hp)
  simpa using this

/-! ## What follows an opener -/

theorem dropWhile_eq_drop (r : List Char) : r.dropWhile isBlank = r.drop (Scan.blanks r) := by
  induction r with
  | nil => rfl
  | cons c r ih =>
    cases hc : isBlank c with
    | false => simp [Scan.blanks, hc]
    | true => simpa [Scan.blanks, hc] using ih

/-- The next word, as far as it is one of a few: words that do not start with a letter are none of
them. -/
theorem nextWord?_any (hr : endsWord r = true) {p : String → Bool}
    (hp : ∀ w, p w = true → w.toList.head?.any Char.isAlpha = true) :
    (Scan.nextWord? r).any p = (wordsAhead 1 r).any (p ∘ String.ofList) := by
  simp only [Scan.nextWord?, dropWhile_eq_drop, wordsAhead, lowerAscii, String.toList_ofList]
  by_cases hb : Scan.blanks r = 0
  · simp [hb, word_eq_zero hr]
  generalize hnext : r.drop (Scan.blanks r) = next
  by_cases ha : next.head?.any Char.isAlpha = true
  · have hpos : 0 < Scan.word next := by
      cases next with
      | nil => cases ha
      | cons c next =>
        refine Scan.word_pos ?_
        simp only [List.head?_cons, Option.any_some] at ha ⊢
        simp [Scan.isWordChar, Char.isAlphanum, ha]
    rw [if_neg (by omega), if_pos (by simp [hb, ha])]
    simp
  · have hfalse : (Scan.blanks r != 0 && next.head?.any Char.isAlpha) = false := by simp [ha]
    rw [hfalse, if_neg Bool.false_ne_true, List.any_nil]
    split
    · rfl
    · next hne =>
      rw [Option.any_some, Bool.eq_false_iff]
      intro h
      have halpha := hp _ h
      cases next with
      | nil => exact hne rfl
      | cons c next =>
        obtain ⟨n, hn⟩ := Nat.exists_eq_succ_of_ne_zero hne
        rw [hn] at halpha
        simp only [Nat.succ_eq_add_one, List.take_succ_cons, List.map_cons, String.toList_ofList,
          List.head?_cons, Option.any_some, isAlpha_toLower] at halpha
        exact ha halpha

theorem nextWord?_eq_some (hr : endsWord r = true) {w : String}
    (hw : w.toList.head?.any Char.isAlpha = true) :
    Scan.nextWord? r = some w ↔ wordsAhead 1 r = [w.toList] := by
  have h := nextWord?_any hr (p := (· == w)) fun v hv => beq_iff_eq.mp hv ▸ hw
  have hsome : ∀ o : Option String, o = some w ↔ o.any (· == w) = true := by
    intro o
    cases o <;> simp
  rw [hsome, h]
  simp only [wordsAhead]
  split
  · simp [← String.toList_inj]
  · simp

theorem endsWord_drop_word (next : List Char) (h : next.head?.any Scan.isWordChar = true) :
    endsWord (next.drop (Scan.word next)) = true := by
  cases next with
  | nil => cases h
  | cons c next =>
    simp only [List.head?_cons, Option.any_some] at h
    have := Scan.head?_drop_takeWhile (fun d => Scan.isWordChar d || d == '$') next
    rw [Scan.word, if_pos h, Nat.add_comm, List.drop_succ_cons, endsWord, this]
    rfl

/-- The text after the first word ahead. -/
theorem wordsAhead_two {w : List Char} (h : wordsAhead 1 r = [w]) :
    endsWord ((r.dropWhile isBlank).drop w.length) = true ∧
      wordsAhead 2 r = w :: wordsAhead 1 ((r.dropWhile isBlank).drop w.length) := by
  rw [dropWhile_eq_drop]
  simp only [wordsAhead] at h
  split at h
  · next hc =>
    obtain rfl := (List.cons.inj h).1
    have hlen : ((List.take (Scan.word (r.drop (Scan.blanks r))) (r.drop (Scan.blanks r))).map
        Char.toLower).length = Scan.word (r.drop (Scan.blanks r)) := by
      rw [List.length_map, List.length_take, Nat.min_eq_left (Scan.word_le _)]
    rw [hlen]
    constructor
    · refine endsWord_drop_word _ ?_
      generalize r.drop (Scan.blanks r) = next at hc
      cases next with
      | nil => simp at hc
      | cons c next =>
        simp only [List.head?_cons, Option.any_some, Bool.and_eq_true] at hc ⊢
        simp [Scan.isWordChar, Char.isAlphanum, hc.2]
    · conv_lhs => rw [wordsAhead]
      simp only [hc, if_true]
  · cases h

theorem wordsAhead_one {u v : List Char} (h : wordsAhead 2 r = [u, v]) : wordsAhead 1 r = [u] := by
  simp only [wordsAhead] at h ⊢
  split at h
  · next hc => rw [if_pos hc, (List.cons.inj h).1]
  · cases h

/-- `EXISTS` or `NOT EXISTS` are words ahead. -/
theorem existsFollows_iff (hr : endsWord r = true) :
    existsFollows r = true ↔
      wordsAhead 1 r = ["exists".toList] ∨ wordsAhead 2 r = ["not".toList, "exists".toList] := by
  have hexists := nextWord?_eq_some hr (w := "exists") (by decide)
  have hnot := nextWord?_eq_some hr (w := "not") (by decide)
  unfold existsFollows
  split
  · next h => exact ⟨fun _ => .inl (hexists.mp h), fun _ => rfl⟩
  · next h =>
    have hone := hnot.mp h
    obtain ⟨hends, htwo⟩ := wordsAhead_two hone
    rw [beq_iff_eq, htwo, hone]
    rw [show "not".toList.length = 3 from rfl] at hends ⊢
    rw [nextWord?_eq_some hends (by decide)]
    simp
  · next hne hnn =>
    refine ⟨fun h => absurd h Bool.false_ne_true, ?_⟩
    rintro (h | h)
    · exact absurd (hexists.mpr h) hne
    · exact absurd (hnot.mpr (wordsAhead_one h)) hnn

/-- An opener opens something before one text if it does before the other. -/
theorem Facing.opensNothing (hf : Facing r r') {m m' : Memory}
    (hm : m.atStatementStart = m'.atStatementStart) (key : String) :
    m.opensNothing key r = m'.opensNothing key r' := by
  have hexists : existsFollows r = existsFollows r' := by
    rw [Bool.eq_iff_iff, existsFollows_iff hf.left, existsFollows_iff hf.right, hf.ahead, hf.ahead]
  have hend : ∀ r : List Char, ((r.dropWhile isBlank).head?.isNone ||
      (r.dropWhile isBlank).head? == some ';') = (r.dropWhile isBlank).head?.all (· == ';') := by
    intro r
    cases (r.dropWhile isBlank).head? <;> simp
  have hwords : (Scan.nextWord? r).any transactionWords.contains =
      (Scan.nextWord? r').any transactionWords.contains := by
    have hp : ∀ w, transactionWords.contains w = true → w.toList.head?.any Char.isAlpha = true := by
      intro w hw
      simp only [transactionWords, List.contains_cons, List.contains_nil, Bool.or_false,
        Bool.or_eq_true, beq_iff_eq] at hw
      rcases hw with rfl | rfl | rfl | rfl | rfl | rfl <;> decide
    rw [nextWord?_any hf.left hp, nextWord?_any hf.right hp, hf.ahead]
  unfold Memory.opensNothing
  split
  · simp only [hend, hf.ends, hwords]
  · rw [hexists, hm]
  · rw [hm]
  · rw [hm]
  · rfl

/-! ## Texts that face each other -/

/-- A text that goes on with no letter after its blanks has no words ahead. -/
theorem wordsAhead_eq_nil {r : List Char}
    (h : (r.dropWhile isBlank).head?.any Char.isAlpha = false) (n : Nat) : wordsAhead n r = [] := by
  rw [dropWhile_eq_drop] at h
  cases n with
  | zero => rfl
  | succ n => simp only [wordsAhead, h, Bool.and_false, Bool.false_eq_true, if_false]

theorem dropWhile_blanks {g s : List Char} (hg : ∀ c ∈ g, isBlank c = true)
    (hs : s.head?.any isBlank = false) : (g ++ s).dropWhile isBlank = s := by
  rw [List.dropWhile_append_of_pos hg]
  cases s with
  | nil => rfl
  | cons c s => rw [List.dropWhile_cons_of_neg (by simpa using hs)]

/-- Two texts that go on with no letter after their blanks face each other if both or neither end
the statement. -/
theorem Facing.of_head {g g' s s' : List Char} (hg : ∀ c ∈ g, isBlank c = true)
    (hg' : ∀ c ∈ g', isBlank c = true) (hs : s.head?.any isBlank = false)
    (hs' : s'.head?.any isBlank = false) (left : endsWord (g ++ s) = true)
    (right : endsWord (g' ++ s') = true) (ha : s.head?.any Char.isAlpha = false)
    (ha' : s'.head?.any Char.isAlpha = false)
    (ends : s.head?.all (· == ';') = s'.head?.all (· == ';')) : Facing (g ++ s) (g' ++ s') where
  left := left
  right := right
  ahead n := by
    rw [wordsAhead_eq_nil (by rwa [dropWhile_blanks hg hs]),
      wordsAhead_eq_nil (by rwa [dropWhile_blanks hg' hs'])]
  ends := by rwa [dropWhile_blanks hg hs, dropWhile_blanks hg' hs']

/-- Blanks stand before a letter that no word runs into. -/
theorem isGap_of_endsWord {g s : List Char} (hg : ∀ c ∈ g, isBlank c = true)
    (hs : s.head?.any Char.isAlpha = true) (h : endsWord (g ++ s) = true) : IsGap g := by
  refine ⟨?_, hg⟩
  rintro rfl
  cases s with
  | nil => cases hs
  | cons c s =>
    simp only [List.head?_cons, Option.any_some] at hs
    simp [endsWord, Scan.isWordChar, Char.isAlphanum, hs] at h

/-- Two texts that go on with words after their blanks face each other if the words are the same. -/
theorem Facing.of_words {g g' s s' : List Char} (hg : ∀ c ∈ g, isBlank c = true)
    (hg' : ∀ c ∈ g', isBlank c = true) (hs : s.head?.any Char.isAlpha = true)
    (hs' : s'.head?.any Char.isAlpha = true) (left : endsWord (g ++ s) = true)
    (right : endsWord (g' ++ s') = true)
    (ahead : ∀ n, IsGap g → IsGap g' → wordsAhead n (g ++ s) = wordsAhead n (g' ++ s')) :
    Facing (g ++ s) (g' ++ s') where
  left := left
  right := right
  ahead n := ahead n (isGap_of_endsWord hg hs left) (isGap_of_endsWord hg' hs' right)
  ends := by
    have hhead : ∀ {s : List Char}, s.head?.any Char.isAlpha = true →
        s.head?.any isBlank = false ∧ s.head?.all (· == ';') = false := by
      intro s hs
      cases s with
      | nil => cases hs
      | cons c s =>
        simp only [List.head?_cons, Option.any_some, Option.all_some] at hs ⊢
        refine ⟨not_isBlank_of_isAlpha hs, ?_⟩
        rw [beq_eq_false_iff_ne]
        rintro rfl
        exact absurd hs (by decide)
    rw [dropWhile_blanks hg (hhead hs).1, dropWhile_blanks hg' (hhead hs').1, (hhead hs).2,
      (hhead hs').2]

/-- A phrase ends where a word does. -/
theorem endsWord_of_phrases {n length : Nat} {text key : List Char}
    (h : (key, length) ∈ phrases n text) (hs : text.head?.any Scan.isWordChar = true) :
    endsWord (text.drop length) = true := by
  induction n generalizing text key length with
  | zero => simp [phrases] at h
  | succ n ih =>
    rw [phrases_succ, List.mem_cons, Prod.mk.injEq] at h
    rcases h with ⟨_, rfl⟩ | h
    · exact endsWord_drop_word text hs
    · obtain ⟨⟨k, len⟩, hmem, heq⟩ := List.mem_map.mp h
      obtain ⟨_, rfl⟩ := Prod.mk.inj heq
      simp only [continued] at hmem
      split at hmem
      · next hgap =>
        have halpha := (Bool.and_eq_true_iff.mp hgap).2
        rw [Nat.add_assoc, ← List.drop_drop, ← List.drop_drop]
        refine ih hmem ?_
        rw [Option.any_eq_true] at halpha ⊢
        obtain ⟨c, hc, ha⟩ := halpha
        exact ⟨c, hc, by simp [Scan.isWordChar, Char.isAlphanum, ha]⟩
      · cases hmem

theorem wordsAhead_quote {g : List Char} (hg : IsGap g) {c : Char} (hc : c.isAlpha = true)
    (s : List Char) (n : Nat) :
    wordsAhead (n + 1) (g ++ c :: '\x27' :: s) = [[c.toLower]] := by
  have hw : IsWord [c] := ⟨c, [], rfl, by simp [Scan.isWordChar, Char.isAlphanum, hc], by simp⟩
  have := hg.wordsAhead hw (by simpa using hc) (r := '\x27' :: s) (by simp [endsWord, Scan.isWordChar, Char.isAlphanum, Char.isAlpha, Char.isUpper, Char.isLower, Char.isDigit]) n
  rw [List.singleton_append] at this
  rw [this, wordsAhead_eq_nil (by simp [isBlank, Char.isAlpha, Char.isUpper, Char.isLower])]
  rfl

end SqlFormat.Lexer
