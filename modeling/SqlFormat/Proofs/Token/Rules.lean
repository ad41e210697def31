import Mathlib
import SqlFormat.Dialect
import SqlFormat.Proofs.Token.Scan

/-!
# The rules of the lexer as a relation

`Reads` says which rule reads the head of a text, and that the rules before it do not apply. It is the
graph of `lexeme`, so that a proof about one lexeme is a case analysis over the rules.

Results: `lexeme_reads` and `Reads.eq` (the relation is the function), `lexeme_length_pos` and
`lexeme_length_le` (a cut takes at least one character and stays inside the text).
-/

namespace SqlFormat.Lexer

open Text

variable {lexicon : Lexicon} {memory : Memory} {text : List Char} {found : Lexeme}

/-- Neither blanks nor a comment nor a string starts at the head of the text. These are the rules
that take no account of what was read before. -/
structure Bare (lexicon : Lexicon) (text : List Char) : Prop where
  blanks : blanks? text = none
  comment : comment? lexicon text = none
  dollar : dollarString? lexicon text = none
  quoted : quotedString? lexicon text = none
  prefixed : prefixedString? lexicon text = none

/-- The rule that reads the head of a text, and what it makes of it. -/
inductive Reads (lexicon : Lexicon) (memory : Memory) (text : List Char) : Lexeme → Prop
  | blanks {found : Lexeme} (h : blanks? text = some found) : Reads lexicon memory text found
  | comment {found : Lexeme} (hb : blanks? text = none) (h : comment? lexicon text = some found) :
      Reads lexicon memory text found
  | dollar {found : Lexeme} (hb : blanks? text = none) (hc : comment? lexicon text = none)
      (h : dollarString? lexicon text = some found) : Reads lexicon memory text found
  | quoted {found : Lexeme} (hb : blanks? text = none) (hc : comment? lexicon text = none)
      (hd : dollarString? lexicon text = none) (h : quotedString? lexicon text = some found) :
      Reads lexicon memory text found
  | prefixed {found : Lexeme} (hb : blanks? text = none) (hc : comment? lexicon text = none)
      (hd : dollarString? lexicon text = none) (hq : quotedString? lexicon text = none)
      (h : prefixedString? lexicon text = some found) : Reads lexicon memory text found
  | word {found : Lexeme} (bare : Bare lexicon text)
      (h : word? lexicon memory text = some found) : Reads lexicon memory text found
  | indexed {found : Lexeme} (bare : Bare lexicon text) (hw : word? lexicon memory text = none)
      (h : indexedPlaceholder? lexicon memory text = some found) : Reads lexicon memory text found
  | named {found : Lexeme} (bare : Bare lexicon text) (hw : word? lexicon memory text = none)
      (hi : indexedPlaceholder? lexicon memory text = none)
      (h : namedPlaceholder? lexicon text = some found) : Reads lexicon memory text found
  | sessionVariable {found : Lexeme} (bare : Bare lexicon text)
      (hw : word? lexicon memory text = none)
      (hi : indexedPlaceholder? lexicon memory text = none)
      (hn : namedPlaceholder? lexicon text = none)
      (h : sessionVariable? lexicon text = some found) : Reads lexicon memory text found
  | number {found : Lexeme} (bare : Bare lexicon text) (hw : word? lexicon memory text = none)
      (hi : indexedPlaceholder? lexicon memory text = none)
      (hn : namedPlaceholder? lexicon text = none) (hv : sessionVariable? lexicon text = none)
      (h : number? memory text = some found) : Reads lexicon memory text found
  | bracket {found : Lexeme} (bare : Bare lexicon text) (hw : word? lexicon memory text = none)
      (hi : indexedPlaceholder? lexicon memory text = none)
      (hn : namedPlaceholder? lexicon text = none) (hv : sessionVariable? lexicon text = none)
      (hm : number? memory text = none) (h : bracket? lexicon text = some found) :
      Reads lexicon memory text found
  | operator (bare : Bare lexicon text) (hw : word? lexicon memory text = none)
      (hi : indexedPlaceholder? lexicon memory text = none)
      (hn : namedPlaceholder? lexicon text = none) (hv : sessionVariable? lexicon text = none)
      (hm : number? memory text = none) (hp : bracket? lexicon text = none) :
      Reads lexicon memory text (Lexer.operator text)

theorem lexeme_reads (lexicon : Lexicon) (memory : Memory) (text : List Char) :
    Reads lexicon memory text (lexeme lexicon memory text) := by
  unfold lexeme
  cases hb : blanks? text with
  | some l => exact .blanks hb
  | none =>
  cases hc : comment? lexicon text with
  | some l => exact .comment hb hc
  | none =>
  cases hd : dollarString? lexicon text with
  | some l => exact .dollar hb hc hd
  | none =>
  cases hq : quotedString? lexicon text with
  | some l => exact .quoted hb hc hd hq
  | none =>
  cases hp : prefixedString? lexicon text with
  | some l => exact .prefixed hb hc hd hq hp
  | none =>
  have bare : Bare lexicon text := ⟨hb, hc, hd, hq, hp⟩
  cases hw : word? lexicon memory text with
  | some l => exact .word bare hw
  | none =>
  cases hi : indexedPlaceholder? lexicon memory text with
  | some l => exact .indexed bare hw hi
  | none =>
  cases hn : namedPlaceholder? lexicon text with
  | some l => exact .named bare hw hi hn
  | none =>
  cases hv : sessionVariable? lexicon text with
  | some l => exact .sessionVariable bare hw hi hn hv
  | none =>
  cases hm : number? memory text with
  | some l => exact .number bare hw hi hn hv hm
  | none =>
  cases hk : bracket? lexicon text with
  | some l => exact .bracket bare hw hi hn hv hm hk
  | none => exact .operator bare hw hi hn hv hm hk

/-- The relation is the function. -/
theorem Reads.eq (h : Reads lexicon memory text found) : lexeme lexicon memory text = found := by
  unfold lexeme
  cases h with
  | blanks h => simp [h]
  | comment hb h => simp [hb, h]
  | dollar hb hc h => simp [hb, hc, h]
  | quoted hb hc hd h => simp [hb, hc, hd, h]
  | prefixed hb hc hd hq h => simp [hb, hc, hd, hq, h]
  | word bare h => simp [bare.blanks, bare.comment, bare.dollar, bare.quoted, bare.prefixed, h]
  | indexed bare hw h =>
    simp [bare.blanks, bare.comment, bare.dollar, bare.quoted, bare.prefixed, hw, h]
  | named bare hw hi h =>
    simp [bare.blanks, bare.comment, bare.dollar, bare.quoted, bare.prefixed, hw, hi, h]
  | sessionVariable bare hw hi hn h =>
    simp [bare.blanks, bare.comment, bare.dollar, bare.quoted, bare.prefixed, hw, hi, hn, h]
  | number bare hw hi hn hv h =>
    simp [bare.blanks, bare.comment, bare.dollar, bare.quoted, bare.prefixed, hw, hi, hn, hv, h]
  | bracket bare hw hi hn hv hm h =>
    simp [bare.blanks, bare.comment, bare.dollar, bare.quoted, bare.prefixed, hw, hi, hn, hv, hm, h]
  | operator bare hw hi hn hv hm hp =>
    simp [bare.blanks, bare.comment, bare.dollar, bare.quoted, bare.prefixed, hw, hi, hn, hv, hm, hp]

/-! ## What each rule reads -/

theorem blanks?_eq_some (h : blanks? text = some found) :
    text.head?.any isBlank = true ∧ found = .plain .whitespace (Scan.blanks text) := by
  unfold blanks? at h
  split at h
  · next hb => exact ⟨hb, (Option.some.inj h).symm⟩
  · cases h

theorem blanks?_eq_none : blanks? text = none ↔ text.head?.any isBlank = false := by
  unfold blanks?
  split <;> simp_all

theorem comment?_eq_some (h : comment? lexicon text = some found) :
    (lexicon.startsLineComment text = true ∧ found = .plain .lineComment (Scan.lineComment text)) ∨
    (lexicon.startsLineComment text = false ∧ Scan.startsBlockComment text = true ∧
      found = .plain .blockComment (Scan.blockComment text)) := by
  unfold comment? at h
  split at h
  · next hl => exact .inl ⟨hl, (Option.some.inj h).symm⟩
  · next hl =>
    split at h
    · next hb => exact .inr ⟨by simpa using hl, hb, (Option.some.inj h).symm⟩
    · cases h

theorem dollarString?_eq_some (h : dollarString? lexicon text = some found) :
    lexicon.dollarQuotes = true ∧
      ∃ n, Scan.dollarString? text = some n ∧ found = .plain .string n := by
  unfold dollarString? at h
  split at h
  · next hq =>
    obtain ⟨n, hn, rfl⟩ := Option.map_eq_some_iff.mp h
    exact ⟨hq, n, hn, rfl⟩
  · cases h

theorem quotedString?_eq_some (h : quotedString? lexicon text = some found) :
    ∃ c cs style, text = c :: cs ∧ lexicon.stringStyle? c = some style ∧
      found = .plain .string (Scan.string style text) := by
  unfold quotedString? at h
  cases text with
  | nil => simp at h
  | cons c cs =>
    simp only [List.head?_cons, Option.bind_eq_bind, Option.bind_some] at h
    cases hs : lexicon.stringStyle? c with
    | none => simp [hs] at h
    | some style =>
      rw [hs] at h
      exact ⟨c, cs, style, rfl, hs, (Option.some.inj h).symm⟩

theorem prefixedString?_eq_some (h : prefixedString? lexicon text = some found) :
    ∃ letter cs backslash, text = letter :: '\x27' :: cs ∧
      lexicon.prefixedStrings.lookup letter = some backslash ∧
      found = .plain .string
        (1 + Scan.string ⟨'\x27', '\x27', backslash⟩ ('\x27' :: cs)) := by
  unfold prefixedString? at h
  split at h
  · next letter cs =>
    cases hl : lexicon.prefixedStrings.lookup letter with
    | none => simp [hl] at h
    | some backslash =>
      rw [hl] at h
      exact ⟨letter, cs, backslash, rfl, hl, (Option.some.inj h).symm⟩
  · cases h

/-- A word is read as itself or as a phrase that the lexicon knows. -/
theorem word?_eq_some (h : word? lexicon memory text = some found) :
    text.head?.any Scan.isWordStart = true ∧
    (((memory.last.any (·.isOperator ".") = true ∨ text.head?.any Char.isAlpha = false ∨
        keyword? lexicon text = none) ∧ found = .plain .word (Scan.word text)) ∨
      (memory.last.any (·.isOperator ".") = false ∧ text.head?.any Char.isAlpha = true ∧
        ∃ kind key length, keyword? lexicon text = some (kind, key, length) ∧
          found = .plain (memory.refine kind key (text.drop length)) length)) := by
  unfold word? at h
  split at h
  · next hs =>
    refine ⟨hs, ?_⟩
    split at h
    · next hd =>
      simp only [Bool.or_eq_true, Bool.not_eq_true'] at hd
      exact .inl ⟨by tauto, (Option.some.inj h).symm⟩
    · next hd =>
      simp only [Bool.or_eq_true, Bool.not_eq_true', not_or, Bool.not_eq_false,
        Bool.not_eq_true] at hd
      cases hk : keyword? lexicon text with
      | none =>
        rw [hk] at h
        exact .inl ⟨.inr (.inr rfl), (Option.some.inj h).symm⟩
      | some found =>
        obtain ⟨kind, key, length⟩ := found
        rw [hk] at h
        exact .inr ⟨hd.1, hd.2, kind, key, length, rfl, (Option.some.inj h).symm⟩
  · cases h

theorem word?_eq_none : word? lexicon memory text = none ↔
    text.head?.any Scan.isWordStart = false := by
  unfold word?
  split
  · next hs =>
    split
    · simp [hs]
    · split <;> simp [hs]
  · next hs => simpa using hs

theorem indexedPlaceholder?_eq_some (h : indexedPlaceholder? lexicon memory text = some found) :
    ∃ c cs, text = c :: cs ∧ c ∈ lexicon.placeholders.indexed ∧
      ((cs.takeWhile Char.isDigit ≠ [] ∧
          found = ⟨.indexedPlaceholder, 1 + (cs.takeWhile Char.isDigit).length,
            some (.index (writtenIndex lexicon.placeholders.base (cs.takeWhile Char.isDigit)))⟩) ∨
        (cs.takeWhile Char.isDigit = [] ∧ c = '?' ∧
          found = ⟨.indexedPlaceholder, 1, some (.index (some memory.positional))⟩)) := by
  unfold indexedPlaceholder? at h
  split at h
  · cases h
  · next c cs =>
    split at h
    · next hc =>
      refine ⟨c, cs, rfl, by simpa using hc, ?_⟩
      simp only at h
      split at h
      · next hd => exact .inl ⟨by simpa using hd, (Option.some.inj h).symm⟩
      · next hd =>
        split at h
        · next hq =>
          exact .inr ⟨by simpa using hd, by simpa using hq, (Option.some.inj h).symm⟩
        · cases h
    · cases h

theorem namedPlaceholder?_eq_some (h : namedPlaceholder? lexicon text = some found) :
    ∃ c cs n name, text = c :: cs ∧ c ∈ lexicon.placeholders.named ∧
      placeholderName? cs = some (n, name) ∧
      found = ⟨.namedPlaceholder, 1 + n, some (.name (String.ofList name))⟩ := by
  unfold namedPlaceholder? at h
  split at h
  · cases h
  · next c cs =>
    split at h
    · next hc =>
      obtain ⟨⟨n, name⟩, hn, rfl⟩ := Option.map_eq_some_iff.mp h
      exact ⟨c, cs, n, name, rfl, by simpa using hc, hn, rfl⟩
    · cases h

theorem sessionVariable?_eq_some (h : sessionVariable? lexicon text = some found) :
    ∃ c cs, text = c :: cs ∧ c ∈ lexicon.variablePrefixes ∧
      ∃ sigils, sigils = (if cs.head? == some c then 2 else 1) ∧
        0 < Scan.word ((c :: cs).drop sigils) ∧
        found = .plain .word (sigils + Scan.word ((c :: cs).drop sigils)) := by
  unfold sessionVariable? at h
  split at h
  · cases h
  · next c cs =>
    split at h
    · next hc =>
      refine ⟨c, cs, rfl, by simpa using hc, _, rfl, ?_⟩
      generalize (if cs.head? == some c then 2 else 1) = sigils at h ⊢
      simp only at h
      split at h
      · cases h
      · next hn => exact ⟨Nat.pos_of_ne_zero hn, (Option.some.inj h).symm⟩
    · cases h

theorem startsFraction_eq_true (h : memory.startsFraction text = true) :
    ∃ d ds, text = '.' :: d :: ds ∧ d.isDigit = true := by
  unfold Memory.startsFraction at h
  split at h
  · next d ds =>
    simp only [Bool.and_eq_true] at h
    exact ⟨d, ds, rfl, h.1⟩
  · cases h

theorem number?_eq_some (h : number? memory text = some found) :
    (text.head?.any Char.isDigit = true ∨ memory.startsFraction text = true) ∧
      found = .plain .number (Scan.number text) := by
  unfold number? at h
  split at h
  · next hn => exact ⟨by simpa using hn, (Option.some.inj h).symm⟩
  · cases h

theorem bracket?_eq_some (h : bracket? lexicon text = some found) :
    ∃ c cs, text = c :: cs ∧
      ((c = '(' ∧ found = .plain .openParen 1) ∨ (c = ')' ∧ found = .plain .closeParen 1) ∨
        (lexicon.bracketParens = true ∧ c = '[' ∧ found = .plain .openParen 1) ∨
        (lexicon.bracketParens = true ∧ c = ']' ∧ found = .plain .closeParen 1)) := by
  cases text with
  | nil => simp [bracket?] at h
  | cons c cs =>
    refine ⟨c, cs, rfl, ?_⟩
    simp only [bracket?, List.head?_cons] at h
    split at h
    · next hc => exact .inl ⟨Option.some.inj hc, (Option.some.inj h).symm⟩
    · next hc => exact .inr (.inl ⟨Option.some.inj hc, (Option.some.inj h).symm⟩)
    · next hc =>
      split at h
      · next hp => exact .inr (.inr (.inl ⟨hp, Option.some.inj hc, (Option.some.inj h).symm⟩))
      · cases h
    · next hc =>
      split at h
      · next hp => exact .inr (.inr (.inr ⟨hp, Option.some.inj hc, (Option.some.inj h).symm⟩))
      · cases h
    · cases h

/-! ## Phrases -/

theorem phrases_length {n : Nat} {text : List Char} {key : List Char} {length : Nat}
    (h : (key, length) ∈ phrases n text) : Scan.word text ≤ length ∧ length ≤ text.length := by
  induction n generalizing text key length with
  | zero => simp [phrases] at h
  | succ n ih =>
    have hw := Scan.word_le text
    simp only [phrases, List.mem_cons, Prod.mk.injEq] at h
    rcases h with ⟨_, rfl⟩ | h
    · exact ⟨le_rfl, hw⟩
    · split at h
      · obtain ⟨⟨k, len⟩, hk, heq⟩ := List.mem_map.mp h
        simp only [Prod.mk.injEq] at heq
        obtain ⟨_, rfl⟩ := heq
        have hlen := (ih hk).2
        have hb := Scan.blanks_le (text.drop (Scan.word text))
        simp only [List.length_drop] at hlen hb
        omega
      · simp at h

/-- A keyword is one of the phrases at the head of the text. -/
theorem keyword?_eq_some {kind : TokenKind} {key : String} {length : Nat}
    (h : keyword? lexicon text = some (kind, key, length)) :
    (key.toList, length) ∈ phrases Lexicon.maxPhraseWords text ∧
      lexicon.classify key = some kind := by
  unfold keyword? at h
  obtain ⟨⟨k, len⟩, hmem, hk⟩ := List.exists_of_findSome?_eq_some h
  obtain ⟨kind', hc, heq⟩ := Option.map_eq_some_iff.mp hk
  simp only [Prod.mk.injEq] at heq
  obtain ⟨rfl, rfl, rfl⟩ := heq
  exact ⟨by simpa using hmem, hc⟩

/-! ## Kinds -/

theorem classify_kind {key : String} {kind : TokenKind}
    (h : lexicon.classify key = some kind) :
    kind.isReserved = true ∨ kind = .openParen ∨ kind = .closeParen := by
  unfold Lexicon.classify at h
  split_ifs at h <;> cases h <;> simp [TokenKind.isReserved]

theorem refine_kind (memory : Memory) {kind : TokenKind} (key : String) (after : List Char)
    (h : kind.isReserved = true ∨ kind = .openParen ∨ kind = .closeParen) :
    (memory.refine kind key after).isReserved = true ∨ memory.refine kind key after = .openParen ∨
      memory.refine kind key after = .closeParen := by
  unfold Memory.refine
  split
  · exact .inl rfl
  · exact h

/-- White space is what starts with a blank. -/
theorem Reads.kind_eq_whitespace (h : Reads lexicon memory text found) :
    found.kind = .whitespace ↔ text.head?.any isBlank = true := by
  have hnone : ∀ {text}, blanks? text = none → text.head?.any isBlank = false :=
    fun h => blanks?_eq_none.mp h
  cases h with
  | blanks h =>
    obtain ⟨hb, rfl⟩ := blanks?_eq_some h
    simp [hb, Lexeme.plain]
  | comment hb h =>
    rcases comment?_eq_some h with ⟨_, rfl⟩ | ⟨_, _, rfl⟩ <;> simp [hnone hb, Lexeme.plain]
  | dollar hb _ h =>
    obtain ⟨_, n, _, rfl⟩ := dollarString?_eq_some h
    simp [hnone hb, Lexeme.plain]
  | quoted hb _ _ h =>
    obtain ⟨c, cs, style, rfl, _, rfl⟩ := quotedString?_eq_some h
    simpa [Lexeme.plain] using hnone hb
  | prefixed hb _ _ _ h =>
    obtain ⟨letter, cs, backslash, rfl, _, rfl⟩ := prefixedString?_eq_some h
    simpa [Lexeme.plain] using hnone hb
  | word bare h =>
    rcases (word?_eq_some h).2 with ⟨_, rfl⟩ | ⟨_, _, kind, key, length, hk, rfl⟩
    · simp [hnone bare.blanks, Lexeme.plain]
    · have hkind := refine_kind memory key (text.drop length)
        (classify_kind (keyword?_eq_some hk).2)
      simp only [hnone bare.blanks, Lexeme.plain, Bool.false_eq_true, iff_false]
      intro hw
      rw [hw] at hkind
      simp [TokenKind.isReserved] at hkind
  | indexed bare _ h =>
    obtain ⟨c, cs, rfl, _, ⟨_, rfl⟩ | ⟨_, _, rfl⟩⟩ := indexedPlaceholder?_eq_some h <;>
      simpa using hnone bare.blanks
  | named bare _ _ h =>
    obtain ⟨c, cs, n, name, rfl, _, _, rfl⟩ := namedPlaceholder?_eq_some h
    simpa using hnone bare.blanks
  | sessionVariable bare _ _ _ h =>
    obtain ⟨c, cs, rfl, _, sigils, _, _, rfl⟩ := sessionVariable?_eq_some h
    simpa [Lexeme.plain] using hnone bare.blanks
  | number bare _ _ _ _ h =>
    obtain ⟨_, rfl⟩ := number?_eq_some h
    simp [hnone bare.blanks, Lexeme.plain]
  | bracket bare _ _ _ _ _ h =>
    obtain ⟨c, cs, rfl, ⟨_, rfl⟩ | ⟨_, rfl⟩ | ⟨_, _, rfl⟩ | ⟨_, _, rfl⟩⟩ := bracket?_eq_some h <;>
      simpa [Lexeme.plain] using hnone bare.blanks
  | operator bare => simp [hnone bare.blanks, Lexer.operator, Lexeme.plain]

theorem Reads.whitespace (h : Reads lexicon memory text found) (hk : found.kind = .whitespace) :
    found = .plain .whitespace (Scan.blanks text) := by
  have hb : blanks? text = some (.plain .whitespace (Scan.blanks text)) := by
    unfold blanks?
    rw [if_pos (h.kind_eq_whitespace.mp hk)]
  rw [← h.eq]
  exact (Reads.blanks hb).eq

/-- A line comment is what a marker starts, up to the line feed. -/
theorem Reads.lineComment (h : Reads lexicon memory text found) (hk : found.kind = .lineComment) :
    blanks? text = none ∧ lexicon.startsLineComment text = true ∧
      found = .plain .lineComment (Scan.lineComment text) := by
  cases h with
  | blanks h => obtain ⟨_, rfl⟩ := blanks?_eq_some h; cases hk
  | comment hb h =>
    rcases comment?_eq_some h with ⟨hl, rfl⟩ | ⟨_, _, rfl⟩
    · exact ⟨hb, hl, rfl⟩
    · cases hk
  | dollar _ _ h => obtain ⟨_, n, _, rfl⟩ := dollarString?_eq_some h; cases hk
  | quoted _ _ _ h => obtain ⟨c, cs, style, _, _, rfl⟩ := quotedString?_eq_some h; cases hk
  | prefixed _ _ _ _ h => obtain ⟨_, _, _, _, _, rfl⟩ := prefixedString?_eq_some h; cases hk
  | word _ h =>
    rcases (word?_eq_some h).2 with ⟨_, rfl⟩ | ⟨_, _, kind, key, length, hw, rfl⟩
    · cases hk
    · have hkind := refine_kind memory key (text.drop length)
        (classify_kind (keyword?_eq_some hw).2)
      simp only [Lexeme.plain] at hk
      rw [hk] at hkind
      simp [TokenKind.isReserved] at hkind
  | indexed _ _ h =>
    obtain ⟨c, cs, _, _, ⟨_, rfl⟩ | ⟨_, _, rfl⟩⟩ := indexedPlaceholder?_eq_some h <;> cases hk
  | named _ _ _ h => obtain ⟨_, _, _, _, _, _, _, rfl⟩ := namedPlaceholder?_eq_some h; cases hk
  | sessionVariable _ _ _ _ h =>
    obtain ⟨_, _, _, _, _, _, _, rfl⟩ := sessionVariable?_eq_some h; cases hk
  | number _ _ _ _ _ h => obtain ⟨_, rfl⟩ := number?_eq_some h; cases hk
  | bracket _ _ _ _ _ _ h =>
    obtain ⟨c, cs, _, ⟨_, rfl⟩ | ⟨_, rfl⟩ | ⟨_, _, rfl⟩ | ⟨_, _, rfl⟩⟩ := bracket?_eq_some h <;>
      cases hk
  | operator => cases hk

/-! ## Lengths -/

theorem placeholderName?_le {cs : List Char} {n : Nat} {name : List Char}
    (h : placeholderName? cs = some (n, name)) : n ≤ cs.length := by
  unfold placeholderName? at h
  split at h
  · cases h
  · next c cs =>
    simp only at h
    split at h
    · cases h
      exact Scan.string_le _ (by simp)
    · split at h
      · cases h
        exact Scan.through_le _ _
      · split at h
        · cases h
          exact Scan.word_le _
        · cases h

/-- The markers of line comments in every dialect. -/
theorem lineComments_subset (dialect : Dialect) :
    ∀ marker ∈ dialect.lexicon.lineComments, marker = "--" ∨ marker = "#" := by
  cases dialect <;> decide

theorem mem_lineComments (dialect : Dialect) : "--" ∈ dialect.lexicon.lineComments := by
  cases dialect <;> decide

theorem startsLineComment_iff (dialect : Dialect) (text : List Char) :
    dialect.lexicon.startsLineComment text = true ↔
      ("--" ∈ dialect.lexicon.lineComments ∧ ['-', '-'] <+: text) ∨
      ("#" ∈ dialect.lexicon.lineComments ∧ ['#'] <+: text) := by
  simp only [Lexicon.startsLineComment, List.any_eq_true, List.isPrefixOf_iff_prefix]
  constructor
  · rintro ⟨marker, hmem, hp⟩
    rcases lineComments_subset dialect marker hmem with rfl | rfl
    · exact .inl ⟨hmem, hp⟩
    · exact .inr ⟨hmem, hp⟩
  · rintro (⟨hmem, hp⟩ | ⟨hmem, hp⟩)
    · exact ⟨_, hmem, hp⟩
    · exact ⟨_, hmem, hp⟩

theorem Reads.length_le (h : Reads lexicon memory text found) (hne : text ≠ []) :
    found.length ≤ text.length := by
  have hpos := List.length_pos_iff.mpr hne
  cases h with
  | blanks h =>
    obtain rfl := (blanks?_eq_some h).2
    exact Scan.blanks_le text
  | comment _ h =>
    rcases comment?_eq_some h with ⟨_, heq⟩ | ⟨_, hb, heq⟩ <;> subst heq
    · exact Scan.lineComment_le text
    · exact Scan.blockComment_le hb
  | dollar _ _ h =>
    obtain ⟨_, n, hn, heq⟩ := dollarString?_eq_some h
    subst heq
    exact (Scan.dollarString?_le hn).2
  | quoted _ _ _ h =>
    obtain ⟨c, cs, style, _, _, heq⟩ := quotedString?_eq_some h
    subst heq
    exact Scan.string_le style hne
  | prefixed _ _ _ _ h =>
    obtain ⟨letter, cs, backslash, htext, _, heq⟩ := prefixedString?_eq_some h
    have := Scan.string_le ⟨'\x27', '\x27', backslash⟩ (List.cons_ne_nil '\x27' cs)
    subst heq htext
    simp only [Lexeme.plain, List.length_cons] at this ⊢
    omega
  | word _ h =>
    rcases (word?_eq_some h).2 with ⟨_, heq⟩ | ⟨_, _, kind, key, length, hk, heq⟩ <;> subst heq
    · exact Scan.word_le text
    · exact (phrases_length (keyword?_eq_some hk).1).2
  | indexed _ _ h =>
    obtain ⟨c, cs, htext, _, ⟨_, heq⟩ | ⟨_, _, heq⟩⟩ := indexedPlaceholder?_eq_some h <;>
      subst heq htext
    · have := Scan.length_takeWhile_le Char.isDigit cs
      simp only [List.length_cons]
      omega
    · simp
  | named _ _ _ h =>
    obtain ⟨c, cs, n, name, htext, _, hn, heq⟩ := namedPlaceholder?_eq_some h
    have := placeholderName?_le hn
    subst heq htext
    simp only [List.length_cons]
    omega
  | sessionVariable _ _ _ _ h =>
    obtain ⟨c, cs, htext, _, sigils, _, hw, heq⟩ := sessionVariable?_eq_some h
    have := Scan.word_le ((c :: cs).drop sigils)
    subst heq htext
    simp only [Lexeme.plain, List.length_drop] at this ⊢
    omega
  | number _ _ _ _ _ h =>
    obtain rfl := (number?_eq_some h).2
    exact Scan.number_le text
  | bracket _ _ _ _ _ _ h =>
    obtain ⟨c, cs, _, ⟨_, heq⟩ | ⟨_, heq⟩ | ⟨_, _, heq⟩ | ⟨_, _, heq⟩⟩ := bracket?_eq_some h <;>
      subst heq <;> exact hpos
  | operator =>
    have := Scan.compoundOperator_le text
    simp only [Lexer.operator, Lexeme.plain]
    omega

theorem Reads.length_pos {dialect : Dialect} (h : Reads dialect.lexicon memory text found) :
    0 < found.length := by
  cases h with
  | blanks h =>
    obtain ⟨hb, heq⟩ := blanks?_eq_some h
    subst heq
    cases text with
    | nil => simp at hb
    | cons c cs =>
      simp only [List.head?_cons, Option.any_some] at hb
      simp [Lexeme.plain, Scan.blanks, hb]
  | comment _ h =>
    rcases comment?_eq_some h with ⟨hl, heq⟩ | ⟨_, _, heq⟩ <;> subst heq
    · rcases (startsLineComment_iff dialect text).mp hl with ⟨_, rest, rfl⟩ | ⟨_, rest, rfl⟩ <;>
        simp [Lexeme.plain, Scan.lineComment]
    · simp only [Lexeme.plain, Scan.blockComment]
      omega
  | dollar _ _ h =>
    obtain ⟨_, n, hn, heq⟩ := dollarString?_eq_some h
    subst heq
    exact (Scan.dollarString?_le hn).1
  | quoted _ _ _ h =>
    obtain ⟨c, cs, style, _, _, heq⟩ := quotedString?_eq_some h
    subst heq
    exact Scan.string_pos style text
  | prefixed _ _ _ _ h =>
    obtain ⟨letter, cs, backslash, _, _, heq⟩ := prefixedString?_eq_some h
    subst heq
    simp only [Lexeme.plain]
    omega
  | word _ h =>
    obtain ⟨hs, hr⟩ := word?_eq_some h
    have hw : 0 < Scan.word text := by
      cases text with
      | nil => simp at hs
      | cons c cs => exact Scan.word_pos (Scan.isWordChar_of_isWordStart hs)
    rcases hr with ⟨_, heq⟩ | ⟨_, _, kind, key, length, hk, heq⟩ <;> subst heq
    · exact hw
    · have := (phrases_length (keyword?_eq_some hk).1).1
      simp only [Lexeme.plain]
      omega
  | indexed _ _ h =>
    obtain ⟨c, cs, _, _, ⟨_, heq⟩ | ⟨_, _, heq⟩⟩ := indexedPlaceholder?_eq_some h <;> subst heq
    · simp only
      omega
    · exact Nat.one_pos
  | named _ _ _ h =>
    obtain ⟨c, cs, n, name, _, _, _, heq⟩ := namedPlaceholder?_eq_some h
    subst heq
    simp only
    omega
  | sessionVariable _ _ _ _ h =>
    obtain ⟨c, cs, _, _, sigils, _, hw, heq⟩ := sessionVariable?_eq_some h
    subst heq
    simp only [Lexeme.plain]
    omega
  | number _ _ _ _ _ h =>
    obtain ⟨hn, heq⟩ := number?_eq_some h
    subst heq
    exact Scan.number_pos (hn.imp_right startsFraction_eq_true)
  | bracket _ _ _ _ _ _ h =>
    obtain ⟨c, cs, _, ⟨_, heq⟩ | ⟨_, heq⟩ | ⟨_, _, heq⟩ | ⟨_, _, heq⟩⟩ := bracket?_eq_some h <;>
      subst heq <;> exact Nat.one_pos
  | operator =>
    simp only [Lexer.operator, Lexeme.plain]
    omega

/-- A cut stays inside the text. -/
theorem lexeme_length_le (lexicon : Lexicon) (memory : Memory) {text : List Char}
    (hne : text ≠ []) : (lexeme lexicon memory text).length ≤ text.length :=
  (lexeme_reads lexicon memory text).length_le hne

/-- A cut takes at least one character. -/
theorem lexeme_length_pos (dialect : Dialect) (memory : Memory) (text : List Char) :
    0 < (lexeme dialect.lexicon memory text).length :=
  (lexeme_reads dialect.lexicon memory text).length_pos

end SqlFormat.Lexer
