import Mathlib
import SqlFormat.Parameters
import SqlFormat.Proofs.Token.Lossless
import SqlFormat.Proofs.Token.Quoted
import SqlFormat.Proofs.Text.Count

/-!
# The keys of placeholders

A bare `?` is numbered by the bare `?` before it, and by nothing else in the text. A placeholder with a
number stands for that number, counted from the base of the dialect. A name means the same whether it
is written as a word, in quotes, or in square brackets.

Results: `bare_keys`, `numbered_key`, `reads_numbered`, `reads_spelled`, `placeholder_keys`.
-/

namespace SqlFormat

open Text

/-- A placeholder that is a question mark alone. -/
def Token.isBarePlaceholder (token : Token) : Bool :=
  token.kind == .indexedPlaceholder && token.text == "?"

/-- The key of a written number: it counts from the base, and a number below the base or beyond 64 bits
stands for no parameter. -/
def Lexicon.numberKey (lexicon : Lexicon) (n : Nat) : PlaceholderKey :=
  .index (if lexicon.placeholders.base ≤ n ∧ n < 2 ^ 64 then some (n - lexicon.placeholders.base)
    else none)

/-- The ways to write a name behind `sigil`. What a sigil reads as a number is no name. -/
inductive Lexicon.Spells (lexicon : Lexicon) (sigil : Char) (name : List Char) : List Char → Prop
  | quoted {quote : Char} (hquote : quote ∈ ['\x22', '\x60', '\x27']) (hname : quote ∉ name) :
      Spells lexicon sigil name (quote :: (name ++ [quote]))
  | brackets (hname : ']' ∉ name) : Spells lexicon sigil name ('[' :: (name ++ [']']))
  | word (hhead : name.head?.any Scan.isWordChar = true)
      (htail : ∀ c ∈ name.tail, (Scan.isWordChar c || c == '$') = true)
      (hnumber : sigil ∈ lexicon.placeholders.indexed → name.head?.any Char.isDigit = false) :
      Spells lexicon sigil name name

/-- What follows does not go on with the name: a second quote would stand for one in the name. -/
def Lexer.Ends (written rest : List Char) : Prop :=
  match written.head? with
  | some c =>
    if c ∈ ['\x22', '\x60', '\x27'] then rest.head? ≠ some c
    else if c = '[' then True
    else rest.head?.any (fun d => Scan.isWordChar d || d == '$') = false
  | none => True

namespace Lexer

variable {dialect : Dialect} {memory : Memory} {text : List Char} {found : Lexeme}

theorem index_writtenIndex (lexicon : Lexicon) (ds : List Char) :
    .index (writtenIndex lexicon.placeholders.base ds) = lexicon.numberKey (decimalValue ds) := by
  unfold writtenIndex Lexicon.numberKey
  simp only [digitsValue_eq, Bool.and_eq_true, decide_eq_true_eq]
  rfl

/-! ## Indexed placeholders -/

/-- Only the rule for indexed placeholders reads them. -/
theorem Reads.indexedPlaceholder? (h : Reads dialect.lexicon memory text found)
    (hk : found.kind = .indexedPlaceholder) :
    indexedPlaceholder? dialect.lexicon memory text = some found := by
  cases h with
  | blanks h =>
    obtain ⟨-, rfl⟩ := blanks?_eq_some h
    cases hk
  | comment _ h => obtain ⟨-, rfl⟩ | ⟨-, -, rfl⟩ := comment?_eq_some h <;> cases hk
  | dollar _ _ h =>
    obtain ⟨-, _, -, rfl⟩ := dollarString?_eq_some h
    cases hk
  | quoted _ _ _ h =>
    obtain ⟨_, _, _, -, -, rfl⟩ := quotedString?_eq_some h
    cases hk
  | prefixed _ _ _ _ h =>
    obtain ⟨_, _, _, -, -, rfl⟩ := prefixedString?_eq_some h
    cases hk
  | word _ h =>
    obtain ⟨-, ⟨-, rfl⟩ | ⟨-, -, kind, key, length, hw, rfl⟩⟩ := word?_eq_some h
    · cases hk
    · obtain h | h | h := refine_kind memory key (text.drop length)
        (classify_kind (keyword?_eq_some hw).2)
      all_goals
        rw [show memory.refine kind key (text.drop length) = .indexedPlaceholder from hk] at h
        cases h
  | indexed _ _ h => exact h
  | named _ _ _ h =>
    obtain ⟨_, _, _, _, -, -, -, rfl⟩ := namedPlaceholder?_eq_some h
    cases hk
  | sessionVariable _ _ _ _ h =>
    obtain ⟨_, _, -, -, _, -, -, rfl⟩ := sessionVariable?_eq_some h
    cases hk
  | number _ _ _ _ _ h =>
    obtain ⟨-, rfl⟩ := number?_eq_some h
    cases hk
  | bracket _ _ _ _ _ _ h =>
    obtain ⟨_, _, -, ⟨-, rfl⟩ | ⟨-, rfl⟩ | ⟨-, -, rfl⟩ | ⟨-, -, rfl⟩⟩ := bracket?_eq_some h <;> cases hk
  | operator => cases hk

/-- An indexed placeholder is a question mark alone with the next index, or a sign and a number. -/
theorem Reads.indexed_cases (h : Reads dialect.lexicon memory text found) (pos : Nat)
    (hk : found.kind = .indexedPlaceholder) :
    ((found.token text pos).text = "?" ∧ found.key = some (.index (some memory.positional))) ∨
      ∃ c ds, c ∈ dialect.lexicon.placeholders.indexed ∧ ds ≠ [] ∧
        (∀ d ∈ ds, d.isDigit = true) ∧ (found.token text pos).text = String.ofList (c :: ds) ∧
        found.key = some (dialect.lexicon.numberKey (decimalValue ds)) := by
  obtain ⟨c, cs, rfl, hc, ⟨hds, rfl⟩ | ⟨hds, rfl, rfl⟩⟩ :=
    indexedPlaceholder?_eq_some (h.indexedPlaceholder? hk)
  · refine .inr ⟨c, _, hc, hds, fun d hd => List.mem_takeWhile_imp hd, ?_, ?_⟩
    · rw [Lexeme.token_text, Nat.add_comm, List.take_succ_cons,
        (List.prefix_iff_eq_take.mp (List.takeWhile_prefix _)).symm]
    · rw [← index_writtenIndex]
  · exact .inl ⟨rfl, rfl⟩

theorem ofList_ne_questionMark {c : Char} {ds : List Char} (h : ds ≠ []) :
    String.ofList (c :: ds) ≠ "?" := by
  intro heq
  have := congrArg String.toList heq
  rw [String.toList_ofList] at this
  exact h (List.cons.inj this).2

/-- **Bare placeholders**: they are numbered one after the other from the number that the lexer
remembers. -/
theorem bare_keys (memory : Memory) (pos : Nat) (text : List Char) :
    (((tokensFrom dialect.lexicon memory pos text).filter (·.isBarePlaceholder)).map (·.key)) =
      (List.range' memory.positional
        ((tokensFrom dialect.lexicon memory pos text).countP (·.isBarePlaceholder))).map
        fun i => some (.index (some i)) := by
  induction memory, pos, text using cut_induction dialect with
  | nil memory pos => rw [tokensFrom_nil]; rfl
  | cut memory pos text found hne hr ih =>
    rw [tokensFrom_cons dialect memory pos hne hr]
    set token := found.token text pos with htoken
    by_cases hbare : token.isBarePlaceholder = true
    · rw [List.filter_cons_of_pos hbare, List.countP_cons_of_pos hbare, List.range'_succ,
        List.map_cons, List.map_cons, ih]
      have hboth := hbare
      simp only [Token.isBarePlaceholder, Bool.and_eq_true, beq_iff_eq] at hboth
      have hpositional : (memory.after token).positional = memory.positional + 1 := by
        simp [Memory.after, hboth.1, hboth.2]
      rw [hpositional]
      obtain ⟨-, hkey⟩ | ⟨c, ds, -, hds, -, htext, -⟩ := hr.indexed_cases pos hboth.1
      · rw [show token.key = found.key from rfl, hkey]
      · exact absurd (htext.symm.trans hboth.2) (ofList_ne_questionMark hds)
    · rw [List.filter_cons_of_neg hbare, List.countP_cons_of_neg hbare, ih]
      have hpositional : (memory.after token).positional = memory.positional := by
        simp only [Token.isBarePlaceholder] at hbare
        simp only [Memory.after, if_neg hbare]
      rw [hpositional]

/-- **Numbered placeholders**: every other indexed placeholder is a sign and a number, and the number
gives its key. -/
theorem numbered_key (memory : Memory) (pos : Nat) (text : List Char) :
    ∀ token ∈ tokensFrom dialect.lexicon memory pos text, token.kind = .indexedPlaceholder →
      token.text ≠ "?" → ∃ c ds, c ∈ dialect.lexicon.placeholders.indexed ∧ ds ≠ [] ∧
        (∀ d ∈ ds, d.isDigit = true) ∧ token.text = String.ofList (c :: ds) ∧
        token.key = some (dialect.lexicon.numberKey (decimalValue ds)) :=
  forall_mem_of_cut dialect (fun _ pos _ _ _ hr hkind htext =>
    (hr.indexed_cases pos hkind).resolve_left fun h => htext h.1) memory pos text

/-! ## Texts that are placeholders -/

/-- A sign before a placeholder starts nothing else. -/
theorem Bare.of_sigil {c : Char} {cs : List Char} (hc : c ∈ ['?', '$', ':', '@'])
    (hdollar : dollarString? dialect.lexicon (c :: cs) = none) : Bare dialect.lexicon (c :: cs) := by
  have hplain : ∀ c ∈ ['?', '$', ':', '@'], isBlank c = false ∧ c ∉ ['-', '#', '/'] ∧
      c ∉ ['\x27', '\x22', '\x60', '['] ∧ c.isAlpha = false := forall_mem_of_all (by decide)
  obtain ⟨hblank, hcomment, hquote, halpha⟩ := hplain c hc
  exact ⟨blanks?_eq_none.mpr hblank, comment?_none_of_head hcomment, hdollar,
    quotedString?_cons.mpr (stringStyle?_none dialect.delimits hquote),
    prefixedString?_none_of_head dialect.delimits halpha⟩

theorem word?_none_of_sigil {c : Char} {cs : List Char} (hc : c ∈ ['?', '$', ':', '@']) :
    word? dialect.lexicon memory (c :: cs) = none := by
  have hstart : ∀ c ∈ ['?', '$', ':', '@'], Scan.isWordStart c = false :=
    forall_mem_of_all (by decide)
  exact word?_eq_none.mpr (hstart c hc)

/-- A digit behind a dollar sign opens no tag. -/
theorem dollarString?_none_of_digit {lexicon : Lexicon} {d : Char} (c : Char) (cs : List Char)
    (hd : d.isDigit = true) : dollarString? lexicon (c :: d :: cs) = none := by
  by_cases hc : c = '$'
  · subst hc
    have hword : (d.isAlphanum || d == '_') = true := by
      simp [Char.isAlphanum, hd]
    have htag : Scan.dollarTag? ('$' :: d :: cs) = none := by
      simp [Scan.dollarTag?, hword, hd]
    unfold dollarString? Scan.dollarString?
    rw [htag]
    split <;> rfl
  · exact dollarString?_none_of_head hc

/-- A sign and a number are one placeholder, up to where the digits end. -/
theorem reads_numbered (memory : Memory) {c : Char} {ds rest : List Char}
    (hc : c ∈ dialect.lexicon.placeholders.indexed) (hne : ds ≠ [])
    (hds : ∀ d ∈ ds, d.isDigit = true) (hrest : rest.head?.any Char.isDigit = false) :
    Reads dialect.lexicon memory (c :: (ds ++ rest))
      ⟨.indexedPlaceholder, 1 + ds.length,
        some (dialect.lexicon.numberKey (decimalValue ds))⟩ := by
  have hsign : c ∈ ['?', '$', ':', '@'] := by
    have := dialect.delimits.indexed c hc
    simp only [List.mem_cons, List.not_mem_nil, or_false] at this ⊢
    tauto
  have hdollar : dollarString? dialect.lexicon (c :: (ds ++ rest)) = none := by
    obtain ⟨d, ds, rfl⟩ := List.exists_cons_of_ne_nil hne
    exact dollarString?_none_of_digit c _ (hds d List.mem_cons_self)
  refine .indexed (.of_sigil hsign hdollar) (word?_none_of_sigil hsign) ?_
  have htake : (ds ++ rest).takeWhile Char.isDigit = ds := by
    rw [Scan.takeWhile_append_stop ds hrest, List.takeWhile_eq_self_iff.mpr hds]
  rw [Lexer.indexedPlaceholder?, if_pos (List.contains_iff_mem.mpr hc)]
  dsimp only
  rw [htake, if_pos (by simpa using hne), index_writtenIndex]

/-! ## Names -/

theorem content_of_notMem {quote : Char} {name : List Char} (h : quote ∉ name) :
    (StringStyle.quoted quote).Content name := by
  induction name with
  | nil => exact .nil
  | cons c name ih =>
    rw [List.mem_cons, not_or] at h
    exact .plain (fun heq => h.1 heq.symm) (fun hescape => by cases hescape) (ih h.2)

theorem ends_nil (written : List Char) : Ends written [] := by
  unfold Ends
  split
  · split_ifs <;> simp
  · trivial

theorem through_bracket {name : List Char} (h : ']' ∉ name) (rest : List Char) :
    Scan.through [']'] (name ++ ']' :: rest) = name.length + 1 := by
  induction name with
  | nil => rfl
  | cons c name ih =>
    rw [List.mem_cons, not_or] at h
    have hno : ¬[']'].isPrefixOf (c :: (name ++ ']' :: rest)) = true := by
      simpa [List.isPrefixOf] using h.1
    rw [List.cons_append, Scan.through, if_neg hno, ih h.2, List.length_cons, Nat.add_comm]

/-- A name comes out of its quotes. -/
theorem unquote_concat {opening closing : Char} (name : List Char)
    (h : closing = if opening = '[' then ']' else opening) :
    unquote (opening :: (name ++ [closing])) = name := by
  have hclosing : (if (opening == '[') = true then ']' else opening) = closing := by
    simpa only [beq_iff_eq] using h.symm
  rw [unquote, hclosing, List.getLast?_concat, if_pos (beq_self_eq_true _), List.dropLast_concat]

theorem placeholderName?_quoted {quote : Char} {name rest : List Char}
    (hquote : quote ∈ ['\x22', '\x60', '\x27']) (hname : quote ∉ name)
    (hrest : rest.head? ≠ some quote) :
    placeholderName? (quote :: (name ++ [quote]) ++ rest) =
      some ((quote :: (name ++ [quote])).length, name) := by
  have hregular : (StringStyle.quoted quote).Regular := by
    simp only [List.mem_cons, List.not_mem_nil, or_false] at hquote
    obtain rfl | rfl | rfl := hquote <;> exact ⟨by decide, by decide⟩
  have hlength : Scan.string (.quoted quote) (quote :: (name ++ [quote]) ++ rest) =
      (quote :: (name ++ [quote])).length :=
    Scan.string_of_closes hregular ⟨name, rest, content_of_notMem hname, rfl, rfl, hrest⟩
  have hbool : (quote == '\x22' || quote == '\x60' || quote == '\x27') = true := by
    simpa [or_assoc] using hquote
  have hbracket : quote ≠ '[' := by
    rintro rfl
    exact absurd hquote (by decide)
  have htake : (quote :: (name ++ [quote]) ++ rest).take (quote :: (name ++ [quote])).length =
      quote :: (name ++ [quote]) := List.take_left
  rw [List.cons_append] at hlength htake ⊢
  rw [placeholderName?, if_pos hbool, hlength]
  dsimp only
  rw [htake, unquote_concat name (by rw [if_neg hbracket])]

theorem placeholderName?_brackets {name : List Char} (hname : ']' ∉ name) (rest : List Char) :
    placeholderName? ('[' :: (name ++ [']']) ++ rest) =
      some (('[' :: (name ++ [']'])).length, name) := by
  have hlength : Scan.through [']'] ('[' :: (name ++ [']']) ++ rest) =
      ('[' :: (name ++ [']'])).length := by
    have hopened : ']' ∉ '[' :: name := by simpa using hname
    have := through_bracket hopened rest
    rw [List.cons_append, List.append_assoc, List.singleton_append, ← List.cons_append, this]
    simp
  have htake : ('[' :: (name ++ [']']) ++ rest).take ('[' :: (name ++ [']'])).length =
      '[' :: (name ++ [']']) := List.take_left
  rw [List.cons_append] at hlength htake ⊢
  rw [placeholderName?, if_neg (by decide), if_pos (by decide), hlength]
  dsimp only
  rw [htake, unquote_concat name (by rw [if_pos rfl])]

theorem placeholderName?_word {c : Char} {name rest : List Char} (hword : Scan.isWordChar c = true)
    (htail : ∀ d ∈ name, (Scan.isWordChar d || d == '$') = true)
    (hplain : c ∉ ['\x22', '\x60', '\x27'] ∧ c ≠ '[')
    (hrest : rest.head?.any (fun d => Scan.isWordChar d || d == '$') = false) :
    placeholderName? (c :: name ++ rest) = some ((c :: name).length, c :: name) := by
  have hlength : Scan.word (c :: (name ++ rest)) = (c :: name).length := by
    have hall : name.takeWhile (fun d => Scan.isWordChar d || d == '$') = name :=
      List.takeWhile_eq_self_iff.mpr htail
    rw [Scan.word, if_pos hword, Scan.takeWhile_append_stop name hrest, hall, List.length_cons,
      Nat.add_comm]
  have hstart : (Scan.isWordStart c || c.isDigit) = true := by
    simp only [Scan.isWordChar, Char.isAlphanum, Bool.or_eq_true] at hword
    simp only [Scan.isWordStart, Bool.or_eq_true]
    tauto
  have hquote : ¬(c == '\x22' || c == '\x60' || c == '\x27') = true := by
    simpa [or_assoc] using hplain.1
  rw [List.cons_append, placeholderName?, if_neg hquote, if_neg (by simpa using hplain.2),
    if_pos hstart, hlength]
  dsimp only
  rw [← List.cons_append, List.take_left]

/-- However a name is written, it is read. -/
theorem placeholderName?_of_spells {lexicon : Lexicon} {sigil : Char} {name written rest : List Char}
    (h : lexicon.Spells sigil name written) (hends : Ends written rest) :
    placeholderName? (written ++ rest) = some (written.length, name) := by
  cases h with
  | quoted hquote hname =>
    refine placeholderName?_quoted hquote hname ?_
    simpa only [Ends, List.head?_cons, if_pos hquote] using hends
  | brackets hname => exact placeholderName?_brackets hname rest
  | word hhead htail hnumber =>
    cases name with
    | nil => cases hhead
    | cons c name =>
      have hword : Scan.isWordChar c = true := hhead
      have hplain : c ∉ ['\x22', '\x60', '\x27'] ∧ c ≠ '[' := by
        constructor
        · intro hmem
          have hno : ∀ q ∈ ['\x22', '\x60', '\x27'], Scan.isWordChar q = false :=
            forall_mem_of_all (by decide)
          rw [hno c hmem] at hword
          cases hword
        · rintro rfl
          exact absurd hword (by decide)
      refine placeholderName?_word hword htail hplain ?_
      simpa only [Ends, List.head?_cons, if_neg hplain.1, if_neg hplain.2] using hends

/-- A sigil and a name are one placeholder, whose key is the name. -/
theorem reads_spelled (memory : Memory) {sigil : Char} {name written rest : List Char}
    (hsigil : sigil ∈ dialect.lexicon.placeholders.named)
    (h : dialect.lexicon.Spells sigil name written) (hends : Ends written rest) :
    Reads dialect.lexicon memory (sigil :: (written ++ rest))
      ⟨.namedPlaceholder, 1 + written.length, some (.name (String.ofList name))⟩ := by
  have hone := dialect.delimits.named sigil hsigil
  have hsign : sigil ∈ ['?', '$', ':', '@'] := by
    simp only [List.mem_cons, List.not_mem_nil, or_false] at hone ⊢
    tauto
  have hdollar : dollarString? dialect.lexicon (sigil :: (written ++ rest)) = none := by
    by_cases heq : sigil = '$'
    · subst heq
      have hquotes : ¬dialect.lexicon.dollarQuotes = true :=
        fun hquotes => dialect.delimits.dollar hquotes hsigil
      rw [dollarString?, if_neg hquotes]
    · exact dollarString?_none_of_head heq
  have hindexed : indexedPlaceholder? dialect.lexicon memory (sigil :: (written ++ rest)) = none := by
    by_cases hmem : sigil ∈ dialect.lexicon.placeholders.indexed
    · have hdigit : (written ++ rest).head?.any Char.isDigit = false := by
        cases h with
        | @quoted quote hquote hname =>
          have hno : ∀ q ∈ ['\x22', '\x60', '\x27'], q.isDigit = false :=
            forall_mem_of_all (by decide)
          exact hno quote hquote
        | brackets hname => rfl
        | word hhead htail hnumber =>
          cases name with
          | nil => cases hhead
          | cons c name => exact hnumber hmem
      have hquestion : ¬(sigil == '?') = true := by
        rw [beq_iff_eq]
        rintro rfl
        exact absurd hone (by decide)
      have htake : (written ++ rest).takeWhile Char.isDigit = [] := by
        cases hcs : written ++ rest with
        | nil => rfl
        | cons c cs =>
          rw [hcs] at hdigit
          rw [List.takeWhile_cons_of_neg (by simpa using hdigit)]
      rw [Lexer.indexedPlaceholder?, if_pos (List.contains_iff_mem.mpr hmem)]
      dsimp only
      rw [htake, if_neg (by simp), if_neg hquestion]
    · exact indexedPlaceholder?_none_of_head hmem
  refine .named (.of_sigil hsign hdollar) (word?_none_of_sigil hsign) hindexed ?_
  rw [namedPlaceholder?, if_pos (List.contains_iff_mem.mpr hsigil),
    placeholderName?_of_spells h hends]
  rfl

/-- What is read at the head of a text is the first token, and the lexer goes on behind it. -/
theorem tokensFrom_of_reads (memory : Memory) (pos : Nat) {c : Char} {t rest : List Char}
    {kind : TokenKind} {key : PlaceholderKey}
    (h : Reads dialect.lexicon memory (c :: (t ++ rest)) ⟨kind, 1 + t.length, some key⟩) :
    let token : Token := ⟨kind, String.ofList (c :: t), pos, some key⟩
    tokensFrom dialect.lexicon memory pos (c :: (t ++ rest)) =
      token :: tokensFrom dialect.lexicon (memory.after token) (pos + byteLength (c :: t)) rest := by
  intro token
  have hlength : 1 + t.length = (c :: t).length := by rw [List.length_cons, Nat.add_comm]
  rw [tokensFrom_cons dialect memory pos (List.cons_ne_nil _ _) h]
  simp only [Lexeme.token, hlength]
  rw [← List.cons_append, List.take_left, List.drop_left]

end Lexer

open Lexer

/-- **Keys of placeholders.** In every text the bare placeholders are numbered by their order, and
every other indexed placeholder is numbered by what is written. A sign with a number, and a sigil with a
name in any of its spellings, are one placeholder wherever the lexer comes to them, and parameters give
all spellings of a name the same value. -/
theorem placeholder_keys (dialect : Dialect) :
    (∀ text : String,
      let tokens := tokenize dialect.lexicon text
      (tokens.filter (·.isBarePlaceholder)).map (·.key) =
          (List.range (tokens.countP (·.isBarePlaceholder))).map (fun i => some (.index (some i))) ∧
        ∀ token ∈ tokens, token.kind = .indexedPlaceholder → token.text ≠ "?" →
          ∃ c ds, c ∈ dialect.lexicon.placeholders.indexed ∧ ds ≠ [] ∧
            (∀ d ∈ ds, d.isDigit = true) ∧ token.text = String.ofList (c :: ds) ∧
            token.key = some (dialect.lexicon.numberKey (decimalValue ds))) ∧
    (∀ c ∈ dialect.lexicon.placeholders.indexed, ∀ ds rest : List Char, ds ≠ [] →
      (∀ d ∈ ds, d.isDigit = true) → rest.head?.any Char.isDigit = false → ∀ memory pos,
        let token : Token := ⟨.indexedPlaceholder, String.ofList (c :: ds), pos,
          some (dialect.lexicon.numberKey (decimalValue ds))⟩
        tokensFrom dialect.lexicon memory pos (c :: (ds ++ rest)) =
          token ::
            tokensFrom dialect.lexicon (memory.after token) (pos + byteLength (c :: ds)) rest) ∧
    ∀ sigil ∈ dialect.lexicon.placeholders.named, ∀ name written : List Char,
      dialect.lexicon.Spells sigil name written →
        let token (pos : Nat) : Token := ⟨.namedPlaceholder, String.ofList (sigil :: written), pos,
          some (.name (String.ofList name))⟩
        (tokenize dialect.lexicon (String.ofList (sigil :: written)) = [token 0] ∧
          ∀ rest memory pos, Ends written rest →
            tokensFrom dialect.lexicon memory pos (sigil :: (written ++ rest)) =
              token pos :: tokensFrom dialect.lexicon (memory.after (token pos))
                (pos + byteLength (sigil :: written)) rest) ∧
        ∀ (values : List (String × String)) (value : String) (pos : Nat),
          values.lookup (String.ofList name) = some value →
            (Parameters.named values).substitute (token pos) = { token pos with text := value } := by
  refine ⟨fun text => ⟨?_, numbered_key .start 0 text.toList⟩,
    fun c hc ds rest hne hds hrest memory pos =>
      tokensFrom_of_reads memory pos (reads_numbered memory hc hne hds hrest),
    fun sigil hsigil name written hspells => ?_⟩
  · have hkeys := @bare_keys dialect .start 0 text.toList
    rw [show Memory.start.positional = 0 from rfl, ← List.range_eq_range'] at hkeys
    exact hkeys
  · have hcut : ∀ rest memory pos, Ends written rest → _ := fun rest memory pos hends =>
      tokensFrom_of_reads memory pos (reads_spelled memory hsigil hspells hends)
    refine ⟨⟨?_, hcut⟩, fun values value pos hvalue => ?_⟩
    · have hall := hcut [] .start 0 (ends_nil written)
      rw [List.append_nil] at hall
      rw [tokenize, String.toList_ofList, hall, tokensFrom_nil]
    · simp [Parameters.substitute, TokenKind.isPlaceholder, Parameters.lookup?, hvalue]

/-- A name with a blank in square brackets, and a number behind the table that gives it a value. -/
theorem placeholder_keys_brackets :
    let token : Token := ⟨.namedPlaceholder, "@[a b]", 0, some (.name "a b")⟩
    tokenize Dialect.sqlite.lexicon "@[a b]" = [token] ∧
      (Parameters.named [("a b", "7")]).substitute token = { token with text := "7" } := by
  intro token
  have hsigil : '@' ∈ Dialect.sqlite.lexicon.placeholders.named := by decide
  have hspells : Dialect.sqlite.lexicon.Spells '@' "a b".toList "[a b]".toList :=
    .brackets (by decide)
  obtain ⟨⟨htokens, -⟩, hvalue⟩ := (placeholder_keys .sqlite).2.2 '@' hsigil _ _ hspells
  exact ⟨htokens, hvalue [("a b", "7")] "7" 0 (by decide)⟩

/-- Neither a number nor a question mark in a string or a comment counts. -/
example :
    ((tokenize Dialect.sqlite.lexicon "? '?' ?9 -- ?\n ?").filter (·.isBarePlaceholder)).map (·.key) =
      [some (.index (some 0)), some (.index (some 1))] := by
  decide +kernel

end SqlFormat
