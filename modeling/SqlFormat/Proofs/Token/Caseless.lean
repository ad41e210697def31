import Mathlib
import SqlFormat.Proofs.Text.Lowered
import SqlFormat.Proofs.Token.Keyword
import SqlFormat.Proofs.Token.Lossless
import SqlFormat.Proofs.Token.Number
import SqlFormat.Proofs.Token.Operator

/-!
# The lexer ignores letter case

A text in lower case is cut where the text was cut, into tokens of the same kinds: its tokens are
the tokens of the text in lower case. Every rule of the lexer is shown to make the same of a text
and of the text in lower case; the rules that take a table or a delimiter from the lexicon do so
because no delimiter is a letter, and because a table that lists a letter lists it in both cases.

A dollar-quoted string ends at the tag that opened it, letter for letter. A text with a dollar sign
is left out where the dialect has such strings.

Results: `lexeme_lowered` (one cut), `tokenize_lowerAscii`, `tokenize_ignoresCase`.
-/

namespace SqlFormat

open Text

/-! ## Scanning -/

namespace Scan

theorem word_lowered (cs : List Char) : word (cs.map Char.toLower) = word cs := by
  cases cs with
  | nil => rfl
  | cons c cs =>
    have hrest := (ignoresCase_isWordChar.or (ignoresCase_eq (c := '$') rfl)).takeWhile cs
    rw [List.map_cons, word, word, ignoresCase_isWordChar, hrest, List.length_map]

theorem blanks_lowered (cs : List Char) : blanks (cs.map Char.toLower) = blanks cs := by
  rw [blanks, blanks, ignoresCase_isBlank.takeWhile, List.length_map]

theorem nextWord?_lowered (cs : List Char) : nextWord? (cs.map Char.toLower) = nextWord? cs := by
  simp only [nextWord?, ignoresCase_isBlank.dropWhile, word_lowered, ← List.map_take,
    ← lowerAscii_ofList, lowerAscii_lowerAscii]

theorem digits_lowered (cs : List Char) : digits (cs.map Char.toLower) = digits cs := by
  have h := (ignoresCase_isDigit.or (ignoresCase_eq (c := '_') rfl)).takeWhile cs
  rw [digits, digits, h, List.length_map]

theorem fraction_lowered (cs : List Char) : fraction (cs.map Char.toLower) = fraction cs := by
  cases cs with
  | nil => rfl
  | cons c cs =>
    have hdot : (cs.map Char.toLower).head? = some '.' ↔ cs.head? = some '.' := by
      cases cs with
      | nil => rfl
      | cons d cs => simp [toLower_eq_iff (c := '.') rfl]
    rw [List.map_cons, fraction_cons, fraction_cons, digits_lowered]
    simp only [toLower_eq_iff (c := '.') rfl, hdot]

theorem exponent_lowered (cs : List Char) : exponent (cs.map Char.toLower) = exponent cs := by
  cases cs with
  | nil => rfl
  | cons e cs =>
    have hletter : IgnoresCase fun e => e == 'e' || e == 'E' := .of_ascii (by decide)
    have hsign := ((ignoresCase_eq (c := '+') rfl).or (ignoresCase_eq (c := '-') rfl)).any_head? cs
    simp only [List.map_cons, exponent, hletter e, hsign, ← List.map_drop,
      ignoresCase_isDigit.any_head?, digits_lowered]

theorem decimal_lowered (cs : List Char) : decimal (cs.map Char.toLower) = decimal cs := by
  simp only [decimal, digits_lowered, ← List.map_drop, fraction_lowered, exponent_lowered]

theorem ignoresCase_isRadixDigit (radix : Char) : IgnoresCase (isRadixDigit radix) := by
  unfold isRadixDigit
  split <;> exact .of_ascii (by decide)

theorem isRadixDigit_lowered (radix d : Char) :
    isRadixDigit radix.toLower d = isRadixDigit radix d := by
  have hx : IgnoresCase fun r => r == 'x' || r == 'X' := .of_ascii (by decide)
  have hb : IgnoresCase fun r => r == 'b' || r == 'B' := .of_ascii (by decide)
  have ho : IgnoresCase fun r => r == 'o' || r == 'O' := .of_ascii (by decide)
  have h : ∀ r, isRadixDigit r d =
      if r == 'x' || r == 'X' then isRadixDigit 'x' d
      else if r == 'b' || r == 'B' then isRadixDigit 'b' d
      else if r == 'o' || r == 'O' then isRadixDigit 'o' d
      else false := by
    intro r
    conv_lhs => unfold isRadixDigit
    split <;> simp_all [isRadixDigit]
  rw [h radix.toLower, h radix]
  simp only [hx radix, hb radix, ho radix]

theorem radixNumber?_lowered (cs : List Char) :
    radixNumber? (cs.map Char.toLower) = radixNumber? cs := by
  match cs with
  | [] | [a] | [a, b] => simp [radixNumber?]
  | a :: b :: d :: cs =>
    have htail := ((ignoresCase_isRadixDigit b).or (ignoresCase_eq (c := '_') rfl)).takeWhile cs
    simp only [List.map_cons, radixNumber?_cons, toLower_eq_iff (c := '0') rfl,
      isRadixDigit_lowered, ignoresCase_isRadixDigit b d, htail, List.length_map]

theorem number_lowered (cs : List Char) : number (cs.map Char.toLower) = number cs := by
  rw [number, number, radixNumber?_lowered, decimal_lowered]

theorem stringBody_lowered {style : StringStyle} (h : style.closing.isAlpha = false)
    (cs : List Char) : stringBody style (cs.map Char.toLower) = stringBody style cs := by
  have hclosing := ignoresCase_eq h
  have hbackslash := ignoresCase_eq (c := '\\') rfl
  induction cs using stringBody.induct style with
  | case1 => rfl
  | case2 c => rfl
  | case3 c d cs hb ih =>
    simp only [List.map_cons, stringBody, hbackslash c, hb, if_true, ih]
  | case4 c d cs hb hc hd ih =>
    simp only [List.map_cons, stringBody, hbackslash c, hclosing c, hclosing d, hb, hc, hd, ih,
      Bool.false_eq_true, if_false, if_true]
  | case5 c d cs hb hc hd =>
    simp only [List.map_cons, stringBody, hbackslash c, hclosing c, hclosing d, hb, hc, hd,
      Bool.false_eq_true, if_false, if_true]
  | case6 c d cs hb hc ih =>
    rw [List.map_cons] at ih
    simp only [List.map_cons, stringBody, hbackslash c, hclosing c, hb, hc, ih, Bool.false_eq_true,
      if_false]

theorem string_lowered (style : StringStyle) (h : style.closing.isAlpha = false)
    (cs : List Char) : string style (cs.map Char.toLower) = string style cs := by
  rw [string, string, ← List.map_drop, stringBody_lowered h]

theorem through_lowered {pattern : List Char} (h : Letterless pattern) (cs : List Char) :
    through pattern (cs.map Char.toLower) = through pattern cs := by
  induction cs with
  | nil => rfl
  | cons c cs ih =>
    have hp := h.isPrefixOf (c :: cs)
    rw [List.map_cons] at hp ⊢
    rw [through, through, hp, ih]

theorem lineComment_lowered (cs : List Char) :
    lineComment (cs.map Char.toLower) = lineComment cs := by
  have h : IgnoresCase (· != '\n') := fun c => congrArg not (ignoresCase_eq (c := '\n') rfl c)
  rw [lineComment, lineComment, h.takeWhile, List.length_map]

theorem compoundOperator_lowered (cs : List Char) :
    compoundOperator (cs.map Char.toLower) = compoundOperator cs := by
  have hany : ∀ {ops : List String}, (∀ op ∈ ops, Letterless op.toList) →
      ops.any (·.toList.isPrefixOf (cs.map Char.toLower)) =
        ops.any (·.toList.isPrefixOf cs) := by
    intro ops h
    rw [Bool.eq_iff_iff, List.any_eq_true, List.any_eq_true]
    exact exists_congr fun op => and_congr_right fun hop => by rw [(h op hop).isPrefixOf]
  have htriple : ∀ op ∈ tripleOperators, Letterless op.toList := by decide
  have hdouble : ∀ op ∈ doubleOperators, Letterless op.toList := by decide
  rw [compoundOperator, compoundOperator, hany htriple, hany hdouble]

end Scan

/-! ## Delimiters and tables -/

/-- What the lexicon of a dialect says of a character is the same for a letter in either case. -/
structure Lexicon.Caseless (lexicon : Lexicon) : Prop where
  lineComments : ∀ marker ∈ lexicon.lineComments, Letterless marker.toList
  strings : ∀ style ∈ lexicon.strings,
    style.opening.isAlpha = false ∧ style.closing.isAlpha = false
  prefixedStrings : IgnoresCase (lexicon.prefixedStrings.lookup ·)
  indexed : Letterless lexicon.placeholders.indexed
  named : Letterless lexicon.placeholders.named
  variablePrefixes : Letterless lexicon.variablePrefixes

theorem Dialect.caseless (dialect : Dialect) : dialect.lexicon.Caseless where
  lineComments := by cases dialect <;> decide
  strings := by cases dialect <;> decide
  prefixedStrings := by cases dialect <;> exact .of_ascii (by decide)
  indexed := by cases dialect <;> decide
  named := by cases dialect <;> decide
  variablePrefixes := by cases dialect <;> decide

/-! ## Tokens in lower case -/

/-- A look-up key in lower case. -/
def PlaceholderKey.lowered : PlaceholderKey → PlaceholderKey
  | index i => index i
  | name s => name (lowerAscii s)

/-- A token in lower case. -/
def Token.lowered (t : Token) : Token :=
  ⟨t.kind, lowerAscii t.text, t.pos, t.key.map (·.lowered)⟩

namespace Token

theorem isOperator_lowered (t : Token) (op : String) (h : Letterless op.toList) :
    t.lowered.isOperator op = t.isOperator op := by
  rw [isOperator, isOperator, lowered, lowerAscii_beq h]

theorem isBracket_lowered (t : Token) : t.lowered.isBracket = t.isBracket := by
  simp only [isBracket, lowered]
  rw [lowerAscii_beq (by decide), lowerAscii_beq (by decide), lowerAscii_beq (by decide),
    lowerAscii_beq (by decide)]

/-- A phrase in lower case is its words in lower case. -/
theorem normalizePhrase_lowerAscii (s : String) :
    normalizePhrase (lowerAscii s) = lowerAscii (normalizePhrase s) := by
  unfold normalizePhrase
  rw [toList_lowerAscii, ignoresCase_isBlank.any]
  split
  · have hwords := wordsFrom_map_toLower [] s.toList
    rw [List.map_nil] at hwords
    rw [words, words, hwords]
    apply String.toList_injective
    simp only [toList_lowerAscii, joinWith, String.toList_intercalate, Lexer.map_intercalate,
      List.map_map]
    congr 1
    exact List.map_congr_left fun w _ => by simp
  · rfl

theorem keyText_lowered (t : Token) : t.lowered.keyText = t.keyText := by
  rw [keyText, keyText, phraseKey, phraseKey, lowered, normalizePhrase_lowerAscii,
    lowerAscii_lowerAscii]

end Token

namespace Lexer

variable {lexicon : Lexicon}

/-- A memory of tokens in lower case. -/
def Memory.lowered (memory : Memory) : Memory :=
  ⟨memory.last.map (·.lowered), memory.positional⟩

/-- A lexeme with its look-up key in lower case. -/
def Lexeme.lowered (found : Lexeme) : Lexeme :=
  ⟨found.kind, found.length, found.key.map (·.lowered)⟩

theorem Memory.after_lowered (memory : Memory) (token : Token) :
    (memory.after token).lowered = memory.lowered.after token.lowered := by
  have hq : (token.lowered.text == "?") = (token.text == "?") := lowerAscii_beq (by decide) _
  simp only [Memory.after, Memory.lowered, hq, Memory.mk.injEq]
  constructor
  · show _ = if token.kind.isSignificant = true then _ else _
    split <;> rfl
  · rfl

theorem Memory.atStatementStart_lowered (memory : Memory) :
    memory.lowered.atStatementStart = memory.atStatementStart := by
  unfold Memory.atStatementStart Memory.lowered
  cases memory.last with
  | none => rfl
  | some token =>
    simp only [Option.map_some, token.isOperator_lowered ";" (by decide),
      token.isBracket_lowered, token.keyText_lowered]
    rfl

theorem Memory.startsFraction_lowered (memory : Memory) (text : List Char) :
    memory.lowered.startsFraction (text.map Char.toLower) = memory.startsFraction text := by
  have hlast : (memory.lowered.last.any fun t =>
      t.kind == .word || t.kind == .closeParen || t.kind == .string) =
      memory.last.any fun t => t.kind == .word || t.kind == .closeParen || t.kind == .string := by
    unfold Memory.lowered
    cases memory.last <;> rfl
  match text with
  | [] => rfl
  | [c] => simp [Memory.startsFraction]
  | c :: d :: cs =>
    have hdot := toLower_eq_iff (c := '.') rfl c
    by_cases hc : c = '.'
    · subst hc
      simp only [List.map_cons, hdot.mpr rfl, Memory.startsFraction, hlast, ignoresCase_isDigit d]
    · have hc' : c.toLower ≠ '.' := fun h => hc (hdot.mp h)
      simp [Memory.startsFraction, hc, hc']

/-! ## Phrases and keywords -/

theorem phrases_lowered (n : Nat) (text : List Char) :
    phrases n (text.map Char.toLower) = phrases n text := by
  induction n generalizing text with
  | zero => rfl
  | succ n ih =>
    have hkey : ∀ cs : List Char, (cs.map Char.toLower).map Char.toLower = cs.map Char.toLower :=
      fun cs => by rw [List.map_map]; exact congrArg (cs.map ·) (funext ignoresCase_toLower)
    simp only [phrases, Scan.word_lowered, ← List.map_take, ← List.map_drop, Scan.blanks_lowered,
      ignoresCase_isAlpha.any_head?, hkey, ih]

theorem keyword?_lowered (lexicon : Lexicon) (text : List Char) :
    keyword? lexicon (text.map Char.toLower) = keyword? lexicon text := by
  rw [keyword?, keyword?, phrases_lowered]

theorem existsFollows_lowered (after : List Char) :
    existsFollows (after.map Char.toLower) = existsFollows after := by
  simp only [existsFollows, Scan.nextWord?_lowered, ignoresCase_isBlank.dropWhile,
    ← List.map_drop]

theorem Memory.opensNothing_lowered (memory : Memory) (key : String) (after : List Char) :
    memory.lowered.opensNothing key (after.map Char.toLower) = memory.opensNothing key after := by
  have hnone : ∀ cs : List Char, (cs.map Char.toLower).head?.isNone = cs.head?.isNone :=
    fun cs => by cases cs <;> rfl
  have hsemicolon : ∀ cs : List Char,
      ((cs.map Char.toLower).head? == some ';') = (cs.head? == some ';') := by
    intro cs
    cases cs with
    | nil => rfl
    | cons c cs => exact ignoresCase_eq (c := ';') rfl c
  simp only [Memory.opensNothing, memory.atStatementStart_lowered, existsFollows_lowered,
    Scan.nextWord?_lowered, ignoresCase_isBlank.dropWhile, hnone, hsemicolon]

theorem Memory.refine_lowered (memory : Memory) (kind : TokenKind) (key : String)
    (after : List Char) :
    memory.lowered.refine kind key (after.map Char.toLower) = memory.refine kind key after := by
  rw [Memory.refine, Memory.refine, memory.opensNothing_lowered]

/-! ## The rules -/

@[simp] theorem Lexeme.lowered_plain (kind : TokenKind) (length : Nat) :
    (Lexeme.plain kind length).lowered = .plain kind length := rfl

theorem blanks?_lowered (text : List Char) :
    blanks? (text.map Char.toLower) = (blanks? text).map (·.lowered) := by
  rw [blanks?, blanks?, ignoresCase_isBlank.any_head?, Scan.blanks_lowered]
  split <;> rfl

theorem comment?_lowered (h : lexicon.Caseless) (text : List Char) :
    comment? lexicon (text.map Char.toLower) = (comment? lexicon text).map (·.lowered) := by
  have hline : lexicon.startsLineComment (text.map Char.toLower) =
      lexicon.startsLineComment text := by
    rw [Bool.eq_iff_iff, Lexicon.startsLineComment, Lexicon.startsLineComment, List.any_eq_true,
      List.any_eq_true]
    exact exists_congr fun marker => and_congr_right fun hm => by
      rw [(h.lineComments marker hm).isPrefixOf]
  have hblock : Letterless ['/', '*'] := by decide
  have hclose : Letterless ['*', '/'] := by decide
  rw [comment?, comment?, hline, Scan.startsBlockComment, Scan.startsBlockComment,
    hblock.isPrefixOf, Scan.lineComment_lowered, Scan.blockComment, Scan.blockComment,
    ← List.map_drop, Scan.through_lowered hclose]
  split_ifs <;> rfl

/-- Without a dollar sign there is no tag. -/
theorem dollarString?_lowered {text : List Char}
    (hdollar : lexicon.dollarQuotes = true → '$' ∉ text) :
    dollarString? lexicon (text.map Char.toLower) =
      (dollarString? lexicon text).map (·.lowered) := by
  have hnone : ∀ {cs : List Char}, '$' ∉ cs → Scan.dollarString? cs = none := by
    intro cs hcs
    cases cs with
    | nil => rfl
    | cons c cs =>
      have hc : c ≠ '$' := fun h => hcs (by simp [h])
      simp [Scan.dollarString?, Scan.dollarTag?, hc]
  rw [dollarString?, dollarString?]
  split
  · next hq =>
    have hmem : '$' ∉ text.map Char.toLower := by
      intro hmem
      obtain ⟨c, hc, heq⟩ := List.mem_map.mp hmem
      rw [toLower_eq_iff rfl] at heq
      exact hdollar hq (heq ▸ hc)
    rw [hnone hmem, hnone (hdollar hq)]
    rfl
  · rfl

theorem quotedString?_lowered (h : lexicon.Caseless) (text : List Char) :
    quotedString? lexicon (text.map Char.toLower) =
      (quotedString? lexicon text).map (·.lowered) := by
  cases text with
  | nil => rfl
  | cons c cs =>
    have hstyle : lexicon.stringStyle? c.toLower = lexicon.stringStyle? c :=
      List.find?_congr fun style hs => by
        rw [Bool.eq_iff_iff, beq_iff_eq, beq_iff_eq, eq_comm, toLower_eq_iff (h.strings style hs).1,
          eq_comm]
    simp only [quotedString?, List.map_cons, List.head?_cons, Option.bind_eq_bind,
      Option.bind_some, hstyle]
    cases hs : lexicon.stringStyle? c with
    | none => rfl
    | some style =>
      have hclosing := (h.strings style (List.mem_of_find?_eq_some hs)).2
      rw [Option.bind_some, Option.bind_some, ← List.map_cons, Scan.string_lowered style hclosing]
      rfl

theorem prefixedString?_lowered (h : lexicon.Caseless) (text : List Char) :
    prefixedString? lexicon (text.map Char.toLower) =
      (prefixedString? lexicon text).map (·.lowered) := by
  match text with
  | [] => rfl
  | [c] => simp [prefixedString?]
  | letter :: c :: cs =>
    have hquote := toLower_eq_iff (c := '\x27') rfl c
    by_cases hc : c = '\x27'
    · subst hc
      have hlookup : lexicon.prefixedStrings.lookup letter.toLower =
          lexicon.prefixedStrings.lookup letter := h.prefixedStrings letter
      have hstring : ∀ b, Scan.string ⟨'\x27', '\x27', b⟩ ('\x27' :: cs.map Char.toLower) =
          Scan.string ⟨'\x27', '\x27', b⟩ ('\x27' :: cs) :=
        fun b => Scan.string_lowered ⟨'\x27', '\x27', b⟩ rfl ('\x27' :: cs)
      simp only [List.map_cons, hquote.mpr rfl, prefixedString?, hlookup, hstring]
      cases lexicon.prefixedStrings.lookup letter <;> rfl
    · have hc' : c.toLower ≠ '\x27' := fun h => hc (hquote.mp h)
      simp [prefixedString?, hc, hc']

theorem word?_lowered (lexicon : Lexicon) (memory : Memory) (text : List Char) :
    word? lexicon memory.lowered (text.map Char.toLower) =
      (word? lexicon memory text).map (·.lowered) := by
  have hdot : (memory.lowered.last.any (·.isOperator ".")) =
      memory.last.any (·.isOperator ".") := by
    unfold Memory.lowered
    cases memory.last with
    | none => rfl
    | some token => exact token.isOperator_lowered "." (by decide)
  simp only [word?, ignoresCase_isWordStart.any_head?, ignoresCase_isAlpha.any_head?, hdot,
    keyword?_lowered, Scan.word_lowered, ← List.map_drop, memory.refine_lowered]
  split
  · split
    · rfl
    · split <;> rfl
  · rfl

theorem indexedPlaceholder?_lowered (h : lexicon.Caseless) (memory : Memory) (text : List Char) :
    indexedPlaceholder? lexicon memory.lowered (text.map Char.toLower) =
      (indexedPlaceholder? lexicon memory text).map (·.lowered) := by
  cases text with
  | nil => rfl
  | cons c cs =>
    have hdigits := ignoresCase_isDigit.takeWhile cs
    have hfixed : Letterless (cs.takeWhile Char.isDigit) := by
      rw [Letterless, List.all_eq_true]
      intro d hd
      have := List.mem_takeWhile_imp hd
      by_contra ha
      rw [isDigit_of_isAlpha (by simpa using ha)] at this
      cases this
    have hquestion := ignoresCase_eq (c := '?') rfl c
    have hindexed := h.indexed.contains c
    simp only [List.map_cons, indexedPlaceholder?, hindexed, hdigits, hfixed.map_toLower,
      hquestion]
    split
    · split
      · rfl
      · split <;> rfl
    · rfl

/-- A quote is no letter, so a name loses the same quotes in lower case. -/
theorem unquote_lowered {cs : List Char} (h : ∀ c ∈ cs.head?, c.isAlpha = false) :
    unquote (cs.map Char.toLower) = (unquote cs).map Char.toLower := by
  cases cs with
  | nil => rfl
  | cons c cs =>
    have hc := h c rfl
    have hclosing : (if c == '[' then ']' else c).isAlpha = false := by
      split
      · rfl
      · exact hc
    have hlast : ((cs.map Char.toLower).getLast? == some (if c == '[' then ']' else c)) =
        (cs.getLast? == some (if c == '[' then ']' else c)) := by
      rw [List.getLast?_map]
      cases cs.getLast? with
      | none => rfl
      | some d => exact ignoresCase_eq hclosing d
    simp only [List.map_cons, toLower_of_not_isAlpha hc, unquote, hlast]
    rw [apply_ite (List.map Char.toLower), List.map_dropLast]

theorem placeholderName?_lowered (cs : List Char) :
    placeholderName? (cs.map Char.toLower) =
      (placeholderName? cs).map fun (n, name) => (n, name.map Char.toLower) := by
  cases cs with
  | nil => rfl
  | cons c cs =>
    have hletter : ∀ {d : Char} {ds : List Char}, d.isAlpha = true →
        placeholderName? (d :: ds) =
          some (Scan.word (d :: ds), (d :: ds).take (Scan.word (d :: ds))) := by
      intro d ds hd
      have hquotes : Letterless ['\x22', '\x60', '\x27', '['] := by decide
      have hne : ∀ q ∈ ['\x22', '\x60', '\x27', '['], (d == q) = false := by
        intro q hq
        rw [beq_eq_false_iff_ne]
        rintro rfl
        rw [hquotes.isAlpha hq] at hd
        cases hd
      simp [placeholderName?, hne, Scan.isWordStart, hd]
    by_cases hc : c.isAlpha = true
    · rw [List.map_cons, hletter hc, hletter ((ignoresCase_isAlpha c).trans hc), ← List.map_cons,
        Scan.word_lowered, ← List.map_take]
      rfl
    · have hc' : c.isAlpha = false := by simpa using hc
      have hlower : c :: cs.map Char.toLower = (c :: cs).map Char.toLower := by
        rw [List.map_cons, toLower_of_not_isAlpha hc']
      have hhead : ∀ n, ∀ d ∈ ((c :: cs).take n).head?, d.isAlpha = false := by
        intro n d hd
        cases n with
        | zero => simp at hd
        | succ n => simpa [← Option.mem_some_iff.mp hd] using hc'
      have hbracket : Letterless [']'] := by decide
      rw [List.map_cons, toLower_of_not_isAlpha hc']
      simp only [placeholderName?, hlower, Scan.string_lowered (.quoted c) hc',
        Scan.through_lowered hbracket, Scan.word_lowered, ← List.map_take,
        unquote_lowered (hhead _)]
      split_ifs <;> rfl

theorem namedPlaceholder?_lowered (h : lexicon.Caseless) (text : List Char) :
    namedPlaceholder? lexicon (text.map Char.toLower) =
      (namedPlaceholder? lexicon text).map (·.lowered) := by
  cases text with
  | nil => rfl
  | cons c cs =>
    have hnamed := h.named.contains c
    simp only [List.map_cons, namedPlaceholder?, hnamed, placeholderName?_lowered]
    split
    · cases placeholderName? cs <;> simp [Lexeme.lowered, PlaceholderKey.lowered, lowerAscii_ofList]
    · rfl

theorem sessionVariable?_lowered (h : lexicon.Caseless) (text : List Char) :
    sessionVariable? lexicon (text.map Char.toLower) =
      (sessionVariable? lexicon text).map (·.lowered) := by
  cases text with
  | nil => rfl
  | cons c cs =>
    by_cases hc : lexicon.variablePrefixes.contains c = true
    · have hsigil : c.isAlpha = false := h.variablePrefixes.isAlpha (by simpa using hc)
      have hsecond : ((cs.map Char.toLower).head? == some c) = (cs.head? == some c) := by
        cases cs with
        | nil => rfl
        | cons d cs => exact ignoresCase_eq hsigil d
      have hlower : c :: cs.map Char.toLower = (c :: cs).map Char.toLower := by
        rw [List.map_cons, toLower_of_not_isAlpha hsigil]
      rw [List.map_cons, toLower_of_not_isAlpha hsigil]
      simp only [sessionVariable?, hc, hsecond, hlower, ← List.map_drop, Scan.word_lowered, if_true]
      generalize (if cs.head? == some c then 2 else 1) = sigils
      split <;> rfl
    · have hc' := (h.variablePrefixes.contains c).trans (Bool.eq_false_iff.mpr hc)
      simp only [List.map_cons, sessionVariable?, hc, hc', Bool.false_eq_true, if_false,
        Option.map_none]

theorem number?_lowered (memory : Memory) (text : List Char) :
    number? memory.lowered (text.map Char.toLower) = (number? memory text).map (·.lowered) := by
  rw [number?, number?, ignoresCase_isDigit.any_head?, memory.startsFraction_lowered,
    Scan.number_lowered]
  split <;> rfl

theorem bracket?_lowered (lexicon : Lexicon) (text : List Char) :
    bracket? lexicon (text.map Char.toLower) = (bracket? lexicon text).map (·.lowered) := by
  cases text with
  | nil => rfl
  | cons c cs =>
    have hletter : ∀ {d : Char} {ds : List Char}, d.isAlpha = true →
        bracket? lexicon (d :: ds) = none := by
      intro d ds hd
      unfold bracket?
      split <;> first | rfl | next heq => cases heq; cases hd
    by_cases hc : c.isAlpha = true
    · rw [List.map_cons, hletter hc, hletter ((ignoresCase_isAlpha c).trans hc), Option.map_none]
    · rw [List.map_cons, toLower_of_not_isAlpha (by simpa using hc)]
      simp only [bracket?, List.head?_cons]
      split
      · rfl
      · rfl
      · split <;> rfl
      · split <;> rfl
      · rfl

theorem operator_lowered (text : List Char) :
    operator (text.map Char.toLower) = (operator text).lowered := by
  rw [operator, operator, Scan.compoundOperator_lowered, Lexeme.lowered_plain]

/-- A text in lower case is cut where the text was cut. -/
theorem lexeme_lowered (h : lexicon.Caseless) (memory : Memory) {text : List Char}
    (hdollar : lexicon.dollarQuotes = true → '$' ∉ text) :
    lexeme lexicon memory.lowered (text.map Char.toLower) =
      (lexeme lexicon memory text).lowered := by
  rw [lexeme, blanks?_lowered, comment?_lowered h, dollarString?_lowered hdollar,
    quotedString?_lowered h, prefixedString?_lowered h, word?_lowered,
    indexedPlaceholder?_lowered h, namedPlaceholder?_lowered h, sessionVariable?_lowered h,
    number?_lowered, bracket?_lowered, operator_lowered, lexeme]
  simp only [Option.orElse_eq_orElse, Option.orElse_eq_or, ← Option.map_or, Option.getD_map]

/-! ## The tokens of a text -/

theorem tokensFrom_lowered (dialect : Dialect) (memory : Memory) (pos : Nat) (text : List Char)
    (hdollar : dialect.lexicon.dollarQuotes = true → '$' ∉ text) :
    tokensFrom dialect.lexicon memory.lowered pos (text.map Char.toLower) =
      (tokensFrom dialect.lexicon memory pos text).map (·.lowered) := by
  induction memory, pos, text using cut_induction dialect with
  | nil memory pos => rw [List.map_nil, tokensFrom_nil, tokensFrom_nil, List.map_nil]
  | cut memory pos text found hne hr ih =>
    have hr' : Reads dialect.lexicon memory.lowered (text.map Char.toLower) found.lowered := by
      have := lexeme_reads dialect.lexicon memory.lowered (text.map Char.toLower)
      rwa [lexeme_lowered dialect.caseless memory hdollar, hr.eq] at this
    have htoken : found.lowered.token (text.map Char.toLower) pos =
        (found.token text pos).lowered := by
      simp only [Lexeme.token, Lexeme.lowered, Token.lowered, ← List.map_take, lowerAscii_ofList]
    have hrest := ih fun hq hmem => hdollar hq (List.mem_of_mem_drop hmem)
    rw [tokensFrom_cons dialect memory pos hne hr,
      tokensFrom_cons dialect memory.lowered pos (by simpa using hne) hr', htoken,
      ← memory.after_lowered, List.map_cons, ← hrest]
    simp only [Lexeme.lowered, ← List.map_take, ← List.map_drop, byteLength_map_toLower]

/-- Only the name of a named placeholder is a look-up key with letters. -/
theorem Reads.lowered_eq {memory : Memory} {text : List Char} {found : Lexeme}
    (h : Reads lexicon memory text found) (hk : found.kind ≠ .namedPlaceholder) :
    found.lowered = found := by
  cases h with
  | blanks h => obtain ⟨_, rfl⟩ := blanks?_eq_some h; rfl
  | comment _ h => rcases comment?_eq_some h with ⟨_, rfl⟩ | ⟨_, _, rfl⟩ <;> rfl
  | dollar _ _ h => obtain ⟨_, n, _, rfl⟩ := dollarString?_eq_some h; rfl
  | quoted _ _ _ h => obtain ⟨_, _, _, _, _, rfl⟩ := quotedString?_eq_some h; rfl
  | prefixed _ _ _ _ h => obtain ⟨_, _, _, _, _, rfl⟩ := prefixedString?_eq_some h; rfl
  | word _ h => rcases (word?_eq_some h).2 with ⟨_, rfl⟩ | ⟨_, _, kind, key, length, _, rfl⟩ <;> rfl
  | indexed _ _ h =>
    obtain ⟨_, _, _, _, ⟨_, rfl⟩ | ⟨_, _, rfl⟩⟩ := indexedPlaceholder?_eq_some h <;> rfl
  | named _ _ _ h =>
    obtain ⟨_, _, _, _, _, _, _, rfl⟩ := namedPlaceholder?_eq_some h
    exact absurd rfl hk
  | sessionVariable _ _ _ _ h =>
    obtain ⟨_, _, _, _, _, _, _, rfl⟩ := sessionVariable?_eq_some h
    rfl
  | number _ _ _ _ _ h => obtain ⟨_, rfl⟩ := number?_eq_some h; rfl
  | bracket _ _ _ _ _ _ h =>
    obtain ⟨_, _, _, ⟨_, rfl⟩ | ⟨_, rfl⟩ | ⟨_, _, rfl⟩ | ⟨_, _, rfl⟩⟩ := bracket?_eq_some h <;> rfl
  | operator => rfl

theorem key_lowered_of_mem (dialect : Dialect) (memory : Memory) (pos : Nat) (text : List Char) :
    ∀ t ∈ tokensFrom dialect.lexicon memory pos text, t.kind ≠ .namedPlaceholder →
      t.lowered.key = t.key := by
  induction memory, pos, text using cut_induction dialect with
  | nil memory pos => simp [tokensFrom_nil]
  | cut memory pos text found hne hr ih =>
    rw [tokensFrom_cons dialect memory pos hne hr]
    intro t ht hk
    rcases List.mem_cons.mp ht with rfl | ht
    · exact congrArg Lexeme.key (hr.lowered_eq hk)
    · exact ih t ht hk

end Lexer

/-- The tokens of a text in lower case are the tokens of the text in lower case. -/
theorem tokenize_lowerAscii (dialect : Dialect) {s : String}
    (hdollar : dialect.lexicon.dollarQuotes = true → '$' ∉ s.toList) :
    tokenize dialect.lexicon (lowerAscii s) = (tokenize dialect.lexicon s).map (·.lowered) := by
  rw [tokenize, toList_lowerAscii]
  exact Lexer.tokensFrom_lowered dialect .start 0 s.toList hdollar

/-- Two tokens that differ in nothing but the case of letters. A name that parameters are looked up
by is the one key that has letters. -/
structure Token.SameButCase (a b : Token) : Prop where
  kind : a.kind = b.kind
  pos : a.pos = b.pos
  utf8ByteSize : a.text.utf8ByteSize = b.text.utf8ByteSize
  text : lowerAscii a.text = lowerAscii b.text
  key : a.kind ≠ .namedPlaceholder → a.key = b.key

theorem utf8ByteSize_lowerAscii (s : String) : (lowerAscii s).utf8ByteSize = s.utf8ByteSize := by
  rw [lowerAscii, ← Lexer.byteLength_eq, byteLength_map_toLower, Lexer.byteLength_eq,
    String.ofList_toList]

/-- Tokens with the same lower-case form differ in nothing but case. -/
theorem Token.SameButCase.of_lowered {a b : Token} (h : a.lowered = b.lowered)
    (ha : a.kind ≠ .namedPlaceholder → a.lowered.key = a.key)
    (hb : b.kind ≠ .namedPlaceholder → b.lowered.key = b.key) : a.SameButCase b where
  kind := by simpa only [Token.lowered] using congrArg Token.kind h
  pos := by simpa only [Token.lowered] using congrArg Token.pos h
  utf8ByteSize := by
    have := congrArg (·.text.utf8ByteSize) h
    simpa only [Token.lowered, utf8ByteSize_lowerAscii] using this
  text := by simpa only [Token.lowered] using congrArg Token.text h
  key := by
    intro hk
    have hkind : a.kind = b.kind := by simpa only [Token.lowered] using congrArg Token.kind h
    rw [← ha hk, h, hb (hkind ▸ hk)]

/-- Two texts that differ in nothing but the case of letters are cut into tokens that differ in
nothing but that: the same number of them, of the same kinds, in the same places. Where a dialect
has dollar-quoted strings the texts have no dollar sign. -/
theorem tokenize_ignoresCase (dialect : Dialect) {s t : String}
    (h : lowerAscii s = lowerAscii t)
    (hdollar : dialect.lexicon.dollarQuotes = true → '$' ∉ s.toList) :
    List.Forall₂ Token.SameButCase (tokenize dialect.lexicon s) (tokenize dialect.lexicon t) := by
  have hdollar' : dialect.lexicon.dollarQuotes = true → '$' ∉ t.toList := by
    have hmem : ∀ u : String, '$' ∈ u.toList ↔ '$' ∈ (lowerAscii u).toList := by
      intro u
      rw [toList_lowerAscii, List.mem_map]
      constructor
      · exact fun hu => ⟨_, hu, rfl⟩
      · rintro ⟨c, hc, heq⟩
        exact (toLower_eq_iff rfl c).mp heq ▸ hc
    rw [hmem, ← h, ← hmem]
    exact hdollar
  have hlowered : (tokenize dialect.lexicon s).map (·.lowered) =
      (tokenize dialect.lexicon t).map (·.lowered) := by
    rw [← tokenize_lowerAscii dialect hdollar, ← tokenize_lowerAscii dialect hdollar', h]
  have hs := Lexer.key_lowered_of_mem dialect .start 0 s.toList
  have ht := Lexer.key_lowered_of_mem dialect .start 0 t.toList
  rw [← tokenize] at hs ht
  have hpairs : List.Forall₂ (fun a b : Token => a.lowered = b.lowered)
      (tokenize dialect.lexicon s) (tokenize dialect.lexicon t) := by
    rw [← List.forall₂_map_right_iff, ← List.forall₂_map_left_iff, List.forall₂_eq_eq_eq]
    exact hlowered
  rw [List.forall₂_iff_zip] at hpairs ⊢
  refine ⟨hpairs.1, fun {a b} hmem => ?_⟩
  obtain ⟨ha, hb⟩ := List.of_mem_zip hmem
  exact .of_lowered (hpairs.2 hmem) (hs a ha) (ht b hb)

theorem tokenize_ignoresCase_begin :
    List.Forall₂ Token.SameButCase (tokenize Dialect.postgresql.lexicon "BEGIN Work; SELECT e'x'")
      (tokenize Dialect.postgresql.lexicon "begin wORK; select E'X'") :=
  tokenize_ignoresCase .postgresql (by decide) (by decide)

end SqlFormat
