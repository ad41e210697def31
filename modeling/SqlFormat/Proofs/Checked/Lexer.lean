import Mathlib
import SqlFormat.Proofs.Checked.Words
import SqlFormat.Proofs.Text.Spread
import SqlFormat.Proofs.Token.Delimiter

/-!
# The lexer on bytes cuts a text where the lexer on characters does

Every rule of the byte lexer gives what its rule gives on the characters, with the length in bytes. So
no byte is asked for that is not there, no character is split, and the tokens are the same.

Results: `lexeme_eq` (one cut), `tokenize_eq` (all of them).
-/

namespace SqlFormat.Checked.Lexer

open SqlFormat.Lexer SqlFormat.Scan Text Bytes

variable {dialect : Dialect} {memory : Memory} {rest : Bytes} {first c : Char} {cs text : List Char}

/-- A lexeme with its length in bytes. -/
def inBytes (text : List Char) (found : Lexeme) : Lexeme :=
  ⟨found.kind, offset text found.length, found.key⟩

/-- Behind an ASCII character there is one byte more. -/
theorem inBytes_cons (hc : c.toNat < 128) (kind : TokenKind) (n : Nat) (key : Option PlaceholderKey) :
    inBytes (c :: cs) ⟨kind, 1 + n, key⟩ = ⟨kind, 1 + offset cs n, key⟩ := by
  rw [inBytes, Nat.add_comm 1 n, offset_ascii_cons hc]

/-- A rule gives what was found on the characters. -/
def Gives (text : List Char) (rule : Rule) (found : Option Lexeme) : Prop :=
  rule.run = .ok (found.map (inBytes text))

theorem Gives.orElse {rule rule' : Rule} {found found' : Option Lexeme} (h : Gives text rule found)
    (h' : Gives text rule' found') : Gives text (rule <|> rule') (found <|> found') := by
  rw [Gives, OptionT.run_orElse, h]
  cases found with
  | none => exact h'
  | some found => rfl

/-! ## The bytes ahead -/

/-- The bytes ahead are those of the text ahead, and the first of them is known. -/
structure Ahead (rest : Bytes) (first c : Char) (cs : List Char) : Prop where
  chars : rest.chars = bytesOf (c :: cs)
  first : rest.chars[0]? = some first

theorem Ahead.mem (h : Ahead rest first c cs) : first ∈ bytesOf [c] := by
  have hfirst := h.first
  have hpos : 0 < (bytesOf [c]).length := by
    rw [length_bytesOf]
    exact c.utf8Size_pos
  rw [h.chars, bytesOf_cons, List.getElem?_append_left hpos] at hfirst
  exact List.mem_of_getElem? hfirst

/-- What does not tell the characters outside ASCII apart is the same of the byte. -/
theorem Ahead.blind {β : Type} {f : Char → β} (h : Ahead rest first c cs) (hf : Blind f) :
    f first = f c :=
  hf.byte h.mem

theorem Ahead.ascii (h : Ahead rest first c cs) (hc : c.toNat < 128) :
    first = c ∧ rest.chars = c :: bytesOf cs := by
  have hmem := h.mem
  rw [bytesOf_ascii hc, List.mem_singleton] at hmem
  exact ⟨hmem, by rw [h.chars, bytesOf_ascii_cons hc]⟩

theorem Ahead.size_pos (h : Ahead rest first c cs) : 0 < rest.size := by
  rw [← length_chars, h.chars]
  exact Nat.pos_of_ne_zero fun hzero => List.cons_ne_nil c cs (length_bytesOf_eq_zero.mp hzero)

/-- Membership in a list of ASCII characters. -/
theorem blind_contains {l : List Char} (hl : ∀ c ∈ l, c.toNat < 128) : Blind l.contains :=
  .of_ascii fun c hc => hl c (List.contains_iff_mem.mp hc)

/-! ## Blanks, comments and strings -/

theorem blanks_eq (h : Ahead rest first c cs) :
    Gives (c :: cs) (blanks first rest) (blanks? (c :: cs)) := by
  rw [Gives, blanks, blanks?, List.head?_cons, Option.any_some, h.blind blind_isBlank,
    Scan.blanks_eq, h.chars, blanks_bytesOf]
  cases isBlank c <;> rfl

theorem startsLineComment_eq (h : rest.chars = bytesOf text) :
    startsLineComment dialect.lexicon rest = dialect.lexicon.startsLineComment text := by
  rw [startsLineComment, Lexicon.startsLineComment, Bool.eq_iff_iff, List.any_eq_true,
    List.any_eq_true]
  refine exists_congr fun mark => and_congr_right fun hmark => ?_
  have hascii : ∀ c ∈ mark.toList, c.toNat < 128 := by
    rcases lineComments_subset dialect mark hmark with rfl | rfl <;> simp
  rw [startsWith_eq, h, isPrefixOf_bytesOf hascii]

theorem comment_eq (dialect : Dialect) (h : Ahead rest first c cs) :
    Gives (c :: cs) (comment dialect.lexicon rest) (comment? dialect.lexicon (c :: cs)) := by
  have hblock : rest.startsWith ['/', '*'] = startsBlockComment (c :: cs) := by
    rw [startsWith_eq, h.chars]
    exact startsBlockComment_bytesOf (c :: cs)
  rw [Gives, comment, comment?, OptionT.run_mk, startsLineComment_eq h.chars, hblock,
    Scan.lineComment_eq, h.chars, lineComment_bytesOf]
  split
  · rfl
  · split
    · next hstarts =>
      have hlength : offset (c :: cs) (blockComment (c :: cs)) ≤ rest.chars.length :=
        h.chars ▸ offset_le _ _
      have hsize : 2 ≤ rest.size := by
        have hprefix := List.isPrefixOf_iff_prefix.mp
          ((startsBlockComment_bytesOf (c :: cs)).trans hstarts)
        rw [← length_chars, h.chars]
        exact hprefix.length_le
      rw [Scan.blockComment_eq hsize, ok_bind, h.chars, blockComment_bytesOf hstarts,
        before_eq hlength]
      rfl
    · rfl

theorem dollarString_eq (dialect : Dialect) (h : Ahead rest first c cs) :
    Gives (c :: cs) (dollarString dialect.lexicon first rest)
      (SqlFormat.Lexer.dollarString? dialect.lexicon (c :: cs)) := by
  have hdollar : ('$' : Char).toNat < 128 := by decide
  rw [Gives, dollarString, SqlFormat.Lexer.dollarString?, OptionT.run_mk, h.blind (blind_beq hdollar)]
  by_cases hc : c = '$'
  · subst hc
    obtain ⟨-, hchars⟩ := h.ascii hdollar
    cases dialect.lexicon.dollarQuotes with
    | false => rfl
    | true =>
      simp only [BEq.rfl, Bool.and_self, if_true]
      rw [Scan.dollarString?_eq hchars, h.chars, dollarString?_bytesOf]
      cases SqlFormat.Scan.dollarString? ('$' :: cs) <;> rfl
  · have hnone : SqlFormat.Scan.dollarString? (c :: cs) = none := by
      rw [SqlFormat.Scan.dollarString?, dollarTag?]
      · rfl
      · rintro rest' heq
        exact hc (List.cons.inj heq).1
    rw [beq_eq_false_iff_ne.mpr hc, hnone]
    cases dialect.lexicon.dollarQuotes <;> rfl

theorem blind_stringStyle? (dialect : Dialect) : Blind dialect.lexicon.stringStyle? := by
  have hnone : ∀ c : Char, 128 ≤ c.toNat → dialect.lexicon.stringStyle? c = none := by
    intro c hc
    refine stringStyle?_none dialect.delimits fun hmem => ?_
    have hall : ∀ q ∈ ['\x27', '\x22', '\x60', '['], q.toNat < 128 := by simp
    have := hall c hmem
    omega
  intro c d hc hd
  rw [hnone c hc, hnone d hd]

theorem quotedString_eq (dialect : Dialect) (h : Ahead rest first c cs) :
    Gives (c :: cs) (quotedString dialect.lexicon first rest)
      (quotedString? dialect.lexicon (c :: cs)) := by
  rw [Gives, quotedString, quotedString?, OptionT.run_mk, h.blind (blind_stringStyle? dialect),
    List.head?_cons]
  cases hstyle : dialect.lexicon.stringStyle? c with
  | none => simp [hstyle]
  | some style =>
    obtain ⟨hmem, rfl⟩ := stringStyle?_eq_some hstyle
    have hstring := @string_bytesOf style (style.opening :: cs)
      (dialect.strings_regular style hmem) rfl
    simp only [Option.bind_eq_bind, Option.bind_some, hstyle]
    rw [Scan.string_eq style h.size_pos, h.chars, hstring]
    rfl

theorem blind_prefixedStrings (dialect : Dialect) :
    Blind fun c => dialect.lexicon.prefixedStrings.lookup c := by
  have hnone : ∀ c : Char, 128 ≤ c.toNat → dialect.lexicon.prefixedStrings.lookup c = none := by
    intro c hc
    refine List.lookup_eq_none_iff.mpr fun entry hentry => ?_
    have halpha := dialect.delimits.letters entry hentry
    have : entry.1.toNat < 128 :=
      isKeywordChar_lt (by simp [isKeywordChar, Char.isAlphanum, halpha])
    exact bne_iff_ne.mpr fun heq => by subst heq; omega
  exact fun c d hc hd => (hnone c hc).trans (hnone d hd).symm

/-! A string with a prefix: the byte is no prefix, or no quote follows it, or a string does. -/

theorem prefixedString_none_of_lookup {lexicon : Lexicon}
    (hlookup : lexicon.prefixedStrings.lookup first = none) :
    (prefixedString lexicon first rest).run = .ok none := by
  rw [prefixedString, OptionT.run_mk, hlookup]
  split
  · next hsize =>
    obtain ⟨second, hsecond, -⟩ := drop_chars_of_lt hsize
    rw [Bytes.element_eq hsecond, ok_bind]
    split <;> rfl
  · rfl

theorem prefixedString?_none_of_lookup {lexicon : Lexicon}
    (hlookup : lexicon.prefixedStrings.lookup c = none) (cs : List Char) :
    prefixedString? lexicon (c :: cs) = none := by
  rw [prefixedString?.eq_def]
  split
  · next letter tail heq =>
    obtain rfl := (List.cons.inj heq).1
    simp [hlookup]
  · rfl

theorem prefixedString_none_of_second (lexicon : Lexicon) (first : Char)
    (hsecond : rest.chars[1]? ≠ some '\x27') : (prefixedString lexicon first rest).run = .ok none := by
  rw [prefixedString, OptionT.run_mk]
  split
  · next hsize =>
    obtain ⟨second, heq, -⟩ := drop_chars_of_lt hsize
    have hne : (second == '\x27') = false := by
      rw [heq] at hsecond
      exact beq_eq_false_iff_ne.mpr fun habs => hsecond (congrArg some habs)
    rw [Bytes.element_eq heq, ok_bind, hne]
    rfl
  · rfl

theorem prefixedString_quoted {lexicon : Lexicon} {backslash : Bool} {ds : List Char}
    (hfirst : lexicon.prefixedStrings.lookup first = some backslash)
    (hlookup : lexicon.prefixedStrings.lookup c = some backslash) (hascii : c.toNat < 128)
    (htail : rest.chars.tail = bytesOf ('\x27' :: ds)) :
    Gives (c :: '\x27' :: ds) (prefixedString lexicon first rest)
      (prefixedString? lexicon (c :: '\x27' :: ds)) := by
  have hquote : ('\x27' : Char).toNat < 128 := by decide
  have hescape : ('\x27' : Char) ≠ '\\' := by decide
  rw [bytesOf_ascii_cons hquote] at htail
  have hsecond : rest.chars[1]? = some '\x27' := by rw [← List.getElem?_tail, htail]; rfl
  have hsize : 1 < rest.chars.length := (List.getElem?_eq_some_iff.mp hsecond).1
  have hstring := @string_bytesOf ⟨'\x27', '\x27', backslash⟩ ('\x27' :: ds)
    ⟨hescape, hquote, hquote⟩ rfl
  have hdrop : (rest.drop 1).chars = bytesOf ('\x27' :: ds) := by
    rw [chars_drop, List.drop_one, htail, bytesOf_ascii_cons hquote]
  have hpos : 0 < (rest.drop 1).size := by
    rw [← length_chars, hdrop, bytesOf_ascii_cons hquote]
    exact Nat.succ_pos _
  rw [Gives, prefixedString, OptionT.run_mk, hfirst, if_pos (length_chars rest ▸ hsize),
    Bytes.element_eq hsecond, ok_bind, if_pos (beq_self_eq_true _), since_eq hsize.le]
  simp only [ok_bind]
  rw [Scan.string_eq _ hpos, hdrop, hstring, ok_bind, prefixedString?]
  simp only [hlookup, Option.bind_eq_bind, Option.bind_some, Option.pure_def, Option.map_some,
    pure_eq]
  rw [Lexeme.plain, Lexeme.plain, inBytes_cons hascii]
  rfl

theorem prefixedString_eq (dialect : Dialect) (h : Ahead rest first c cs) :
    Gives (c :: cs) (prefixedString dialect.lexicon first rest)
      (prefixedString? dialect.lexicon (c :: cs)) := by
  have hblind := h.blind (blind_prefixedStrings dialect)
  cases hlookup : dialect.lexicon.prefixedStrings.lookup c with
  | none =>
    rw [Gives, prefixedString_none_of_lookup (hblind.trans hlookup),
      prefixedString?_none_of_lookup hlookup]
    rfl
  | some backslash =>
    obtain ⟨l, l', hsplit, -⟩ := List.lookup_eq_some_iff.mp hlookup
    have halpha := dialect.delimits.letters (c, backslash) (by rw [hsplit]; simp)
    have hascii : c.toNat < 128 :=
      isKeywordChar_lt (by simp [isKeywordChar, Char.isAlphanum, halpha])
    obtain ⟨-, hchars⟩ := h.ascii hascii
    by_cases hhead : cs.head? = some '\x27'
    · obtain ⟨ds, rfl⟩ := List.head?_eq_some_iff.mp hhead
      exact prefixedString_quoted (hblind.trans hlookup) hlookup hascii (by rw [hchars, List.tail_cons])
    · have hsecond : rest.chars[1]? ≠ some '\x27' := by
        rw [hchars, List.getElem?_cons_succ, ← List.head?_eq_getElem?]
        have hbeq := head?_beq_bytesOf (by decide : ('\x27' : Char).toNat < 128) cs
        rw [beq_eq_false_iff_ne.mpr hhead] at hbeq
        exact beq_eq_false_iff_ne.mp hbeq
      rw [Gives, prefixedString_none_of_second _ _ hsecond, prefixedString?_none_of_second hhead]
      rfl

/-! ## Words -/

theorem word_eq (dialect : Dialect) (memory : Memory) (h : Ahead rest first c cs) :
    Gives (c :: cs) (word dialect.lexicon memory first rest)
      (word? dialect.lexicon memory (c :: cs)) := by
  rw [Gives, word, word?, OptionT.run_mk, List.head?_cons, Option.any_some, Option.any_some,
    h.blind blind_isWordStart, h.blind blind_isAlpha]
  split
  · rw [Scan.word_eq, ok_bind]
    split
    · rw [h.chars, word_bytesOf]
      rfl
    · obtain ⟨spans, hspans, hlongest⟩ := @longest?_eq dialect rest
      rw [hspans, ok_bind]
      simp only [List.size_toArray, List.length_cons]
      rw [hlongest, ok_bind, h.chars, keyword?_bytesOf, word_bytesOf]
      cases hkeyword : keyword? dialect.lexicon (c :: cs) with
      | none => rfl
      | some found =>
        obtain ⟨kind, key, length⟩ := found
        have hle : offset (c :: cs) length ≤ rest.chars.length := h.chars ▸ offset_le _ _
        have htail : (rest.drop (offset (c :: cs) length)).chars = bytesOf ((c :: cs).drop length) := by
          rw [chars_drop, h.chars, drop_bytesOf]
        simp only [Option.map_some]
        rw [since_eq hle, ok_bind, refine_eq memory kind key htail]
        rfl
  · rfl

/-! ## Placeholders and variables -/

/-- The sigils of placeholders and variables are ASCII. -/
theorem sigils_ascii (dialect : Dialect) :
    (∀ c ∈ dialect.lexicon.placeholders.indexed, c.toNat < 128) ∧
      (∀ c ∈ dialect.lexicon.placeholders.named, c.toNat < 128) ∧
        ∀ c ∈ dialect.lexicon.variablePrefixes, c.toNat < 128 := by
  have hindexed : ∀ c ∈ ['?', '$'], c.toNat < 128 := by simp
  have hnamed : ∀ c ∈ [':', '@', '$'], c.toNat < 128 := by simp
  refine ⟨fun c hc => hindexed c (dialect.delimits.indexed c hc),
    fun c hc => hnamed c (dialect.delimits.named c hc), fun c hc => ?_⟩
  obtain ⟨rfl, -⟩ := dialect.delimits.sigil c hc
  exact hnamed _ (by simp)

theorem indexedPlaceholder_eq (dialect : Dialect) (memory : Memory) (h : Ahead rest first c cs) :
    Gives (c :: cs) (indexedPlaceholder dialect.lexicon memory first rest)
      (indexedPlaceholder? dialect.lexicon memory (c :: cs)) := by
  rw [Gives, indexedPlaceholder, indexedPlaceholder?, OptionT.run_mk,
    h.blind (blind_contains (sigils_ascii dialect).1)]
  split
  · next hc =>
    have hascii := (sigils_ascii dialect).1 c (List.contains_iff_mem.mp hc)
    obtain ⟨rfl, hchars⟩ := h.ascii hascii
    have htail : (rest.drop 1).chars = bytesOf cs := by rw [chars_drop, hchars]; rfl
    have hdigits : ∀ d ∈ cs.takeWhile Char.isDigit, d.toNat < 128 := fun d hd =>
      isKeywordChar_lt (by simp [isKeywordChar, Char.isAlphanum, List.mem_takeWhile_imp hd])
    have hrun : (bytesOf cs).takeWhile Char.isDigit = cs.takeWhile Char.isDigit := by
      rw [takeWhile_bytesOf blind_isDigit, bytesOf_eq_self hdigits]
    rw [since_eq (by rw [hchars]; simp), ok_bind]
    simp only [Scan.position?_getD, htail, hrun]
    have hprefix := List.takeWhile_prefix (l := bytesOf cs) Char.isDigit
    have hlength := hprefix.length_le
    have hoffset := length_takeWhile_bytesOf blind_isDigit cs
    rw [hrun] at hprefix hlength hoffset
    by_cases hempty : cs.takeWhile Char.isDigit = []
    · rw [hempty]
      simp only [List.length_nil, Nat.lt_irrefl, if_false, List.isEmpty_nil, Bool.not_true,
        Bool.false_eq_true]
      split
      · exact congrArg (Except.ok ∘ some) (inBytes_cons hascii _ 0 _).symm
      · rfl
    · have hpos := List.length_pos_iff.mpr hempty
      rw [if_pos hpos, if_pos (by simpa using hempty),
        Bytes.part_eq (by omega) (by rw [hchars, List.length_cons]; omega), ok_bind, chars_drop,
        chars_take, hchars, List.take_succ_cons, List.drop_succ_cons, List.drop_zero,
        ← List.prefix_iff_eq_take.mp hprefix, Option.map_some, inBytes_cons hascii, ← hoffset]
      rfl
  · rfl

/-- A quoted name keeps its quotes in bytes. -/
theorem unquote_bytesOf {quote closing : Char} (hquote : quote.toNat < 128)
    (hclosing : closing.toNat < 128) (h : closing = if quote == '[' then ']' else quote)
    (body : List Char) :
    unquote (bytesOf (quote :: body)) = bytesOf (unquote (quote :: body)) := by
  have hlast : ((bytesOf body).getLast? == some closing) = (body.getLast? == some closing) ∧
      (body.getLast? = some closing → (bytesOf body).dropLast = bytesOf body.dropLast) := by
    rcases List.eq_nil_or_concat body with rfl | ⟨body, d, rfl⟩
    · exact ⟨rfl, fun _ => rfl⟩
    · rw [List.concat_eq_append, bytesOf_append]
      rcases Nat.lt_or_ge d.toNat 128 with hd | hd
      · rw [bytesOf_ascii hd]
        simp
      · have hne : d ≠ closing := by
          rintro rfl
          omega
        have hbytes : bytesOf [d] ≠ [] := fun hnil => by
          have := length_bytesOf_eq_zero.mp (congrArg List.length hnil)
          cases this
        obtain ⟨b, hb⟩ := Option.isSome_iff_exists.mp (List.getLast?_isSome.mpr hbytes)
        have hlarge := le_of_mem_bytesOf hd b (List.mem_of_getLast? hb)
        have hne' : b ≠ closing := by
          rintro rfl
          omega
        rw [List.getLast?_append, hb]
        simp [hne, hne']
  rw [bytesOf_ascii_cons hquote, unquote, unquote, ← h, hlast.1]
  split
  · next hend => exact hlast.2 (beq_iff_eq.mp hend)
  · rfl

theorem unquoted_eq {quoted : Bytes} {quote closing : Char} (hquote : quote.toNat < 128)
    (hclosing : closing.toNat < 128) (h : closing = if quote == '[' then ']' else quote)
    {body : List Char} (hchars : quoted.chars = bytesOf (quote :: body)) :
    unquoted quoted = .ofList (unquote (quote :: body)) := by
  rw [unquoted, hchars, unquote_bytesOf hquote hclosing h, map_toUInt8_bytesOf, decodeLossy_encode]

/-- The first place of a character, or the end. -/
theorem through_singleton (a : Char) (cs : List Char) :
    through [a] cs = ((cs.findIdx? (· == a)).map (· + 1)).getD cs.length := by
  induction cs with
  | nil => rfl
  | cons c cs ih =>
    have hhead : [a].isPrefixOf (c :: cs) = (c == a) := by
      rw [List.isPrefixOf, List.isPrefixOf_nil_left, Bool.and_true, Bool.beq_comm]
    rw [through, hhead, List.findIdx?_cons, ih]
    split
    · rfl
    · cases cs.findIdx? (· == a) with
      | none => simp only [Option.map_none, Option.getD_none, List.length_cons]; omega
      | some i => simp only [Option.map_some, Option.getD_some]; omega

/-- A name in bytes is the name in characters. -/
theorem placeholderName?_eq {body : Bytes} (h : Ahead body first c cs) :
    placeholderName? body = .ok ((SqlFormat.Lexer.placeholderName? (c :: cs)).map fun found =>
      (offset (c :: cs) found.1, .ofList found.2)) := by
  have hbefore : ∀ n, body.before (offset (c :: cs) n) =
      .ok (body.take (offset (c :: cs) n)) := fun n => before_eq (h.chars ▸ offset_le _ _)
  have htake : ∀ n, (body.take (offset (c :: cs) n)).chars = bytesOf ((c :: cs).take n) :=
    fun n => by rw [chars_take, h.chars, take_bytesOf]
  have hquoted : ∀ d : Char, (d == '\x22' || d == '\x60' || d == '\x27') = true →
      d.toNat < 128 ∧ d ≠ '[' ∧ d ≠ '\\' := by
    intro d hd
    rw [Bool.or_eq_true, Bool.or_eq_true, beq_iff_eq, beq_iff_eq, beq_iff_eq] at hd
    rcases hd with (rfl | rfl) | rfl <;> decide
  have hquote : (first == '\x22' || first == '\x60' || first == '\x27') =
      (c == '\x22' || c == '\x60' || c == '\x27') :=
    h.blind (f := fun c => c == '\x22' || c == '\x60' || c == '\x27')
      (.of_ascii fun c hc => (hquoted c hc).1)
  rw [placeholderName?, SqlFormat.Lexer.placeholderName?, Bytes.element_eq h.first, ok_bind, hquote,
    h.blind (blind_beq (a := '[') (by decide)), h.blind blind_isWordStart, h.blind blind_isDigit]
  -- every delimiter is ASCII, so that the bytes of the name are cut where its characters are
  split
  · next hc =>
    obtain ⟨hascii, hne, hescape⟩ := hquoted c hc
    obtain ⟨rfl, hchars⟩ := h.ascii hascii
    have hregular : (StringStyle.quoted first).Regular := ⟨hescape, hascii, hascii⟩
    have hstring := @string_bytesOf _ (first :: cs) hregular rfl
    obtain ⟨n, hn⟩ : ∃ n, SqlFormat.Scan.string (.quoted first) (first :: cs) = n + 1 :=
      ⟨_, Nat.add_comm 1 _⟩
    rw [hn] at hstring
    rw [Scan.string_eq _ h.size_pos, h.chars, hstring, ok_bind, ← offset, hbefore, ok_bind, hn,
      unquoted_eq hascii hascii (by simp [hne]) (by rw [htake, List.take_succ_cons])]
    rfl
  · split
    · next hc =>
      obtain rfl : c = '[' := by simpa using hc
      obtain ⟨rfl, hchars⟩ := h.ascii (by decide)
      have hthrough := through_singleton ']' (bytesOf ('[' :: cs))
      rw [through_bytesOf (by simp) (by simp), ← h.chars, ← position?_eq, length_chars] at hthrough
      obtain ⟨n, hn⟩ : ∃ n, through [']'] ('[' :: cs) = n + 1 := ⟨_, Nat.add_comm 1 _⟩
      rw [hn] at hthrough
      simp only [← hthrough]
      rw [hbefore, ok_bind, hn, @unquoted_eq _ '[' ']' (by decide) (by decide) rfl _
        (by rw [htake, List.take_succ_cons])]
      rfl
    · split
      · rw [Scan.word_eq, h.chars, word_bytesOf, ok_bind, hbefore, ok_bind,
          decodeLossy_toList (htake _)]
        rfl
      · rfl

/-- Where a text goes on, its bytes do. -/
theorem exists_ahead {bytes : Bytes} (h : bytes.chars = bytesOf (c :: cs)) :
    ∃ first, Ahead bytes first c cs := by
  have hpos : 0 < bytes.chars.length := by
    rw [h]
    exact Nat.pos_of_ne_zero fun hzero => List.cons_ne_nil c cs (length_bytesOf_eq_zero.mp hzero)
  exact ⟨_, h, List.getElem?_eq_getElem hpos⟩

theorem namedPlaceholder_eq (dialect : Dialect) (h : Ahead rest first c cs) :
    Gives (c :: cs) (namedPlaceholder dialect.lexicon first rest)
      (namedPlaceholder? dialect.lexicon (c :: cs)) := by
  rw [Gives, namedPlaceholder, namedPlaceholder?, OptionT.run_mk,
    h.blind (blind_contains (sigils_ascii dialect).2.1)]
  by_cases hc : dialect.lexicon.placeholders.named.contains c = true
  · have hascii := (sigils_ascii dialect).2.1 c (List.contains_iff_mem.mp hc)
    obtain ⟨-, hchars⟩ := h.ascii hascii
    have hsize := congrArg List.length hchars
    rw [length_chars, List.length_cons] at hsize
    rw [hc, Bool.true_and, if_pos rfl]
    cases cs with
    | nil =>
      rw [hsize]
      rfl
    | cons d ds =>
      have htail : (rest.drop 1).chars = bytesOf (d :: ds) := by rw [chars_drop, hchars]; rfl
      obtain ⟨next, hnext⟩ := exists_ahead htail
      have hpos := hnext.size_pos
      rw [← length_chars, htail] at hpos
      rw [if_pos (by simp only [decide_eq_true_eq]; omega), since_eq (by rw [hchars]; simp), ok_bind,
        placeholderName?_eq hnext]
      cases SqlFormat.Lexer.placeholderName? (d :: ds) with
      | none => rfl
      | some found =>
        simp only [ok_bind, pure_eq, Option.map_some]
        rw [inBytes_cons hascii]
  · rw [Bool.not_eq_true] at hc
    rw [hc]
    rfl

theorem sessionVariable_eq (dialect : Dialect) (h : Ahead rest first c cs) :
    Gives (c :: cs) (sessionVariable dialect.lexicon first rest)
      (sessionVariable? dialect.lexicon (c :: cs)) := by
  rw [Gives, sessionVariable, sessionVariable?, OptionT.run_mk,
    h.blind (blind_contains (sigils_ascii dialect).2.2)]
  split
  · next hc =>
    have hascii := (sigils_ascii dialect).2.2 c (List.contains_iff_mem.mp hc)
    obtain ⟨rfl, hchars⟩ := h.ascii hascii
    have hsecond : (rest.char? 1 == some first) = (cs.head? == some first) := by
      rw [char?_eq, hchars, List.getElem?_cons_succ, ← List.head?_eq_getElem?,
        head?_beq_bytesOf hascii]
    simp only [hsecond]
    -- One sigil or two: each is one byte.
    obtain ⟨ds, hds, hbytes, hoffset⟩ : ∃ ds,
        (first :: cs).drop (if cs.head? == some first then 2 else 1) = ds ∧
          rest.chars.drop (if cs.head? == some first then 2 else 1) = bytesOf ds ∧
            offset (first :: cs) (if cs.head? == some first then 2 else 1) =
              if cs.head? == some first then 2 else 1 := by
      refine ⟨_, rfl, ?_⟩
      split
      · next htwo =>
        obtain ⟨es, rfl⟩ : ∃ es, cs = first :: es := by
          cases cs with
          | nil => simp at htwo
          | cons d es => exact ⟨es, by rw [Option.some.inj (beq_iff_eq.mp htwo)]⟩
        rw [hchars, bytesOf_ascii_cons hascii]
        exact ⟨rfl, by rw [offset_ascii_cons hascii, offset_ascii_cons hascii]; rfl⟩
      · rw [hchars]
        exact ⟨rfl, by rw [offset_ascii_cons hascii]; rfl⟩
    generalize (if (cs.head? == some first) = true then 2 else 1) = sigils at hds hbytes hoffset ⊢
    have hle : sigils ≤ rest.chars.length := by
      rw [← hoffset, h.chars]
      exact offset_le _ _
    rw [since_eq hle, ok_bind, Scan.word_eq, ok_bind, chars_drop, hbytes, word_bytesOf, hds]
    have hword := SqlFormat.Scan.word_le ds
    have hoffsets := offset_add (first :: cs) sigils (SqlFormat.Scan.word ds)
    rw [hoffset, hds] at hoffsets
    by_cases hzero : SqlFormat.Scan.word ds = 0
    · rw [hzero]
      rfl
    · have hne : ds ≠ [] := by
        rintro rfl
        exact hzero rfl
      have hpos := offset_pos (Nat.pos_of_ne_zero hzero) hne
      rw [if_neg (by omega), if_neg hzero, Option.map_some, inBytes]
      simp only [Lexeme.plain, hoffsets]
      rfl
  · rfl

/-! ## Numbers, brackets and operators -/

theorem number_eq (memory : Memory) (h : Ahead rest first c cs) :
    Gives (c :: cs) (number memory first rest) (number? memory (c :: cs)) := by
  have hdot : ('.' : Char).toNat < 128 := by decide
  have hfraction : startsFraction memory first rest = memory.startsFraction (c :: cs) := by
    rw [startsFraction, h.blind (blind_beq hdot)]
    by_cases hc : c = '.'
    · subst hc
      obtain ⟨-, hchars⟩ := h.ascii hdot
      rw [char?_eq, hchars, List.getElem?_cons_succ, ← List.head?_eq_getElem?,
        any_head?_bytesOf blind_isDigit]
      cases cs with
      | nil => rfl
      | cons d ds => simp [Memory.startsFraction]
    · rw [beq_eq_false_iff_ne.mpr hc, Bool.false_and, Bool.false_and, Memory.startsFraction.eq_def]
      split
      · next heq => exact absurd (List.cons.inj heq).1 hc
      · rfl
  rw [Gives, number, number?, OptionT.run_mk, List.head?_cons, Option.any_some,
    h.blind blind_isDigit, hfraction]
  split
  · rw [Scan.number_eq, h.chars, number_bytesOf]
    rfl
  · rfl

theorem bracket_eq (dialect : Dialect) (h : Ahead rest first c cs) :
    Gives (c :: cs) (bracket dialect.lexicon first) (bracket? dialect.lexicon (c :: cs)) := by
  have hbracket : ∀ {c : Char} {cs : List Char} {found : Lexeme},
      bracket? dialect.lexicon (c :: cs) = some found → c.toNat < 128 ∧ found.length = 1 := by
    intro c cs found hfound
    obtain ⟨d, ds, heq, hd⟩ := bracket?_eq_some hfound
    obtain rfl := (List.cons.inj heq).1
    rcases hd with ⟨rfl, rfl⟩ | ⟨rfl, rfl⟩ | ⟨-, rfl, rfl⟩ | ⟨-, rfl, rfl⟩ <;>
      exact ⟨by decide, rfl⟩
  have hblind : Blind fun c => bracket? dialect.lexicon [c] := by
    have hnone : ∀ c : Char, 128 ≤ c.toNat → bracket? dialect.lexicon [c] = none := by
      intro c hc
      by_contra hsome
      obtain ⟨found, hfound⟩ := Option.ne_none_iff_exists'.mp hsome
      have := (hbracket hfound).1
      omega
    exact fun c d hc hd => (hnone c hc).trans (hnone d hd).symm
  have hfirst : bracket? dialect.lexicon [first] = bracket? dialect.lexicon (c :: cs) :=
    h.blind hblind
  rw [Gives, bracket, hfirst]
  cases hfound : bracket? dialect.lexicon (c :: cs) with
  | none => rfl
  | some found =>
    obtain ⟨hascii, hlength⟩ := hbracket hfound
    have hoffset := offset_ascii_cons hascii cs 0
    rw [offset_zero] at hoffset
    rw [Option.map_some, inBytes, hlength, hoffset, ← hlength]
    rfl

theorem operator_eq {before : List Char} (h : rest.chars = bytesOf (c :: cs)) :
    operator (.ofList (before ++ c :: cs)) (byteLength before) rest =
      .ok (inBytes (c :: cs) (SqlFormat.Lexer.operator (c :: cs))) := by
  rw [operator, Scan.compoundOperator_eq, ok_bind, h, compoundOperator_bytesOf,
    SqlFormat.Lexer.operator]
  have hoffset := offset_compoundOperator (c :: cs)
  generalize compoundOperator (c :: cs) = n at hoffset ⊢
  split
  · next hpos =>
    rw [Nat.max_eq_right hpos, inBytes]
    simp only [Lexeme.plain, hoffset]
    rfl
  · next hzero =>
    rw [characterAt_append, ok_bind, Nat.max_eq_left (by omega)]
    rfl

/-! ## The token sequence -/

/-- **One cut**: the bytes give the lexeme of the text. -/
theorem lexeme_eq {before : List Char} (h : rest.chars = bytesOf (c :: cs)) :
    lexeme dialect.lexicon memory (.ofList (before ++ c :: cs)) (byteLength before) rest =
      .ok (inBytes (c :: cs) (SqlFormat.Lexer.lexeme dialect.lexicon memory (c :: cs))) := by
  obtain ⟨first, h'⟩ := exists_ahead h
  have hrules := (blanks_eq h').orElse <| (comment_eq dialect h').orElse <|
    (dollarString_eq dialect h').orElse <| (quotedString_eq dialect h').orElse <|
    (prefixedString_eq dialect h').orElse <| (word_eq dialect memory h').orElse <|
    (indexedPlaceholder_eq dialect memory h').orElse <| (namedPlaceholder_eq dialect h').orElse <|
    (sessionVariable_eq dialect h').orElse <| (number_eq memory h').orElse <| bracket_eq dialect h'
  rw [lexeme, Bytes.element_eq h'.first, ok_bind, hrules, ok_bind, SqlFormat.Lexer.lexeme]
  generalize (blanks? (c :: cs) <|> _ : Option Lexeme) = found
  cases found with
  | some found => rfl
  | none => exact operator_eq h

/-- What the lexer remembers is at hand after one more token. -/
theorem memory_push {progress : Progress} {memory : Memory} (h : progress.memory = .ok memory)
    (token : Token) : (progress.push token).memory = .ok (memory.after token) := by
  rw [Progress.memory] at h
  rw [Progress.memory, Progress.push]
  have hpositional : memory.positional = progress.positional := by
    cases hlast : progress.last.mapM (element progress.tokens) with
    | error fault => rw [hlast] at h; cases h
    | ok last => rw [hlast] at h; cases h; rfl
  by_cases hsignificant : token.kind.isSignificant = true
  · have hlast : element (progress.tokens.push token) progress.tokens.size = .ok token :=
      Checked.element_eq (Array.getElem?_push_size)
    simp only [hsignificant, if_true, Option.mapM_some, hlast, ok_map, ok_bind, pure_eq,
      Memory.after, hpositional]
  · -- the index that is kept is one of the tokens before, so it still finds the same token
    have hlast : progress.last.mapM (element (progress.tokens.push token)) = .ok memory.last := by
      cases hindex : progress.last with
      | none =>
        rw [hindex] at h
        cases h
        rfl
      | some i =>
        rw [hindex, Option.mapM_some] at h
        cases htoken : progress.tokens[i]? with
        | none =>
          rw [element, htoken] at h
          cases h
        | some last =>
          rw [Checked.element_eq htoken] at h
          cases h
          obtain ⟨hi, -⟩ := Array.getElem?_eq_some_iff.mp htoken
          rw [Option.mapM_some, Checked.element_eq (a := last)]
          · rfl
          · rw [Array.getElem?_push, if_neg (by omega), htoken]
    rw [Bool.not_eq_true] at hsignificant
    simp only [hsignificant, Bool.false_eq_true, if_false, hlast, ok_bind, pure_eq, Memory.after,
      hpositional]

/-- From a place between two characters on, the bytes are cut as the characters are. -/
theorem run_eq (dialect : Dialect) {memory : Memory} {pos : Nat} {before text : List Char}
    (hpos : pos = byteLength before) {progress : Progress}
    (hmemory : progress.memory = .ok memory) :
    run dialect.lexicon (.ofList (before ++ text)) (.ofString (.ofList (before ++ text))) progress
        pos =
      .ok (progress.tokens ++ (tokensFrom dialect.lexicon memory pos text).toArray) := by
  induction memory, pos, text using cut_induction dialect generalizing before progress with
  | nil memory pos =>
    rw [run, if_neg, tokensFrom_nil]
    · simp
    · rw [hpos, byteLength_eq, List.append_nil]
      exact Nat.lt_irrefl _
  | cut memory pos text found hne hr ih =>
    obtain ⟨c, cs, rfl⟩ := List.exists_cons_of_ne_nil hne
    have hbytes : (ofString (.ofList (before ++ c :: cs))).chars =
        bytesOf before ++ bytesOf (c :: cs) := by
      rw [chars_ofString, String.toList_ofList, bytesOf_append]
    have hlt : pos < (String.ofList (before ++ c :: cs)).utf8ByteSize := by
      rw [hpos, String.ofList_append, String.utf8ByteSize_append, ← byteLength_eq, ← byteLength_eq,
        byteLength]
      have := c.utf8Size_pos
      omega
    have hrest : ((ofString (.ofList (before ++ c :: cs))).drop pos).chars = bytesOf (c :: cs) := by
      rw [chars_drop, hbytes, hpos, ← length_bytesOf, List.drop_left]
    have hsince : pos ≤ (ofString (.ofList (before ++ c :: cs))).chars.length := by
      rw [hbytes, List.length_append, length_bytesOf, hpos]
      exact Nat.le_add_right _ _
    have hfound : SqlFormat.Lexer.lexeme dialect.lexicon memory (c :: cs) = found := hr.eq
    have hlexeme := @lexeme_eq dialect memory _ _ _ before hrest
    rw [hfound, ← hpos] at hlexeme
    have hpositive : 0 < offset (c :: cs) found.length := offset_pos hr.length_pos hne
    -- The cut takes the characters that the lexeme has.
    generalize htake : (c :: cs).take found.length = taken at ih
    generalize hdrop : (c :: cs).drop found.length = left at ih
    have hsplit : c :: cs = taken ++ left := by rw [← htake, ← hdrop, List.take_append_drop]
    have hoffset : offset (c :: cs) found.length = byteLength taken := by rw [offset, htake]
    have hboundary : isBoundary (.ofList (before ++ c :: cs)) (pos + byteLength taken) = true := by
      rw [hsplit, ← List.append_assoc, hpos, ← byteLength_append]
      exact isBoundary_append _ _
    have hpiece : substring (.ofList (before ++ c :: cs)) pos (pos + byteLength taken) =
        .ok (.ofList taken) := by
      rw [hsplit, hpos]
      exact substring_append before taken left
    have hnext := @ih (before ++ taken)
      (by rw [byteLength_append, hpos]) _ (memory_push hmemory (found.token (c :: cs) pos))
    rw [List.append_assoc, ← hsplit] at hnext
    have htoken : (⟨found.kind, .ofList taken, pos, found.key⟩ : Token) =
        found.token (c :: cs) pos := by
      rw [Lexeme.token, htake]
    rw [run, if_pos hlt, hmemory, ok_bind, since_eq hsince, ok_bind, hlexeme, ok_bind,
      inBytes, hoffset, if_pos ⟨hoffset ▸ hpositive, hboundary⟩, hpiece, ok_bind, htoken, hnext,
      tokensFrom_cons dialect memory pos hne hr, htake, hdrop, Progress.push]
    simp

/-- **The byte lexer**: it meets no fault, and its tokens are those of the lexer on characters. -/
theorem tokenize_eq (dialect : Dialect) (text : String) :
    Checked.tokenize dialect.lexicon text =
      .ok (SqlFormat.tokenize dialect.lexicon text).toArray := by
  have hstart : Progress.start.memory = .ok .start := rfl
  have h := @run_eq dialect .start 0 [] text.toList rfl .start hstart
  rw [List.nil_append, String.ofList_toList] at h
  rw [Checked.tokenize, h, SqlFormat.tokenize, Progress.start, Array.empty_append]

end SqlFormat.Checked.Lexer
