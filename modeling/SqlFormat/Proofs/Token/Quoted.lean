import Mathlib
import SqlFormat.Proofs.Token.Delimiter
import SqlFormat.Proofs.Token.Lossless

/-!
# Quoted literals

A quoted literal is an opening delimiter, some content, and a closing delimiter that does not stand there
twice. In the content a closing delimiter is doubled, and in the styles with escapes a backslash takes
the next character with it. A text starts with at most one literal of a style. The scan finds it, or
else takes the whole text.

The scan compares single characters with the delimiters, which are ASCII. So it may as well read the
bytes of a text, each as the character with its number: it stops at the same place.

Results: `stringBody_content`, `exists_content` (the end of a literal), `stringBody_bytesOf` (bytes),
`quoted_literals`.
-/

namespace SqlFormat

open Text

/-! ## Literals -/

namespace StringStyle

variable {style : StringStyle} {text content rest p q : List Char}

/-- What may stand between the delimiters of a literal, item by item. -/
inductive Content (style : StringStyle) : List Char → Prop
  | nil : Content style []
  /-- A character that means itself. -/
  | plain {c : Char} {cs : List Char} (hclosing : c ≠ style.closing)
      (hescape : style.backslash = true → c ≠ '\\') (rest : Content style cs) : Content style (c :: cs)
  /-- A closing delimiter, doubled. -/
  | doubled {cs : List Char} (rest : Content style cs) :
      Content style (style.closing :: style.closing :: cs)
  /-- Any character behind a backslash. -/
  | escaped {c : Char} {cs : List Char} (hescape : style.backslash = true) (rest : Content style cs) :
      Content style ('\\' :: c :: cs)

/-- The text starts with the literal `p`, and the closing delimiter does not stand behind it once
more. -/
def Closes (style : StringStyle) (text p : List Char) : Prop :=
  ∃ content rest, style.Content content ∧ p = style.opening :: (content ++ [style.closing]) ∧
    text = p ++ rest ∧ rest.head? ≠ some style.closing

/-- A character as it is written in a literal. -/
def protect (style : StringStyle) (c : Char) : List Char :=
  if c = style.closing ∨ style.backslash = true ∧ c = '\\' then [c, c] else [c]

/-- The literal with a content: closing delimiters are doubled, and backslashes escaped where they
would take something with them. -/
def quote (style : StringStyle) (content : List Char) : List Char :=
  style.opening :: (content.flatMap style.protect ++ [style.closing])

/-- Every text can be written as the content of a literal. -/
theorem content_protect (style : StringStyle) (cs : List Char) :
    style.Content (cs.flatMap style.protect) := by
  induction cs with
  | nil => exact .nil
  | cons c cs ih =>
    rw [List.flatMap_cons, protect]
    split_ifs with h
    · rcases h with rfl | ⟨hescape, rfl⟩
      · exact .doubled ih
      · exact .escaped hescape ih
    · rw [not_or, not_and] at h
      exact .plain h.1 h.2 ih

/-- What makes delimiters tell a literal from its text. -/
structure Regular (style : StringStyle) : Prop where
  closing : style.closing ≠ '\\'
  ascii : style.opening.toNat < 128 ∧ style.closing.toNat < 128

end StringStyle

theorem Dialect.strings_regular (dialect : Dialect) :
    ∀ style ∈ dialect.lexicon.strings, style.Regular := by
  have hall : ∀ style ∈ dialect.lexicon.strings,
      (style.closing != '\\' && style.opening.toNat < 128 && style.closing.toNat < 128) = true := by
    refine forall_mem_of_all ?_
    cases dialect <;> decide
  intro style hstyle
  have h := hall style hstyle
  simp only [Bool.and_eq_true, bne_iff_ne, decide_eq_true_eq] at h
  exact ⟨h.1.1, h.1.2, h.2⟩

/-- No two kinds of string of a dialect start alike. -/
theorem Dialect.stringStyle?_opening (dialect : Dialect) :
    ∀ style ∈ dialect.lexicon.strings, dialect.lexicon.stringStyle? style.opening = some style := by
  refine forall_mem_of_all ?_
  cases dialect <;> decide

namespace Scan

open StringStyle (Content)

variable {style : StringStyle} {text content rest p q : List Char}

/-! ## The end of a literal -/

/-- Characters that mean themselves are passed one by one. -/
theorem stringBody_plain (cs : List Char) {plain : List Char}
    (h : ∀ c ∈ plain, c ≠ style.closing ∧ (style.backslash = true → c ≠ '\\')) :
    stringBody style (plain ++ cs) = plain.length + stringBody style cs := by
  induction plain with
  | nil => simp
  | cons c plain ih =>
    obtain ⟨hclosing, hescape⟩ := h c (by simp)
    have hrest := ih fun d hd => h d (List.mem_cons_of_mem _ hd)
    rw [List.cons_append, List.length_cons]
    cases hcs : plain ++ cs with
    | nil =>
      obtain ⟨rfl, rfl⟩ := List.append_eq_nil_iff.mp hcs
      rfl
    | cons d ds =>
      rw [hcs] at hrest
      have hnot : ¬(style.backslash && c == '\\') = true := by simpa using hescape
      rw [stringBody, if_neg hnot, if_neg (by simpa using hclosing), hrest]
      omega

/-- The scan goes past the content of a literal and stops behind its closing delimiter. -/
theorem stringBody_content (hregular : style.Regular) (hcontent : style.Content content)
    (hrest : rest.head? ≠ some style.closing) :
    stringBody style (content ++ style.closing :: rest) = content.length + 1 := by
  have hclosing : (style.backslash && style.closing == '\\') = false := by
    simp [hregular.closing]
  induction hcontent with
  | nil =>
    rw [List.nil_append]
    cases rest with
    | nil => rfl
    | cons d ds =>
      have hd : ¬(d == style.closing) = true := by simpa using hrest
      rw [stringBody, hclosing, if_neg Bool.false_ne_true, if_pos (beq_self_eq_true _), if_neg hd]
      rfl
  | @plain c cs hc hescape _ ih =>
    rw [List.cons_append, List.length_cons]
    cases hcs : cs ++ style.closing :: rest with
    | nil => simp at hcs
    | cons d ds =>
      rw [hcs] at ih
      have hnot : ¬(style.backslash && c == '\\') = true := by simpa using hescape
      rw [stringBody, if_neg hnot, if_neg (by simpa using hc), ih]
      omega
  | doubled _ ih =>
    simp only [List.cons_append, List.length_cons]
    rw [stringBody, hclosing, if_neg Bool.false_ne_true, if_pos (beq_self_eq_true _),
      if_pos (beq_self_eq_true _), ih]
    omega
  | escaped hescape _ ih =>
    simp only [List.cons_append, List.length_cons]
    rw [stringBody, if_pos (by simp [hescape]), ih]
    omega

/-- Where the scan does not take the whole text, it stops behind a literal. -/
theorem exists_content (style : StringStyle) (cs : List Char) :
    stringBody style cs = cs.length ∨ ∃ content rest, style.Content content ∧
      cs = content ++ style.closing :: rest ∧ rest.head? ≠ some style.closing := by
  fun_induction stringBody style cs with
  | case1 => exact .inl rfl
  | case2 => exact .inl rfl
  | case3 c d cs hescape ih =>
    obtain ⟨hbackslash, rfl⟩ : style.backslash = true ∧ c = '\\' := by simpa using hescape
    rcases ih with hall | ⟨content, rest, hcontent, rfl, hrest⟩
    · left
      simp only [List.length_cons]
      omega
    · exact .inr ⟨'\\' :: d :: content, rest, .escaped hbackslash hcontent, rfl, hrest⟩
  | case4 c d cs _ hc hd ih =>
    obtain rfl : c = style.closing := by simpa using hc
    obtain rfl : d = style.closing := by simpa using hd
    rcases ih with hall | ⟨content, rest, hcontent, rfl, hrest⟩
    · left
      simp only [List.length_cons]
      omega
    · exact .inr ⟨_, rest, .doubled hcontent, rfl, hrest⟩
  | case5 c d cs _ hc hd =>
    obtain rfl : c = style.closing := by simpa using hc
    exact .inr ⟨[], d :: cs, .nil, rfl, by simpa using hd⟩
  | case6 c d cs hescape hc ih =>
    rcases ih with hall | ⟨content, rest, hcontent, heq, hrest⟩
    · left
      rw [hall]
      simp only [List.length_cons]
      omega
    · refine .inr ⟨c :: content, rest, .plain (by simpa using hc) ?_ hcontent, ?_, hrest⟩
      · simpa using hescape
      · rw [heq, List.cons_append]

/-- The scan takes the literal that a text starts with. -/
theorem string_of_closes (hregular : style.Regular) (h : style.Closes text p) :
    string style text = p.length := by
  obtain ⟨content, rest, hcontent, rfl, rfl, hrest⟩ := h
  have hbody := stringBody_content hregular hcontent hrest
  rw [string, List.cons_append, List.drop_one, List.tail_cons, List.append_assoc,
    List.singleton_append, hbody]
  simp only [List.length_cons, List.length_append, List.length_nil]
  omega

/-- A text starts with one literal of a style at most. -/
theorem closes_unique (hregular : style.Regular) (h : style.Closes text p)
    (h' : style.Closes text q) : q = p := by
  have hlength := (string_of_closes hregular h').symm.trans (string_of_closes hregular h)
  obtain ⟨_, rest, -, -, htext, -⟩ := h
  obtain ⟨_, rest', -, -, htext', -⟩ := h'
  rw [htext] at htext'
  exact (List.append_inj htext'.symm hlength).1

/-- The scan takes the whole of a text that starts with no literal. -/
theorem string_of_open (hopening : text.head? = some style.opening)
    (hopen : ∀ p, ¬style.Closes text p) : string style text = text.length := by
  obtain ⟨body, rfl⟩ : ∃ body, text = style.opening :: body := by
    cases text with
    | nil => cases hopening
    | cons c body => exact ⟨body, by rw [Option.some.inj hopening]⟩
  rcases exists_content style body with hall | ⟨content, rest, hcontent, rfl, hrest⟩
  · rw [string, List.drop_one, List.tail_cons, hall, List.length_cons, Nat.add_comm]
  · refine absurd ⟨content, rest, hcontent, rfl, ?_, hrest⟩ (hopen _)
    simp

/-! ## Bytes -/

/-- The bytes of a text, each as the character with its number. -/
def bytesOf (text : List Char) : List Char :=
  (text.flatMap String.utf8EncodeChar).map UInt8.toChar

theorem bytesOf_cons (c : Char) (text : List Char) :
    bytesOf (c :: text) = bytesOf [c] ++ bytesOf text := by
  simp [bytesOf]

/-- An ASCII character is its byte. -/
theorem bytesOf_ascii {c : Char} (h : c.toNat < 128) : bytesOf [c] = [c] := by
  have hsmall : c.val.toNat ≤ 127 := by
    change c.toNat ≤ 127
    omega
  have hbyte : (UInt8.ofNat c.val.toNat).toChar = c := by
    apply Char.ext
    apply UInt32.toNat_inj.mp
    change (UInt8.ofNat c.val.toNat).toNat = c.val.toNat
    rw [UInt8.toNat_ofNat']
    omega
  simp only [bytesOf, List.flatMap_cons, List.flatMap_nil, List.append_nil, String.utf8EncodeChar]
  rw [if_pos hsmall, List.map_singleton, hbyte]

/-- The bytes of any other character are not ASCII. -/
theorem le_of_mem_bytesOf {c : Char} (h : 128 ≤ c.toNat) : ∀ b ∈ bytesOf [c], 128 ≤ b.toNat := by
  have hbyte : ∀ n : Nat, 128 ≤ n → n < 256 → 128 ≤ (UInt8.ofNat n).toChar.toNat := by
    intro n hn hlt
    change 128 ≤ (UInt8.ofNat n).toNat
    rw [UInt8.toNat_ofNat']
    omega
  have hlarge : ¬c.val.toNat ≤ 127 := by
    change ¬c.toNat ≤ 127
    omega
  simp only [bytesOf, List.flatMap_cons, List.flatMap_nil, List.append_nil, String.utf8EncodeChar]
  rw [if_neg hlarge]
  intro b hb
  split_ifs at hb
  all_goals
    simp only [List.map_cons, List.map_nil, List.mem_cons, List.not_mem_nil, or_false] at hb
    rcases hb with rfl | rfl | rfl | rfl <;> exact hbyte _ (by omega) (by omega)

theorem length_bytesOf (text : List Char) : (bytesOf text).length = byteLength text := by
  induction text with
  | nil => rfl
  | cons c text ih =>
    rw [bytesOf_cons, List.length_append, ih, byteLength]
    simp [bytesOf, String.length_utf8EncodeChar]

/-- An ASCII character is found among the bytes of no other character. -/
theorem ne_of_mem_bytesOf {a b c : Char} (ha : a.toNat < 128) (hne : c ≠ a) (hb : b ∈ bytesOf [c]) :
    b ≠ a := by
  rcases Nat.lt_or_ge c.toNat 128 with hascii | hlarge
  · rw [bytesOf_ascii hascii] at hb
    rwa [List.mem_singleton.mp hb]
  · rintro rfl
    exact absurd (le_of_mem_bytesOf hlarge b hb) (Nat.not_le.mpr ha)

/-- Bytes of a character outside ASCII mean themselves. -/
theorem plain_bytesOf (hregular : style.Regular) {c : Char} (hlarge : 128 ≤ c.toNat) :
    ∀ b ∈ bytesOf [c], b ≠ style.closing ∧ (style.backslash = true → b ≠ '\\') := by
  have hne : ∀ a : Char, a.toNat < 128 → c ≠ a := by
    rintro _ ha rfl
    exact absurd hlarge (Nat.not_le.mpr ha)
  have hclosing := hregular.ascii.2
  have hescape : ('\\' : Char).toNat < 128 := by decide
  exact fun b hb => ⟨ne_of_mem_bytesOf hclosing (hne _ hclosing) hb,
    fun _ => ne_of_mem_bytesOf hescape (hne _ hescape) hb⟩

/-- Bytes behind the first one of a character mean themselves. -/
theorem exists_bytesOf (hregular : style.Regular) (c : Char) :
    ∃ b bs, bytesOf [c] = b :: bs ∧
      ∀ x ∈ bs, x ≠ style.closing ∧ (style.backslash = true → x ≠ '\\') := by
  rcases Nat.lt_or_ge c.toNat 128 with hascii | hlarge
  · exact ⟨c, [], bytesOf_ascii hascii, by simp⟩
  · have hpos : 0 < (bytesOf [c]).length := by
      rw [length_bytesOf]
      exact c.utf8Size_pos
    obtain ⟨b, bs, hbytes⟩ := List.exists_cons_of_length_pos hpos
    refine ⟨b, bs, hbytes, fun x hx => plain_bytesOf hregular hlarge x ?_⟩
    exact hbytes ▸ List.mem_cons_of_mem b hx

/-- A character that means itself is passed with all its bytes. -/
theorem stringBody_char (hregular : style.Regular) {c : Char} (cs : List Char)
    (hclosing : c ≠ style.closing) (hescape : style.backslash = true → c ≠ '\\') :
    stringBody style (bytesOf [c] ++ cs) = c.utf8Size + stringBody style cs := by
  have hplain : ∀ b ∈ bytesOf [c], b ≠ style.closing ∧ (style.backslash = true → b ≠ '\\') :=
    fun b hb => ⟨ne_of_mem_bytesOf hregular.ascii.2 hclosing hb,
      fun hbackslash => ne_of_mem_bytesOf (by decide) (hescape hbackslash) hb⟩
  rw [stringBody_plain cs hplain, length_bytesOf]
  rfl

/-- **Scanning bytes**: the scan of the bytes of a text stops at the byte at which the scan of its
characters stops. -/
theorem stringBody_bytesOf (hregular : style.Regular) (text : List Char) :
    stringBody style (bytesOf text) = byteLength (text.take (stringBody style text)) := by
  have hclosing : bytesOf [style.closing] = [style.closing] := bytesOf_ascii hregular.ascii.2
  have hsize : style.closing.utf8Size = 1 := by
    have h := length_bytesOf [style.closing]
    rw [hclosing] at h
    exact h.symm
  fun_induction stringBody style text with
  | case1 => rfl
  | case2 c =>
    change stringBody style (bytesOf [c]) = byteLength [c]
    rw [← length_bytesOf]
    rcases Nat.lt_or_ge c.toNat 128 with hascii | hlarge
    · rw [bytesOf_ascii hascii]
      rfl
    · have h := stringBody_plain [] (plain_bytesOf hregular hlarge)
      rwa [List.append_nil] at h
  | case3 c d cs h ih =>
    obtain ⟨hbackslash, rfl⟩ : style.backslash = true ∧ c = '\\' := by simpa using h
    obtain ⟨b, bs, hbytes, hplain⟩ := exists_bytesOf hregular d
    have hlength : 1 + bs.length = d.utf8Size := by
      have h := length_bytesOf [d]
      rw [hbytes, List.length_cons] at h
      rw [Nat.add_comm]
      exact h
    have htext : bytesOf ('\\' :: d :: cs) = '\\' :: b :: (bs ++ bytesOf cs) := by
      rw [bytesOf_cons, bytesOf_cons d, hbytes]
      rfl
    rw [htext, stringBody, if_pos h, stringBody_plain _ hplain, ih,
      Nat.add_comm 2 (stringBody style cs)]
    change 2 + (bs.length + _) = 1 + (d.utf8Size + _)
    omega
  | case4 c d cs h hc hd ih =>
    obtain rfl : c = style.closing := by simpa using hc
    obtain rfl : d = style.closing := by simpa using hd
    rw [bytesOf_cons, bytesOf_cons style.closing cs, hclosing, List.singleton_append,
      List.singleton_append, stringBody, if_neg h, if_pos hc, if_pos hd, ih,
      Nat.add_comm 2 (stringBody style cs)]
    change 2 + _ = style.closing.utf8Size + (style.closing.utf8Size + _)
    omega
  | case5 c d cs h hc hd =>
    obtain rfl : c = style.closing := by simpa using hc
    obtain ⟨b, bs, hbytes, -⟩ := exists_bytesOf hregular d
    have hb : ¬(b == style.closing) = true := by
      have hmem : b ∈ bytesOf [d] := hbytes ▸ List.mem_cons_self
      simpa using ne_of_mem_bytesOf hregular.ascii.2 (by simpa using hd) hmem
    rw [bytesOf_cons, bytesOf_cons d cs, hclosing, hbytes, List.singleton_append, List.cons_append,
      stringBody, if_neg h, if_pos hc, if_neg hb]
    exact hsize.symm
  | case6 c d cs h hc ih =>
    rw [bytesOf_cons, stringBody_char hregular _ (by simpa using hc) (by simpa using h), ih,
      Nat.add_comm 1 (stringBody style (d :: cs))]
    rfl

/-- The scan of the bytes of a literal stops where its last character ends. -/
theorem string_bytesOf (hregular : style.Regular) (hopening : text.head? = some style.opening) :
    string style (bytesOf text) = byteLength (text.take (string style text)) := by
  obtain ⟨body, rfl⟩ : ∃ body, text = style.opening :: body := by
    cases text with
    | nil => cases hopening
    | cons c body => exact ⟨body, by rw [Option.some.inj hopening]⟩
  have hbytes : bytesOf [style.opening] = [style.opening] := bytesOf_ascii hregular.ascii.1
  have hsize : style.opening.utf8Size = 1 := by
    have h := length_bytesOf [style.opening]
    rw [hbytes] at h
    exact h.symm
  have hbody := stringBody_bytesOf hregular body
  rw [bytesOf_cons, hbytes, string, string, List.singleton_append, List.drop_one, List.drop_one,
    List.tail_cons, List.tail_cons, hbody, Nat.add_comm 1 (stringBody style body), List.take_succ_cons]
  change 1 + _ = style.opening.utf8Size + _
  rw [hsize]

end Scan

/-! ## The token of a literal -/

namespace Lexer

variable {style : StringStyle} {text : List Char}

/-- The text ahead is read as a literal where it starts with its opening delimiter. -/
theorem reads_quoted {dialect : Dialect} (hstyle : style ∈ dialect.lexicon.strings)
    (hopening : text.head? = some style.opening) (memory : Memory) :
    Reads dialect.lexicon memory text (.plain .string (Scan.string style text)) := by
  obtain ⟨c, cs, rfl⟩ : ∃ c cs, text = c :: cs := by
    cases text with
    | nil => cases hopening
    | cons c cs => exact ⟨c, cs, rfl⟩
  obtain rfl : c = style.opening := Option.some.inj hopening
  have hopenings : ∀ c ∈ ['\x27', '\x22', '\x60', '['],
      isBlank c = false ∧ c ∉ ['-', '#', '/'] ∧ c ≠ '$' := forall_mem_of_all (by decide)
  obtain ⟨hblank, hcomment, hdollar⟩ :=
    hopenings style.opening (dialect.delimits.opening style hstyle)
  refine .quoted (blanks?_eq_none.mpr (by simp [hblank])) (comment?_none_of_head hcomment)
    (dollarString?_none_of_head hdollar) ?_
  rw [quotedString?, List.head?_cons, Option.bind_eq_bind, Option.bind_some,
    dialect.stringStyle?_opening style hstyle]
  rfl

end Lexer

/-- **Quoted literals**: the scan takes the one literal that a text starts with, or the whole text if it
starts with none, and it stops at the same place in the bytes of the text. So a content written as a
literal is one token of the text that starts with it. -/
theorem quoted_literals (dialect : Dialect) {style : StringStyle}
    (hstyle : style ∈ dialect.lexicon.strings) :
    (∀ text : List Char, text.head? = some style.opening →
      (∀ p, style.Closes text p →
        Scan.string style text = p.length ∧ ∀ q, style.Closes text q → q = p) ∧
      ((∀ p, ¬style.Closes text p) → Scan.string style text = text.length) ∧
      Scan.string style (Scan.bytesOf text) = byteLength (text.take (Scan.string style text))) ∧
    ∀ content rest : List Char, rest.head? ≠ some style.closing →
      let token := Token.plain .string (String.ofList (style.quote content)) 0
      tokenize dialect.lexicon (String.ofList (style.quote content ++ rest)) =
        token :: Lexer.tokensFrom dialect.lexicon (Lexer.Memory.start.after token)
          (byteLength (style.quote content)) rest := by
  have hregular := dialect.strings_regular style hstyle
  refine ⟨fun text hopening => ⟨fun p hp => ?_, Scan.string_of_open hopening,
    Scan.string_bytesOf hregular hopening⟩, fun content rest hrest => ?_⟩
  · exact ⟨Scan.string_of_closes hregular hp, fun q => Scan.closes_unique hregular hp⟩
  · have hcloses : style.Closes (style.quote content ++ rest) (style.quote content) :=
      ⟨_, rest, style.content_protect content, rfl, rfl, hrest⟩
    have hlength := Scan.string_of_closes hregular hcloses
    have hhead : (style.quote content ++ rest).head? = some style.opening := rfl
    have hreads := Lexer.reads_quoted hstyle hhead .start
    rw [hlength] at hreads
    exact Lexer.tokenize_of_reads dialect (List.cons_ne_nil _ _) hreads

/-- A content with a quote, a comment and a backslash, before an open comment. -/
theorem quoted_literals_escaped :
    let style := StringStyle.escaped '\x27'
    style ∈ Dialect.mysql.lexicon.strings ∧
      (tokenize Dialect.mysql.lexicon
        (String.ofList (style.quote "a\x27; -- \\".toList ++ " /*".toList))).head? =
          some (.plain .string "\x27a\x27\x27; -- \\\\\x27" 0) := by
  intro style
  have hstyle : style ∈ Dialect.mysql.lexicon.strings := by decide
  have htoken := (quoted_literals .mysql hstyle).2 "a\x27; -- \\".toList " /*".toList
    (by decide)
  have hquote : String.ofList (style.quote "a\x27; -- \\".toList) =
      "\x27a\x27\x27; -- \\\\\x27" := by
    decide
  refine ⟨hstyle, ?_⟩
  rw [htoken, List.head?_cons, hquote]

end SqlFormat
