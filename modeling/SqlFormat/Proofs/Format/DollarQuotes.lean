import Mathlib
import SqlFormat.Proofs.Format.Fit

/-!
# Dollar-quoted strings

A dollar-quoted string starts with a tag and goes on to the next place where the tag stands again,
whatever lies in between: other tags, quotes, comments, semicolons or line feeds. It is one token, and
layout writes it as it is.

Results: `through_of_first` (the end of the string), `reads_dollar` (its token),
`infix_format_of_string` (its place in the output), `dollar_quotes_verbatim`.
-/

namespace SqlFormat

open Text Layout Lexer

/-- A name that may stand between the dollar signs of a tag. It may be empty. -/
structure IsTagName (name : List Char) : Prop where
  chars : ∀ c ∈ name, (c.isAlphanum || c == '_') = true
  start : name.head?.any Char.isDigit = false

/-- The tag with a name. -/
def dollarTag (name : List Char) : List Char :=
  '$' :: name ++ ['$']

/-- In the body followed by the tag, the tag stands nowhere before the end of the body. -/
def ClosedBy (tag body : List Char) : Prop :=
  ∀ n < body.length, ¬tag <+: (body ++ tag).drop n

instance (tag body : List Char) : Decidable (ClosedBy tag body) :=
  inferInstanceAs (Decidable (∀ n < body.length, ¬tag <+: (body ++ tag).drop n))

variable {name tag body rest : List Char}

/-! ## The end of a string -/

namespace Scan

/-- A tag is read whatever follows it. -/
theorem dollarTag?_dollarTag (h : IsTagName name) (rest : List Char) :
    dollarTag? (dollarTag name ++ rest) = some (dollarTag name) := by
  have hstop : ('$' :: rest).head?.any (fun c : Char => c.isAlphanum || c == '_') = false := by
    simp [Char.isAlphanum, Char.isAlpha, Char.isDigit]
  simp only [dollarTag, List.cons_append, List.append_assoc, List.nil_append, dollarTag?]
  rw [takeWhile_append_stop name hstop, List.takeWhile_eq_self_iff.mpr h.chars, List.drop_left' rfl,
    h.start]
  rfl

/-- A pattern that stands at the end of a text only is found there. -/
theorem through_of_first (htag : tag ≠ []) (hclosed : ClosedBy tag body) (rest : List Char) :
    through tag (body ++ tag ++ rest) = (body ++ tag).length := by
  induction body with
  | nil =>
    obtain ⟨c, cs, rfl⟩ := List.exists_cons_of_ne_nil htag
    have hpre : (c :: cs).isPrefixOf (c :: (cs ++ rest)) = true :=
      List.isPrefixOf_iff_prefix.mpr (List.prefix_append (c :: cs) rest)
    rw [List.nil_append, List.cons_append, through, if_pos hpre]
  | cons c body ih =>
    have hpre : ¬tag.isPrefixOf (c :: (body ++ tag ++ rest)) = true := by
      intro hpre
      have hprefix : tag <+: c :: body ++ tag :=
        List.prefix_of_prefix_length_le (List.isPrefixOf_iff_prefix.mp hpre)
          (List.prefix_append (c :: body ++ tag) rest) (by simp; omega)
      exact hclosed 0 (Nat.succ_pos _) hprefix
    have hrest : ClosedBy tag body :=
      fun n hn => hclosed (n + 1) (Nat.succ_lt_succ hn)
    rw [List.cons_append, List.cons_append, through, if_neg hpre, ih hrest, List.length_cons,
      Nat.add_comm]

theorem dollarString?_closed (h : IsTagName name) (hclosed : ClosedBy (dollarTag name) body)
    (rest : List Char) :
    dollarString? (dollarTag name ++ body ++ dollarTag name ++ rest) =
      some (dollarTag name ++ body ++ dollarTag name).length := by
  have hthrough := through_of_first (by simp [dollarTag]) hclosed rest
  rw [dollarString?, List.append_assoc, List.append_assoc, dollarTag?_dollarTag h, Option.map_some,
    List.drop_left' rfl, ← List.append_assoc, hthrough, ← List.length_append, ← List.append_assoc]

theorem dollarString?_open (h : IsTagName name) (hopen : ¬dollarTag name <:+: body) :
    dollarString? (dollarTag name ++ body) = some (dollarTag name ++ body).length := by
  rw [dollarString?, dollarTag?_dollarTag h, Option.map_some, List.drop_left' rfl,
    through_unclosed hopen, List.length_append]

end Scan

/-! ## The token of a string -/

/-- The text ahead is read as a dollar-quoted string where it starts with one. -/
theorem Lexer.reads_dollar {n : Nat} (h : Scan.dollarString? (dollarTag name ++ rest) = some n)
    (memory : Memory) :
    Reads Dialect.postgresql.lexicon memory (dollarTag name ++ rest) (.plain .string n) := by
  refine .dollar (blanks?_eq_none.mpr rfl) (comment?_none_of_head (by decide)) ?_
  have hquotes : Dialect.postgresql.lexicon.dollarQuotes = true := rfl
  rw [Lexer.dollarString?, if_pos hquotes, h]
  rfl

/-! ## The place of a string in the output -/

/-- Where nothing is lined up, substituted or coloured, a string that does not end with white space stands
in the output as it is. -/
theorem infix_format_of_string (dialect : Dialect) {style : Style} (text : String)
    (halign : style.alignColumns = false ∧ style.alignAssignments = false ∧
      style.alignValues = false)
    (hparams : style.params.isEmpty = true) (hcolor : style.color ≠ .always) :
    ∃ out, format? dialect style text = some out ∧ ∀ t ∈ tokenize dialect.lexicon text,
      t.kind = .string → (∃ c ∈ t.text.toList.getLast?, isWhite c = false) →
        t.text.toList <:+: out.toList := by
  have hplain : (style.context dialect).decorate = fun _ text => text := style.decoration_eq hcolor
  have hunaligned := Style.eq_unaligned halign
  have hformat : format? dialect style text =
      layout? (style.context dialect) (tokenize dialect.lexicon text) := by
    rw [format?_eq_layout?, map_substitute_of_isEmpty hparams]
    rfl
  obtain ⟨out, hout⟩ : ∃ out, layout? (style.context dialect) (tokenize dialect.lexicon text) =
      some out := by
    obtain ⟨out, hout, -⟩ := exists_layout_prefix (style.context dialect) (k := 0) hunaligned
      List.nil_prefix rfl
    exact ⟨out, hout⟩
  refine ⟨out, hformat.trans hout, ?_⟩
  rintro t ht hkind ⟨c, hc, hvisible⟩
  -- the string is written when its item is laid out, and what is written stays
  obtain ⟨item, hitem, rfl⟩ : ∃ item ∈ Item.ofTokens (tokenize dialect.lexicon text),
      item.token = t := by
    rw [← List.mem_map, Item.map_token_ofTokens]
    exact List.mem_filter.mpr ⟨ht, by simp [hkind]⟩
  obtain ⟨k, hk⟩ := List.mem_iff_getElem?.mp hitem
  have hne : item.token.text ≠ "" := by
    intro hempty
    rw [hempty] at hc
    cases hc
  have hsuffix := suffix_upTo_stateAt_succ hplain hk (by rw [hkind]; rfl)
    (by simp [Token.isKeyword, hkind, TokenKind.isReserved]) hne style.indent
  have htrimmed : Trimmed ((stateAt (style.context dialect)
      (Item.ofTokens (tokenize dialect.lexicon text)) (k + 1)).page.upTo style.indent) := by
    obtain ⟨front, hfront⟩ := hsuffix
    rw [← hfront]
    refine trimmed_of_getLast? (c := c) ?_ hvisible
    rw [List.getLast?_append, Option.mem_def.mp hc]
    rfl
  obtain ⟨out', hout', hprefix⟩ := exists_layout_prefix (style.context dialect) hunaligned
    List.prefix_rfl htrimmed
  obtain rfl : out = out' := Option.some.inj (hout.symm.trans hout')
  exact hsuffix.isInfix.trans hprefix.isInfix

/-- **Dollar-quoted strings stay as they are**: the string that a text starts with is one token up to the next
place where its tag stands again, or the whole text if there is none, and every such string with a closing
tag stands in the formatted text as it is. -/
theorem dollar_quotes_verbatim :
    (∀ name : List Char, IsTagName name → ∀ body : List Char,
      (ClosedBy (dollarTag name) body → ∀ rest : List Char,
        let token := Token.plain .string
          (String.ofList (dollarTag name ++ body ++ dollarTag name)) 0
        tokenize Dialect.postgresql.lexicon
            (String.ofList (dollarTag name ++ body ++ dollarTag name ++ rest)) =
          token :: tokensFrom Dialect.postgresql.lexicon (Memory.start.after token)
            (byteLength (dollarTag name ++ body ++ dollarTag name)) rest) ∧
      (¬dollarTag name <:+: body →
        tokenize Dialect.postgresql.lexicon (String.ofList (dollarTag name ++ body)) =
          [.plain .string (String.ofList (dollarTag name ++ body)) 0])) ∧
    ∀ (style : Style) (text : String), style.alignColumns = false ∧
        style.alignAssignments = false ∧ style.alignValues = false →
      style.params.isEmpty = true → style.color ≠ .always →
      ∃ out, format? .postgresql style text = some out ∧
        ∀ t ∈ tokenize Dialect.postgresql.lexicon text, t.kind = .string →
          (∃ name body, IsTagName name ∧
            t.text.toList = dollarTag name ++ body ++ dollarTag name) →
          t.text.toList <:+: out.toList := by
  refine ⟨fun name hname body => ⟨fun hclosed rest => ?_, fun hopen => ?_⟩,
    fun style text halign hparams hcolor => ?_⟩
  · have hlength := Scan.dollarString?_closed hname hclosed rest
    rw [List.append_assoc, List.append_assoc] at hlength
    have hreads := reads_dollar hlength .start
    rw [← List.append_assoc, ← List.append_assoc] at hreads
    exact tokenize_of_reads .postgresql (by simp [dollarTag]) hreads
  · have hreads : Reads Dialect.postgresql.lexicon .start (dollarTag name ++ body ++ [])
        (.plain .string (dollarTag name ++ body).length) := by
      rw [List.append_nil]
      exact reads_dollar (Scan.dollarString?_open hname hopen) .start
    have htokens := tokenize_of_reads .postgresql (by simp [dollarTag]) hreads
    rw [List.append_nil] at htokens
    exact htokens.trans (by rw [tokensFrom_nil])
  · obtain ⟨out, hout, hinfix⟩ := infix_format_of_string .postgresql text halign hparams hcolor
    refine ⟨out, hout, ?_⟩
    rintro t ht hkind ⟨name, body, -, htext⟩
    refine hinfix t ht hkind ⟨'$', ?_, by decide⟩
    rw [htext, dollarTag, ← List.append_assoc, List.getLast?_concat]
    rfl

/-- A body with another tag, a quote, a semicolon and a line with blanks at its end. -/
theorem dollar_quotes_verbatim_function :
    let body := "a; $$ \x27 \n".toList
    let literal := dollarTag ['f'] ++ body ++ dollarTag ['f']
    (tokenize Dialect.postgresql.lexicon (String.ofList (literal ++ ['$', '1']))).head? =
        some (.plain .string (String.ofList literal) 0) ∧
      ∃ out, format? .postgresql .standard (String.ofList literal) = some out ∧
        literal <:+: out.toList := by
  intro body literal
  have hname : IsTagName ['f'] := ⟨forall_mem_of_all (by decide), by decide⟩
  have htokens := (dollar_quotes_verbatim.1 ['f'] hname body).1 (by decide +kernel)
  obtain ⟨out, hout, hinfix⟩ := dollar_quotes_verbatim.2 .standard (String.ofList literal) (by decide)
    (by decide) (by decide)
  refine ⟨by rw [htokens ['$', '1']]; rfl, out, hout, ?_⟩
  have hmem : Token.plain .string (String.ofList literal) 0 ∈
      tokenize Dialect.postgresql.lexicon (String.ofList literal) := by
    have hwhole := htokens []
    rw [List.append_nil] at hwhole
    rw [hwhole]
    exact List.mem_cons_self
  have hliteral := hinfix _ hmem rfl ⟨['f'], body, hname, String.toList_ofList⟩
  rwa [Token.plain, String.toList_ofList] at hliteral

end SqlFormat
