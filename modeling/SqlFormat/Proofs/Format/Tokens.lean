import Mathlib
import SqlFormat.Proofs.Checked.Format
import SqlFormat.Proofs.Layout.Items
import SqlFormat.Proofs.Token.Correspond
import SqlFormat.Settings

/-!
# Formatting keeps the tokens

A formatted text spells out the tokens of its source, so it is cut into the same tokens again.

Results: `exists_spelling` (the spelling that a formatted text is), `format_keeps_tokens`.
-/

namespace SqlFormat

open Text Lexer Layout

/-- A style that only lays text out: nothing is lined up, coloured or substituted, and lines are
indented with spaces and tabs. -/
structure Style.Plain (style : Style) : Prop where
  columns : style.alignColumns = false
  assignments : style.alignAssignments = false
  values : style.alignValues = false
  color : style.color = .never
  params : style.params.isEmpty = true
  indent : ∀ c ∈ style.indent.toList, c = ' ' ∨ c = '\t'

theorem Style.standard_plain : Style.standard.Plain := by
  refine ⟨rfl, rfl, rfl, rfl, rfl, ?_⟩
  simp [Style.standard]

/-! ## The parts of a style -/

/-- Without parameters every token stays as it is. -/
theorem Parameters.substitute_of_isEmpty {params : Parameters} (h : params.isEmpty = true)
    (token : Token) : params.substitute token = token := by
  have hnone : ∀ key, params.lookup? key = none := by
    intro key
    cases params with
    | positional values =>
      obtain rfl : values = [] := by simpa [Parameters.isEmpty] using h
      cases key with
      | index i => cases i <;> rfl
      | name s => rfl
    | named values =>
      obtain rfl : values = [] := by simpa [Parameters.isEmpty] using h
      cases key <;> rfl
  unfold Parameters.substitute
  cases token.key with
  | none => simp
  | some key => simp [hnone key]

theorem Style.decoration_never {style : Style} (h : style.color = .never) (kind : TokenKind)
    (text : String) : style.decoration kind text = text := by
  rw [Style.decoration, h]

/-- What formatting in a dialect and a style looks at. -/
def Style.context (style : Style) (dialect : Dialect) : Context :=
  ⟨style, dialect, style.decoration⟩

theorem Style.context_plain {style : Style} (hcolor : style.color = .never)
    (hindent : ∀ c ∈ style.indent.toList, c = ' ' ∨ c = '\t') (dialect : Dialect) :
    (style.context dialect).Plain where
  decorate := style.decoration_never hcolor
  indent c hc := by
    rcases hindent c hc with rfl | rfl <;> decide

theorem map_substitute_of_isEmpty {params : Parameters} (h : params.isEmpty = true)
    (tokens : List Token) : tokens.map params.substitute = tokens := by
  conv_rhs => rw [← List.map_id tokens]
  exact List.map_congr_left fun t _ => params.substitute_of_isEmpty h t

theorem format?_eq {style : Style} (h : style.params.isEmpty = true) (dialect : Dialect)
    (text : String) : format? dialect style text =
      (Alignment.alignAll? style (linesOf (style.context dialect)
        (tokenize dialect.lexicon text))).map (render style.indent) := by
  rw [format?_eq_layout?, map_substitute_of_isEmpty h]
  rfl

theorem Alignment.alignAll?_plain {style : Style} (h : style.Plain) (lines : List Line) :
    Layout.Alignment.alignAll? style lines = some lines := by
  simp [Layout.Alignment.alignAll?, h.columns, h.assignments, h.values]

/-! ## The spelling of a text -/

/-- No token ends with white space other than blanks. -/
def EndsBlank (dialect : Dialect) (text : String) : Prop :=
  ∀ t ∈ tokenize dialect.lexicon text, ∀ c ∈ t.text.toList.getLast?,
    isWhite c = true → isBlank c = true

theorem endsBlank_of_forall {text : String}
    (h : ∀ c ∈ text.toList, isWhite c = true → isBlank c = true) (dialect : Dialect) :
    EndsBlank dialect text := by
  intro t ht c hc hw
  refine h c ?_ hw
  rw [← flatMap_text dialect .start 0 text.toList, List.mem_flatMap]
  exact ⟨t, ht, List.mem_of_getLast? hc⟩

/-- The pieces that layout makes of a text. -/
structure Spells (ctx : Context) (text : String) (ps : List Piece) : Prop where
  trace : Trace ctx .start (Item.ofTokens (tokenize ctx.dialect.lexicon text)) ps
  shows : Shows ctx (State.start.run ctx (Item.ofTokens (tokenize ctx.dialect.lexicon text))) ps
  good : ∀ p ∈ ps, GoodPiece ctx p
  tokens : ps.map (·.token) = Equivalence.significant ctx.dialect.lexicon text

/-- Every text is laid out in pieces. -/
theorem exists_spelling {ctx : Context} (hplain : ctx.Plain) {text : String}
    (hends : EndsBlank ctx.dialect text) : ∃ ps, Spells ctx text ps := by
  have hregular : ∀ t ∈ tokenize ctx.dialect.lexicon text, t.Regular ctx.dialect :=
    fun t ht => ⟨sound_of_mem ctx.dialect .start 0 text.toList t ht, hends t ht⟩
  obtain ⟨ps, htrace⟩ := exists_trace ctx .start (Item.ofTokens (tokenize ctx.dialect.lexicon text))
  have hsound := Item.sound_ofTokens hregular
  have htokens := htrace.tokens
  rw [Item.map_token_ofTokens] at htokens
  have hshows := htrace.shows hplain (shows_start ctx) hsound
    (fun item hitem => by
      have := hsound item (List.mem_of_head? hitem)
      exact ⟨this.regular, this.kind, by simp, this.endsLine, by simp⟩)
    (Item.isChain_ofTokens (isChain_adjacent ctx.dialect .start 0 text.toList))
  rw [List.nil_append] at hshows
  refine ⟨ps, htrace, hshows, fun p hp => ?_, htokens⟩
  have hmem := List.mem_map_of_mem (f := (·.token)) hp
  rw [htokens, List.mem_filter] at hmem
  have hkind : p.token.kind ≠ .whitespace := by simpa using hmem.2
  exact ⟨hregular _ hmem.1, hkind, (hshows.written p hp).1,
    tidy_of_mem ctx.dialect .start 0 text.toList _ hmem.1 hkind⟩

variable {ctx : Context} {text : String} {ps : List Piece}

/-- The rendered lines of a text are its spelling, without white space at the end. -/
theorem Spells.toList_render (h : Spells ctx text ps) :
    (render ctx.style.indent (linesOf ctx (tokenize ctx.dialect.lexicon text))).toList =
      spell (trimLast ps) [] := by
  rw [linesOf, Page.toList_render h.shows.neat, h.shows.chars, spell_trimLast h.good]

theorem Spells.spelt (h : Spells ctx text ps) {tail : List Char}
    (blank : ∀ c ∈ tail, isBlank c = true) (hfeed : tail.head?.all (· == '\n') = true) :
    Spelt ctx.dialect ctx.keywordCase none (trimLast ps) tail :=
  spelt_trimLast h.shows.chain h.good blank hfeed

/-- A spelling is cut into the tokens of the text again. -/
theorem Spells.relexed (h : Spells ctx text ps) {tail : List Char}
    (hsp : Spelt ctx.dialect ctx.keywordCase none (trimLast ps) tail) {out : String}
    (hout : out.toList = spell (trimLast ps) tail) :
    Relexed ctx.dialect.lexicon (trimLast ps) tail (tokenize ctx.dialect.lexicon out) := by
  rw [tokenize, hout]
  refine Lexer.relexed ctx.dialect ctx.keywordCase .start 0 text.toList .start 0 none _ _
    (.refl _) ?_ hsp
  rw [map_token_trimLast, h.tokens]
  rfl

/-! ## The comparison with the source -/

theorem toList_endLine {out : String} {ps : List Piece} (h : out.toList = spell ps []) :
    ∃ tail, (∀ c ∈ tail, isBlank c = true) ∧ tail.head?.all (· == '\n') = true ∧
      (Settings.endLine out).toList = spell ps tail := by
  unfold Settings.endLine
  split
  · exact ⟨[], by simp, rfl, h⟩
  · refine ⟨['\n'], by simp [isBlank], rfl, ?_⟩
    rw [String.toList_append, h, spell_tail ps ['\n']]
    rfl

/-- A text that spells out its source passes the comparison. -/
theorem Spells.mismatch?_eq_none (h : Spells ctx text ps) {out : String}
    (hout : out.toList = spell (trimLast ps) []) :
    Equivalence.mismatch? ctx.dialect.lexicon text (Settings.endLine out) = none := by
  obtain ⟨tail, blank, hfeed, hend⟩ := toList_endLine hout
  have hsp := h.spelt blank hfeed
  obtain ⟨hlen, hnone⟩ := (h.relexed hsp hend).equivalent hsp 0
  rw [map_token_trimLast, h.tokens] at hnone
  have hlen' : (trimLast ps).length = (Equivalence.significant ctx.dialect.lexicon text).length := by
    rw [← h.tokens, ← map_token_trimLast, List.length_map]
  rw [hlen'] at hlen
  rw [Equivalence.mismatch?]
  exact (if_neg (not_not.mpr hlen)).trans hnone

/-- Formatting that passes the comparison in every dialect never reports a difference. -/
theorem Settings.formatText_ne_equivalence {settings : Settings}
    (hcolor : settings.style.color = .never) (text : String)
    (h : ∀ dialect, ∃ out, format? dialect settings.style text = some out ∧
      Equivalence.mismatch? dialect.lexicon text (endLine out) = none) (m : Mismatch) :
    settings.formatText text ≠ .error (.equivalence m) := by
  have hstyle : { settings.style with color := .never } = settings.style := by rw [← hcolor]
  unfold formatText
  cases hdialect : settings.dialectFor text with
  | error e =>
    rintro habs
    obtain rfl : e = .equivalence m := Except.error.inj habs
    unfold dialectFor at hdialect
    split at hdialect
    · cases hdialect
    · split at hdialect <;> cases hdialect
  | ok dialect =>
    obtain ⟨out, hout, hnone⟩ := h dialect
    have hplain : formatAs dialect settings.style text = .ok (endLine out) := by
      rw [formatAs, hout]
    simp [bind, Except.bind, hstyle, hplain, hnone, hcolor, pure, Except.pure]

/-- **Formatting keeps the tokens**: a formatted text has the tokens of its source, in order, and the
comparison with the source never fails. -/
theorem format_keeps_tokens {style : Style} (hstyle : style.Plain) {text : String}
    (hblank : ∀ c ∈ text.toList, isWhite c = true → isBlank c = true) :
    (∀ dialect : Dialect, ∃ out, format? dialect style text = some out ∧
      Correspond dialect.lexicon (Equivalence.significant dialect.lexicon text)
        (Equivalence.significant dialect.lexicon out)) ∧
    ∀ settings : Settings, settings.style = style →
      ∀ m, settings.formatText text ≠ .error (.equivalence m) := by
  have hspells : ∀ dialect : Dialect, ∃ ps out, Spells (style.context dialect) text ps ∧
      format? dialect style text = some out ∧ out.toList = spell (trimLast ps) [] := by
    intro dialect
    obtain ⟨ps, hps⟩ := exists_spelling (style.context_plain hstyle.color hstyle.indent dialect)
      (endsBlank_of_forall hblank dialect)
    refine ⟨ps, _, hps, ?_, hps.toList_render⟩
    rw [format?_eq hstyle.params, Alignment.alignAll?_plain hstyle]
    rfl
  refine ⟨fun dialect => ?_, fun settings hsettings => ?_⟩
  · obtain ⟨ps, out, hps, hformat, hout⟩ := hspells dialect
    have hsp := hps.spelt (List.forall_mem_nil _) rfl
    have hcorr := (hps.relexed hsp hout).corresponds hsp
    rw [map_token_trimLast, hps.tokens] at hcorr
    exact ⟨out, hformat, hcorr⟩
  · subst hsettings
    refine Settings.formatText_ne_equivalence hstyle.color text fun dialect => ?_
    obtain ⟨ps, out, hps, hformat, hout⟩ := hspells dialect
    exact ⟨out, hformat, hps.mismatch?_eq_none hout⟩

theorem format_keeps_tokens_standard :
    ∃ out, format? .postgresql .standard "select a,\n'b  '--c \nFROM t" = some out ∧
      Correspond Dialect.postgresql.lexicon
        (Equivalence.significant Dialect.postgresql.lexicon "select a,\n'b  '--c \nFROM t")
        (Equivalence.significant Dialect.postgresql.lexicon out) :=
  (format_keeps_tokens Style.standard_plain (forall_mem_of_all (by decide))).1 .postgresql

end SqlFormat
