import SqlFormat.Proofs.Detect.Named
import SqlFormat.Proofs.Detect.Votes
import SqlFormat.Proofs.Layout.Tight

/-!
# The dialect of a formatted text

A formatted text is taken for the dialect that its source was taken for. A comment that names the dialect
is still there, though it may have come into the lines that are searched or gone out of them. Where none
is found, the patterns elect the dialect that they elect in the source, unless they have looked at how its
tokens are spaced.

Results: `elected_formatted` (patterns), `format_keeps_dialect`.
-/

namespace SqlFormat

open Text Lexer Layout Detect

/-! ## The pieces of a formatted text -/

theorem Settings.formatText_eq_ok {settings : Settings} (hcolor : settings.style.color = .never)
    {text out : String} (h : settings.formatText text = .ok out) :
    ∃ dialect laid, settings.dialectFor text = .ok dialect ∧
      format? dialect settings.style text = some laid ∧ out = endLine laid := by
  have hstyle : { settings.style with color := .never } = settings.style := by rw [← hcolor]
  unfold formatText at h
  cases hdialect : settings.dialectFor text with
  | error e => simp [hdialect, bind, Except.bind] at h
  | ok dialect =>
    cases hformat : format? dialect settings.style text with
    | none => simp [hdialect, hstyle, formatAs, hformat, bind, Except.bind] at h
    | some laid =>
      refine ⟨dialect, laid, rfl, hformat, ?_⟩
      rw [hdialect, hstyle] at h
      simp only [formatAs, hformat, hcolor, bind, Except.bind, reduceCtorEq, if_false] at h
      split at h
      · split at h
        · cases h
        · exact (Except.ok.inj h).symm
      · exact (Except.ok.inj h).symm

/-- The comparison with the source passes, so that a text is formatted as it is laid out. -/
theorem Settings.formatText_of_format? {settings : Settings} (hstyle : settings.style.Plain)
    {dialect : Dialect} {text laid : String} (hdialect : settings.dialectFor text = .ok dialect)
    (hends : EndsBlank dialect text) (h : format? dialect settings.style text = some laid) :
    settings.formatText text = .ok (endLine laid) := by
  have hnever : { settings.style with color := .never } = settings.style := by rw [← hstyle.color]
  obtain ⟨ps, hps⟩ :=
    exists_spelling (settings.style.context_plain hstyle.color hstyle.indent dialect) hends
  have hmismatch : Equivalence.mismatch? dialect.lexicon text (endLine laid) = none := by
    refine hps.mismatch?_eq_none ?_
    rw [format?_eq hstyle.params, Alignment.alignAll?_plain hstyle] at h
    obtain rfl := Option.some.inj h
    exact hps.toList_render
  have hplain : formatAs dialect settings.style text = .ok (endLine laid) := by rw [formatAs, h]
  simp [formatText, bind, Except.bind, hdialect, hnever, hplain, hmismatch, hstyle.color, pure,
    Except.pure]

theorem endsBlank_of_all {text : String}
    (h : (text.toList.all fun c => !isWhite c || isBlank c) = true) (dialect : Dialect) :
    EndsBlank dialect text :=
  endsBlank_of_forall (by simpa [imp_iff_not_or] using h) dialect

/-- The pieces that a formatted text is spelt out from, with the line feed at its end. -/
theorem exists_formatted_spelling {settings : Settings} (hstyle : settings.style.unaligned.Plain)
    {text out : String} (hauto : Settings.detectsDialect settings.dialectName = true)
    (hends : EndsBlank (dialectOf text).1 text)
    (horder : InOrder (dialectOf text).1 settings.style text)
    (h : settings.formatText text = .ok out) :
    ∃ ps qs tail, Spells (settings.style.context (dialectOf text).1) text ps ∧ Widened none ps qs ∧
      Spelt (dialectOf text).1 (settings.style.context (dialectOf text).1).keywordCase none
        (trimLast qs) tail ∧
      out.toList = spell (trimLast qs) tail := by
  obtain ⟨dialect, laid, hdialect, hlaid, rfl⟩ := Settings.formatText_eq_ok hstyle.color h
  obtain rfl : (dialectOf text).1 = dialect := by
    rw [Settings.dialectFor, if_pos hauto] at hdialect
    exact Except.ok.inj hdialect
  obtain ⟨ps, qs, out, hps, hwidened, hformat, hout⟩ := exists_widened_spelling hstyle hends horder
  obtain rfl : laid = out := Option.some.inj (hlaid.symm.trans hformat)
  have hwidens := hwidened.forall₂
  have hgood := hps.good_widened hwidens
  rw [← spell_trimLast hgood] at hout
  obtain ⟨tail, hblank, hfeed, hend⟩ := toList_endLine hout
  exact ⟨ps, qs, tail, hps, hwidened,
    spelt_trimLast (hps.shows.chain.widen hwidens) hgood hblank hfeed, hend⟩

/-! ## Attributes -/

variable {dialect : Dialect} {ps qs : List Piece}

/-- The names of attributes are directly behind their percent signs. -/
def HoldsAttributes (dialect : Dialect) (ps : List Piece) : Prop :=
  ps.IsChain fun p q => IsAttribute dialect p.token q.token → q.gap = []

theorem holdsAttributes_of_trace {ctx : Context} {s : State} {items : List Item}
    (h : Trace ctx s items ps) : HoldsAttributes ctx.dialect ps := by
  by_cases hplsql : ctx.dialect = .plsql
  · have hspacing : (ctx.dialect.spacing "%").after = false := by
      rw [hplsql]
      rfl
    exact (isChain_percent hspacing h).imp fun _ _ hgap hheld => hgap hheld.2.1 hheld.2.2.1 hheld.2.2.2
  · exact List.isChain_iff_getElem.mpr fun _ _ hheld => absurd hheld.1 hplsql

/-- Alignment leaves them there. -/
theorem HoldsAttributes.widened {before : Option Token} (h : HoldsAttributes dialect ps)
    (hw : Widened before ps qs) : HoldsAttributes dialect qs := by
  induction hw with
  | nil => exact .nil
  | cons widens _ rest ih =>
    refine List.isChain_cons.mpr ⟨fun q' hq' hheld => ?_, ih h.tail⟩
    cases rest with
    | nil => cases hq'
    | cons widens' apart' =>
      obtain rfl := Option.some.inj hq'
      rw [widens.token, widens'.token] at hheld
      by_contra hne
      have hword := (apart' (h.rel hheld) hne).word hheld.2.2.1 _ rfl
      rw [hheld.2.1] at hword
      cases hword

theorem map_trimLast {α : Type} (f : List Char → Token → α) (ps : List Piece) :
    (trimLast ps).map (fun p => f p.gap p.token) = ps.map fun p => f p.gap p.token := by
  fun_induction trimLast ps with
  | case1 => rfl
  | case2 => rfl
  | case3 p q ps ih => rw [List.map_cons, ih]; rfl

theorem HoldsAttributes.trimLast (h : HoldsAttributes dialect ps) :
    HoldsAttributes dialect (trimLast ps) := by
  have hpairs := (List.isChain_map (R := fun p q : List Char × Token =>
    IsAttribute dialect p.2 q.2 → q.1 = []) fun p : Piece => (p.gap, p.token)).mpr h
  rw [← map_trimLast Prod.mk ps] at hpairs
  exact (List.isChain_map _).mp hpairs

/-! ## Every text -/

/-- The patterns elect the same dialect in what is written from the tokens of a text as they do in the
text with its tokens set apart, if that is the dialect that the text is read in. -/
theorem elected_formatted {ctx : Context} {text out : String} {tail : List Char}
    (hends : EndsBlank ctx.dialect text) (hps : Spells ctx text ps) (hwidened : Widened none ps qs)
    (hspelt : Spelt ctx.dialect ctx.keywordCase none (trimLast qs) tail)
    (hout : out.toList = spell (trimLast qs) tail)
    (helected : (elected (spacedOut ctx.dialect text)).1 = ctx.dialect) :
    elected out.toList = elected (spacedOut ctx.dialect text) := by
  have htokens : (trimLast qs).map (·.token) = Equivalence.significant ctx.dialect.lexicon text := by
    rw [map_token_trimLast, map_eq_of_widens hwidened.forall₂ fun token _ => token]
    exact hps.tokens
  have hregular : ∀ t ∈ tokenize ctx.dialect.lexicon text, t.Regular ctx.dialect :=
    fun t ht => ⟨sound_of_mem ctx.dialect .start 0 text.toList t ht, hends t ht⟩
  have hheld := ((holdsAttributes_of_trace hps.trace).widened hwidened).trimLast
  have hmirrors := mirrors_spacedOut hregular hspelt htokens hheld
  rw [← hout] at hmirrors
  obtain ⟨hkeeps, hgains⟩ := Kept.keeps hmirrors
  exact elected_eq helected hkeeps hgains

/-- What a text and the formatted text have of the dialect that the text is taken for. -/
structure SignsHold (dialect : Dialect) (text out : String) : Prop where
  /-- A dialect that the formatted text names near its top is the first that one of its tokens names: no
  name is put together from several tokens, and none is kept from sight by another one in its line. -/
  read : hinted? out ≠ none → hinted? out = named? dialect out
  /-- The source is then taken for the dialect that its tokens name. -/
  named : hinted? out ≠ none → ∀ d ∈ named? dialect text, dialectOf text = (d, true)
  /-- If the formatted text names none near its top, then the patterns elect the dialect of the source in
  its tokens, however these are spaced. -/
  elected : hinted? out = none → elected (spacedOut dialect text) = dialectOf text

/-- **Formatting keeps the dialect**: where the dialect is detected, a formatted text is taken for the
dialect of its source, so that it is formatted in that dialect again. -/
theorem format_keeps_dialect {settings : Settings}
    (hauto : Settings.detectsDialect settings.dialectName = true)
    (hstyle : settings.style.unaligned.Plain) {text : String}
    (hends : EndsBlank (dialectOf text).1 text)
    (horder : InOrder (dialectOf text).1 settings.style text) {out : String}
    (h : settings.formatText text = .ok out) (hsigns : SignsHold (dialectOf text).1 text out) :
    dialectOf out = dialectOf text ∧ settings.dialectFor out = settings.dialectFor text := by
  have hsame : dialectOf out = dialectOf text := by
    obtain ⟨ps, qs, tail, hps, hwidened, hspelt, hout⟩ :=
      exists_formatted_spelling hstyle hauto hends horder h
    let ctx : Context := settings.style.context (dialectOf text).1
    cases hhint : hinted? out with
    | some d =>
      have hne : hinted? out ≠ none := by simp [hhint]
      have hunit : AllWhite settings.style.indent.toList := fun c hc => by
        rcases hstyle.indent c hc with rfl | rfl <;> decide
      have hfeed : '\n' ∉ settings.style.indent.toList := fun hmem => by
        rcases hstyle.indent _ hmem with habs | habs <;> exact absurd habs (by decide)
      have hnamed : named? (dialectOf text).1 text = some d :=
        (@named?_formatted ctx hunit hfeed _ _ _ _ _ hps hwidened.forall₂ hspelt hout).symm.trans ((hsigns.read hne).symm.trans hhint)
      rw [dialectOf_of_hint hhint, hsigns.named hne d hnamed]
    | none =>
      have helected := hsigns.elected hhint
      rw [dialectOf_of_no_hint hhint, ← helected]
      exact @elected_formatted _ _ ctx _ _ _ hends hps hwidened hspelt hout (congrArg Prod.fst helected)
  refine ⟨hsame, ?_⟩
  rw [Settings.dialectFor, Settings.dialectFor, if_pos hauto, if_pos hauto, hsame]

/-- A text, its layout in the standard style, and its formatted text. -/
structure LaidOut (text laid out : String) (d : Dialect × Bool) : Prop where
  found : dialectOf text = d
  blank : (text.toList.all fun c => !isWhite c || isBlank c) = true
  rendered : layout? (Style.standard.context d.1) (tokenize d.1.lexicon text) = some laid
  ended : Settings.endLine laid = out

instance (text laid out : String) (d : Dialect × Bool) : Decidable (LaidOut text laid out d) :=
  decidable_of_iff (dialectOf text = d ∧ (text.toList.all fun c => !isWhite c || isBlank c) = true ∧
      layout? (Style.standard.context d.1) (tokenize d.1.lexicon text) = some laid ∧
      Settings.endLine laid = out)
    ⟨fun ⟨found, blank, rendered, ended⟩ => ⟨found, blank, rendered, ended⟩,
      fun h => ⟨h.found, h.blank, h.rendered, h.ended⟩⟩

/-- In the standard settings only the layout has to be looked at. -/
theorem LaidOut.formatText_eq {text laid out : String} {d : Dialect × Bool}
    (h : LaidOut text laid out d) : Settings.standard.formatText text = .ok out := by
  obtain ⟨rfl, hblank, hlaid, rfl⟩ := h
  refine Settings.formatText_of_format? Style.standard_plain rfl (endsBlank_of_all hblank _) ?_
  show format? (dialectOf text).1 .standard text = some laid
  rw [format?_eq_layout?, map_substitute_of_isEmpty Style.standard_plain.params]
  exact hlaid

theorem format_keeps_dialect_hint_attribute :
    (dialectOf "-- header\n-- sqlpretty: dialect=db2\na(1)\n" =
        dialectOf "-- header\n-- sqlpretty: dialect=db2\na(1)" ∧
      Settings.standard.dialectFor "-- header\n-- sqlpretty: dialect=db2\na(1)\n" =
        Settings.standard.dialectFor "-- header\n-- sqlpretty: dialect=db2\na(1)") ∧
      dialectOf "v emp.sal%type := 1;\n" = dialectOf "v emp.sal%type:=1;" ∧
        Settings.standard.dialectFor "v emp.sal%type := 1;\n" =
          Settings.standard.dialectFor "v emp.sal%type:=1;" := by
  have hstyle : Settings.standard.style.unaligned.Plain := Style.standard_plain
  have hblank : ∀ {text : String}, (text.toList.all fun c => !isWhite c || isBlank c) = true →
      ∀ dialect, EndsBlank dialect text := endsBlank_of_all
  have hhint : LaidOut "-- header\n-- sqlpretty: dialect=db2\na(1)"
      "-- header\n-- sqlpretty: dialect=db2\na(1)" "-- header\n-- sqlpretty: dialect=db2\na(1)\n"
      (.db2, true) := by decide +kernel
  have hattribute : LaidOut "v emp.sal%type:=1;" "v emp.sal%type := 1;" "v emp.sal%type := 1;\n"
      (.plsql, true) := by decide +kernel
  refine ⟨format_keeps_dialect rfl hstyle (hblank hhint.blank _) (.inl ⟨rfl, rfl⟩) hhint.formatText_eq ?_,
    format_keeps_dialect rfl hstyle (hblank hattribute.blank _) (.inl ⟨rfl, rfl⟩)
      hattribute.formatText_eq ?_⟩
  · have hread : hinted? "-- header\n-- sqlpretty: dialect=db2\na(1)\n" = some .db2 := by decide +kernel
    refine ⟨fun _ => by decide +kernel, fun _ => by decide +kernel, fun habs => ?_⟩
    rw [hread] at habs
    cases habs
  · have hnone : hinted? "v emp.sal%type := 1;\n" = none := by decide +kernel
    exact ⟨fun habs => absurd hnone habs, fun habs => absurd hnone habs, fun _ => by decide +kernel⟩

/-- The formatted text is taken for another dialect than its source. -/
def ChangesDialect (settings : Settings) (text out : String) : Prop :=
  settings.formatText text = .ok out ∧ dialectOf out ≠ dialectOf text

instance (settings : Settings) (text out : String) : Decidable (ChangesDialect settings text out) :=
  inferInstanceAs (Decidable (_ ∧ _))

theorem ChangesDialect.of_layout? {text out : String} (laid : String) (found : Dialect × Bool)
    (h : LaidOut text laid out found ∧ dialectOf out ≠ found) : ChangesDialect .standard text out :=
  ⟨h.1.formatText_eq, h.1.found.symm ▸ h.2⟩

/-- A comment below the lines that are searched moves up to them when the empty lines before it go. Another
one comes to be the first of its line, and one that two tokens make up is lost. A word starts where a blank
is put before it, and a mark where one is taken away. A margin may be a mark itself. -/
theorem formatText_changes_dialect :
    ChangesDialect .standard "\n\n\n\n\n-- sqlpretty: dialect=db2" "-- sqlpretty: dialect=db2\n" ∧
      ChangesDialect .standard "/* sqlpretty: dialect=foo */,a /* sqlpretty: dialect=db2 */"
        "/* sqlpretty: dialect=foo */,\na /* sqlpretty: dialect=db2 */\n" ∧
      ChangesDialect .standard "1/**/* sqlpretty: dialect=db2" "1 /**/ * sqlpretty: dialect = db2\n" ∧
      ChangesDialect .standard "1returning" "1 returning\n" ∧
      ChangesDialect .standard "a :: = b" "a::= b\n" ∧
      ChangesDialect { Settings.standard with style := { Style.standard with indent := "$$" }, fast := true }
        "(1" "(\n$$1\n" :=
  ⟨.of_layout? "-- sqlpretty: dialect=db2" (.standard, false) (by decide +kernel),
    .of_layout? "/* sqlpretty: dialect=foo */,\na /* sqlpretty: dialect=db2 */" (.standard, false)
      (by decide +kernel),
    .of_layout? "1 /**/ * sqlpretty: dialect = db2" (.db2, true) (by decide +kernel),
    .of_layout? "1 returning" (.standard, false) (by decide +kernel),
    .of_layout? "a::= b" (.standard, false) (by decide +kernel), by decide +kernel⟩

end SqlFormat
