import SqlFormat.Proofs.Detect.Drawn
import SqlFormat.Proofs.Detect.Votes
import SqlFormat.Proofs.Token.Closed
import SqlFormat.Equivalence

/-!
# Where written tokens touch

A formatted text puts tokens together only where the dialect says so: brackets and what they hold,
signs, dots, casts, separators. No pattern of another dialect starts to match there, but for the colons
of a cast that is followed by a colon or an equals sign. So it is compared with the source as it is when
its tokens are set apart.

Results: `apart_of_tight` (two tokens that may touch), `kept_of_joins` (two tokens as they are written),
`mirrors_spacedOut` (all of them).
-/

namespace SqlFormat.Detect

open Text Lexer Pattern

/-- Characters of words touch in both texts or in neither, marks of the dialect stay together, and no
other dialect gains a mark. -/
def Kept (dialect : Dialect) : Joint := fun c d before after =>
  (isWord c = true → isWord d = true → before = after) ∧
    (clings dialect c d = true → before = true → after = true) ∧
      ∀ other ≠ dialect, clings other c d = true → after = true → before = true

theorem kept_refl (dialect : Dialect) (c d : Char) (a : Bool) : Kept dialect c d a a :=
  ⟨fun _ _ => rfl, fun _ h => h, fun _ _ _ h => h⟩

theorem Kept.keeps {dialect : Dialect} {s t : List Char} (h : Mirrors (Kept dialect) none s t) :
    Mirrors (Keeps (clings dialect)) none s t ∧
      ∀ other ≠ dialect, Mirrors (Keeps (clings other)) none t s :=
  ⟨h.mono fun _ _ _ _ hk => ⟨hk.2.1, hk.1⟩, fun other hother =>
    (h.flip rfl).mono fun _ _ _ _ hk => ⟨hk.2.2 other hother, fun hc hd => (hk.1 hc hd).symm⟩⟩

/-! ## Marks -/

theorem clings_toLower (dialect : Dialect) (c d : Char) :
    clings dialect c.toLower d.toLower = clings dialect c d := by
  have heq : ∀ k ∈ ['$', ':', '-', '>', '_', '=', '%'], ∀ e : Char, (e.toLower == k) = (e == k) :=
    fun k hk => ignoresCase_eq (forall_mem_of_all (p := fun k => k.isAlpha = false) (by decide) k hk)
  simp only [List.forall_mem_cons, List.not_mem_nil, false_implies, implies_true, and_true] at heq
  obtain ⟨hdollar, hcolon, hminus, hgreater, hunder, hequal, hpercent⟩ := heq
  cases dialect <;> try rfl
  · simp only [clings, hdollar, hcolon, hminus, hgreater, hunder, isAlpha_toLower,
      ignoresCase_isWord c]
  · simp only [clings, hcolon, hequal, hpercent, ignoresCase_sameLetter _ d]

/-- No mark goes on after these characters. -/
theorem clings_left {c : Char} (hc : c ∈ ['(', '[', '+', '.', '/']) (dialect : Dialect) (d : Char) :
    clings dialect c d = false := by
  have hword : isWord c = false :=
    forall_mem_of_all (p := fun c => isWord c = false) (by decide) c hc
  simp only [List.mem_cons, List.not_mem_nil, or_false] at hc
  rcases hc with rfl | rfl | rfl | rfl | rfl <;> cases dialect <;> simp [clings, hword]

/-- No mark goes on with these characters. -/
theorem clings_right {d : Char} (hd : d ∈ ['(', ')', '[', ']', '.', ',', ';', '%'])
    (dialect : Dialect) (c : Char) : clings dialect c d = false := by
  simp only [List.mem_cons, List.not_mem_nil, or_false] at hd
  rcases hd with rfl | rfl | rfl | rfl | rfl | rfl | rfl | rfl <;> cases dialect <;>
    simp +decide [clings]

/-! ## Two tokens -/

variable {dialect : Dialect} {a b : Token} {c d : Char}

/-- A colon and another one, or a minus sign and what would make an arrow of it, do not touch. -/
theorem not_double_of_merge (ha : a.kind = .operator)
    (hmerge : wouldMerge dialect.lexicon a b = false) (hc : a.text.toList = [c])
    (hd : b.text.toList.head? = some d) : Scan.isDouble [c, d] = false := by
  obtain ⟨cs, hcs⟩ : ∃ cs, b.text.toList = d :: cs := List.head?_eq_some_iff.mp hd
  exact isDouble_touching ha hmerge hc hcs (.inl rfl)

theorem clings_colon (hc : c ≠ ':') (dialect : Dialect) : clings dialect c ':' = false := by
  cases dialect <;> simp +decide [clings, hc]

/-- A token that ends with a colon, if it is not the colon itself, comes before none with which it would
make a mark of another dialect. -/
def ColonApart (dialect : Dialect) (a b : Token) : Prop :=
  a.kind.isComment = false → a.isOperator ":" = false → a.text.toList.getLast? = some ':' →
    ∀ d ∈ b.text.toList.head?, ∀ other ≠ dialect, clings other ':' d = false

instance (dialect : Dialect) (a b : Token) : Decidable (ColonApart dialect a b) :=
  decidable_of_iff (a.kind.isComment = false → a.isOperator ":" = false →
      a.text.toList.getLast? = some ':' → (b.text.toList.head?.all fun d =>
        Dialect.all.all fun other => other == dialect || !clings other ':' d) = true) <| by
    have hall : ∀ other : Dialect, other ∈ Dialect.all := by
      intro other
      cases other <;> decide
    simp [ColonApart, Option.all_eq_true, hall, or_iff_not_imp_left]

/-- No word and no mark of another dialect goes on from one character to the next. -/
structure CharsApart (dialect : Dialect) (c d : Char) : Prop where
  word : (isWord c && isWord d) = false
  marks : ∀ other ≠ dialect, clings other c d = false

namespace CharsApart

theorem of_left (hc : c ∈ ['(', '[', '+', '.', '/']) (dialect : Dialect) (d : Char) :
    CharsApart dialect c d where
  word := by
    rw [forall_mem_of_all (p := fun c => isWord c = false) (by decide) c hc, Bool.false_and]
  marks other _ := clings_left hc other d

theorem of_right (hd : d ∈ ['(', ')', '[', ']', '.', ',', ';', '%']) (dialect : Dialect) (c : Char) :
    CharsApart dialect c d where
  word := by
    rw [forall_mem_of_all (p := fun d => isWord d = false) (by decide) d hd, Bool.and_false]
  marks other _ := clings_right hd other c

/-- A minus sign makes a mark with an arrow head alone, and these two merge. -/
theorem of_minus (ha : a.isOperator "-" = true) (hmerge : wouldMerge dialect.lexicon a b = false)
    (hd : b.text.toList.head? = some d) : CharsApart dialect '-' d := by
  simp only [Token.isOperator, Bool.and_eq_true, beq_iff_eq] at ha
  have hword : isWord '-' = false := by decide
  have hne : d ≠ '>' := by
    rintro rfl
    exact absurd (not_double_of_merge ha.1 hmerge (c := '-') (by rw [ha.2]; rfl) hd) (by decide)
  refine ⟨by rw [hword, Bool.false_and], fun other _ => ?_⟩
  cases other <;> simp [clings, hne, hword]

/-- A percent sign touches what follows in one dialect, the one whose mark it is. -/
theorem of_percent (hs : (dialect.spacing "%").after = false) (d : Char) :
    CharsApart dialect '%' d := by
  have hplsql : dialect = .plsql := by
    revert hs
    cases dialect <;> decide
  subst hplsql
  have hword : isWord '%' = false := by decide
  refine ⟨by rw [hword, Bool.false_and], fun other hother => ?_⟩
  cases other <;> first
    | exact absurd rfl hother
    | simp [clings, hword]

theorem to_colon (hcom : a.kind.isComment = false) (hmerge : wouldMerge dialect.lexicon a b = false)
    (hcolon : ColonApart dialect a b) (hc : a.text.toList.getLast? = some c)
    (hd : b.text.toList.head? = some ':') : CharsApart dialect c ':' := by
  refine ⟨by rw [show isWord ':' = false by decide, Bool.and_false], fun other hother => ?_⟩
  by_cases hlast : c = ':'
  · subst hlast
    cases hop : a.isOperator ":" with
    | false => exact hcolon hcom hop hc ':' hd other hother
    | true =>
      simp only [Token.isOperator, Bool.and_eq_true, beq_iff_eq] at hop
      exact absurd (not_double_of_merge hop.1 hmerge (c := ':') (by rw [hop.2]; rfl) hd) (by decide)
  · exact clings_colon hlast other

end CharsApart

section Touching

variable (hc : a.text.toList.getLast? = some c) (hd : b.text.toList.head? = some d)

include hc in
theorem last_eq {op : String} (ht : a.text = op) {e : Char} (he : op.toList.getLast? = some e) :
    c = e := by
  subst ht
  exact Option.some.inj (hc.symm.trans he)

include hd in
theorem head_eq {op : String} (ht : b.text = op) {e : Char} (he : op.toList.head? = some e) :
    d = e := by
  subst ht
  exact Option.some.inj (hd.symm.trans he)

include hc hd

/-- An operator that nothing separates from what follows. -/
theorem apart_after (hs : (dialect.spacing a.text).after = false) (hcom : a.kind.isComment = false)
    (hcolon : ColonApart dialect a b) : CharsApart dialect c d := by
  have hops := spacing_after hs
  simp only [List.mem_cons, List.not_mem_nil, or_false] at hops
  rcases hops with ht | ht | ht | ht
  · obtain rfl : c = '.' := last_eq hc ht rfl
    exact .of_left (by decide) dialect d
  · obtain rfl : c = ':' := last_eq hc ht rfl
    exact ⟨by rw [show isWord ':' = false by decide, Bool.false_and],
      hcolon hcom (by simp [Token.isOperator, ht]) hc d hd⟩
  · obtain rfl : c = '%' := last_eq hc ht rfl
    exact .of_percent (ht ▸ hs) d
  · obtain rfl : c = '.' := last_eq hc ht rfl
    exact .of_left (by decide) dialect d

/-- An operator that nothing separates from what stands before it. -/
theorem apart_before (hs : (dialect.spacing b.text).before = false)
    (hcom : a.kind.isComment = false) (hmerge : wouldMerge dialect.lexicon a b = false)
    (hcolon : ColonApart dialect a b) : CharsApart dialect c d := by
  have hops := spacing_before hs
  by_cases hhead : d = ':'
  · subst hhead
    exact .to_colon hcom hmerge hcolon hc hd
  · refine .of_right ?_ dialect c
    simp only [List.mem_cons, List.not_mem_nil, or_false] at hops
    rcases hops with ht | ht | ht | ht | ht | ht | ht <;> obtain rfl := head_eq hd ht rfl <;>
      first
        | decide
        | exact absurd rfl hhead

/-- Where two tokens may touch, no word and no mark of another dialect goes on from one to the other. -/
theorem apart_of_tight (h : Tight dialect a b) (hcom : a.kind.isComment = false)
    (hmerge : wouldMerge dialect.lexicon a b = false) (hcolon : ColonApart dialect a b) :
    CharsApart dialect c d := by
  cases h with
  | opening _ ht =>
    rcases ht with ht | ht <;> obtain rfl := last_eq hc ht rfl <;>
      exact .of_left (by decide) dialect d
  | sign hsign =>
    rcases hsign with hplus | hminus
    · obtain rfl : c = '+' := last_eq hc (eq_of_beq (Bool.and_eq_true_iff.mp hplus).2) rfl
      exact .of_left (by decide) dialect d
    · obtain rfl : c = '-' := last_eq hc (eq_of_beq (Bool.and_eq_true_iff.mp hminus).2) rfl
      exact .of_minus hminus hmerge hd
  | after _ hs => exact apart_after hc hd hs hcom hcolon
  | closing _ ht =>
    rcases ht with ht | ht <;> obtain rfl := head_eq hd ht rfl <;>
      exact .of_right (by decide) dialect c
  | before _ hs => exact apart_before hc hd hs hcom hmerge hcolon
  | group _ hs =>
    have hbracket := (Bool.and_eq_true_iff.mp hs).2
    simp only [Token.isBracket, Bool.and_eq_true, Bool.or_eq_true, beq_iff_eq] at hbracket
    rcases hbracket.2 with ((ht | ht) | ht) | ht <;> obtain rfl := head_eq hd ht rfl <;>
      exact .of_right (by decide) dialect c

end Touching

/-- A percent sign and the name of an attribute. -/
def IsAttribute (dialect : Dialect) (a b : Token) : Prop :=
  dialect = .plsql ∧ a.isOperator "%" = true ∧ b.kind = .word ∧
    b.text.toList.head?.any Char.isAlpha = true

instance (dialect : Dialect) (a b : Token) : Decidable (IsAttribute dialect a b) :=
  inferInstanceAs (Decidable (_ ∧ _ ∧ _ ∧ _))

/-- What comes between two tokens that are set apart: nothing in an attribute, and nothing where a colon
would make a mark of another dialect. -/
def gapBetween (dialect : Dialect) (a b : Token) : List Char :=
  if IsAttribute dialect a b ∨ ¬ColonApart dialect a b then [] else [' ']

/-- Neighbouring characters are part of a mark of one dialect only. -/
theorem clings_unique {other : Dialect} (h : clings other ':' d = true) (hother : other ≠ dialect) :
    clings dialect ':' d = false := by
  have hword : isWord ':' = false := by decide
  cases other <;> cases dialect <;> first
    | exact absurd rfl hother
    | simp_all [clings]

/-- Two tokens that are set apart, and as they are written. -/
theorem kept_of_joins {written : List Char} (hjoins : Joins dialect (some a) written b)
    (hclose : a.kind = .blockComment → a.text.toList.getLast? = some '/')
    (hheld : IsAttribute dialect a b → written = []) (hc : c ∈ a.text.toList.getLast?)
    (hd : d ∈ b.text.toList.head?) :
    Kept dialect c.toLower d.toLower (gapBetween dialect a b).isEmpty written.isEmpty := by
  rw [Kept, ignoresCase_isWord c, ignoresCase_isWord d]
  simp only [clings_toLower]
  by_cases hattribute : IsAttribute dialect a b
  · rw [gapBetween, if_pos (.inl hattribute), hheld hattribute]
    exact kept_refl dialect c d true
  by_cases hcolon : ColonApart dialect a b
  · rw [gapBetween, if_neg (by simp [hattribute, hcolon])]
    have happart : written.isEmpty = true → CharsApart dialect c d := by
      intro hwritten
      rcases hjoins.touch (List.isEmpty_iff.mp hwritten) a rfl with hcomment | ⟨hcom, -, htight, hmerge⟩
      · obtain rfl : c = '/' := Option.some.inj (hc.symm.trans (hclose hcomment))
        exact .of_left (by decide) dialect d
      · exact apart_of_tight hc hd htight hcom hmerge hcolon
    refine ⟨fun hwc hwd => ?_, fun _ habs => absurd habs Bool.false_ne_true,
      fun other hother hmark hwritten => ?_⟩
    · rw [List.isEmpty_cons, eq_comm, Bool.eq_false_iff]
      intro hwritten
      simpa [hwc, hwd] using (happart hwritten).word
    · rw [(happart hwritten).marks other hother] at hmark
      cases hmark
  · rw [gapBetween, if_pos (.inr hcolon)]
    simp only [ColonApart, not_forall] at hcolon
    obtain ⟨-, -, hlast, e, he, other, hother, hmark⟩ := hcolon
    obtain rfl : c = ':' := Option.some.inj (hc.symm.trans hlast)
    obtain rfl : d = e := Option.some.inj (hd.symm.trans he)
    refine ⟨fun hword => absurd hword (by decide), fun habs => ?_, fun _ _ _ _ => rfl⟩
    rw [clings_unique (Bool.not_eq_false _ ▸ hmark) hother] at habs
    cases habs

/-! ## What is written -/

section Written

variable {case : KeywordCase} {before : Option Token} {ps : List Piece} {tail : List Char}

theorem pieces_of_spelt (h : Spelt dialect case before ps tail) :
    (∀ p ∈ ps, p.token.kind ≠ .whitespace ∧ AllWhite p.gap ∧
      ∃ last, Written case last p.token p.text) ∧ AllWhite tail := by
  induction h with
  | nil blank => exact ⟨by simp, fun c hc => isBlank_imp_isWhite (blank c hc)⟩
  | cons _ kind joins written _ ih =>
    refine ⟨?_, ih.2⟩
    rintro q (_ | ⟨_, hq⟩)
    · exact ⟨kind, fun c hc => isBlank_imp_isWhite (joins.blank c hc), _, written⟩
    · exact ih.1 q hq

theorem isChain_of_spelt (h : Spelt dialect case before ps tail) : ps.IsChain fun p q =>
    Written case false p.token p.text ∧ Joins dialect (some p.token) q.gap q.token := by
  induction h with
  | nil => exact .nil
  | cons _ _ _ written rest ih =>
    refine List.isChain_cons.mpr ⟨fun q hq => ?_, ih⟩
    cases rest with
    | nil => cases hq
    | cons _ _ joins => exact Option.some.inj hq ▸ ⟨written, joins⟩

end Written

/-- Two neighbours that are set apart, and how they are written. -/
theorem junction_of_neighbours {case : KeywordCase} {p q : Piece × Piece}
    (hp : p.1.token = p.2.token ∧ p.1.text = p.1.token.text.toList)
    (hq : q.1.token = q.2.token ∧ q.1.text = q.1.token.text.toList)
    (hregular : p.1.token.Regular dialect) (hkind : p.1.token.kind ≠ .whitespace)
    (hfollowed : ∃ t, Adjacent p.1.token t ∧ Closes p.1.token t)
    (hgap : q.1.gap = gapBetween dialect p.1.token q.1.token)
    (hwritten : Written case false p.2.token p.2.text ∧
      Joins dialect (some p.2.token) q.2.gap q.2.token)
    (hheld : IsAttribute dialect p.1.token q.1.token → q.2.gap = []) : Junction (Kept dialect) p q := by
  obtain ⟨t, hadjacent, hcloses⟩ := hfollowed
  rw [← hp.1, ← hq.1] at hwritten
  by_cases hline : p.1.token.kind = .lineComment
  · refine .parted ?_ fun hnil => ?_
    · have hattribute : ¬IsAttribute dialect p.1.token q.1.token := fun habs => by
        simp [IsAttribute, Token.isOperator, hline] at habs
      have hcolon : ColonApart dialect p.1.token q.1.token := fun habs => by
        rw [hline] at habs
        cases habs
      rw [hgap, gapBetween, if_neg (by simp [hattribute, hcolon])]
      exact List.cons_ne_nil _ _
    · have := hwritten.2.lineEnd _ rfl hline
      rw [hnil] at this
      cases this
  · have htidy : Tidy p.1.token.text.toList := hadjacent.tidy hkind hline
    refine .joined ?_ (Layout.trimmed_of_written hwritten.1 hregular fun _ => htidy) fun c hc d hd => ?_
    · rw [hp.2]
      exact htidy.trimmed hregular.white
    · rw [hp.2] at hc
      rw [hq.2] at hd
      rw [hgap]
      refine kept_of_joins hwritten.2 (fun hblock => ?_) hheld hc hd
      obtain ⟨body, hbody⟩ := hcloses hblock
      simp [hbody]

/-! ## All tokens -/

/-- Tokens that are set apart, after a token if there is one. -/
def setApart (dialect : Dialect) : Option Token → List Token → List Piece
  | _, [] => []
  | before, t :: ts =>
    ⟨(before.map (gapBetween dialect · t)).getD [], t, t.text.toList⟩ :: setApart dialect (some t) ts

/-- A text with its tokens set apart. -/
def spacedOut (dialect : Dialect) (text : String) : List Char :=
  spell (setApart dialect none (Equivalence.significant dialect.lexicon text)) []

section SetApart

variable {before : Option Token} {ts : List Token}

theorem map_token_setApart (dialect : Dialect) (before : Option Token) (ts : List Token) :
    (setApart dialect before ts).map (·.token) = ts := by
  induction ts generalizing before with
  | nil => rfl
  | cons t ts ih => rw [setApart, List.map_cons, ih]

theorem allWhite_gapBetween (dialect : Dialect) (a b : Token) : AllWhite (gapBetween dialect a b) := by
  unfold gapBetween
  split <;> simp [AllWhite, isWhite]

theorem mem_setApart :
    ∀ p ∈ setApart dialect before ts, AllWhite p.gap ∧ p.text = p.token.text.toList := by
  induction ts generalizing before with
  | nil => simp [setApart]
  | cons t ts ih =>
    rintro p (_ | ⟨_, hp⟩)
    · refine ⟨?_, rfl⟩
      cases before with
      | none => exact List.forall_mem_nil _
      | some a => exact allWhite_gapBetween dialect a t
    · exact ih p hp

theorem isChain_setApart : (setApart dialect before ts).IsChain fun p q =>
    q.gap = gapBetween dialect p.token q.token := by
  induction ts generalizing before with
  | nil => exact .nil
  | cons t ts ih =>
    refine List.isChain_cons.mpr ⟨fun q hq => ?_, ih⟩
    cases ts with
    | nil => cases hq
    | cons u us => exact Option.some.inj hq ▸ rfl

/-- A token that is not the last of those that count has a neighbour. -/
theorem isChain_followed {S : Token → Token → Prop} (h : ts.IsChain S) (counts : Token → Bool) :
    (ts.filter counts).IsChain fun a _ => ∃ t, S a t := by
  induction ts with
  | nil => exact .nil
  | cons t ts ih =>
    rw [List.filter_cons]
    split
    · refine List.isChain_cons.mpr ⟨fun u hu => ?_, ih h.tail⟩
      cases ts with
      | nil => cases hu
      | cons next ts => exact ⟨next, h.rel⟩
    · exact ih h.tail

end SetApart

/-- Two texts that are spelt out from the same tokens can be read piece by piece. -/
theorem exists_pairs {ps qs : List Piece} (h : ps.map (·.token) = qs.map (·.token)) :
    ∃ pairs : List (Piece × Piece), pairs.map Prod.fst = ps ∧ pairs.map Prod.snd = qs ∧
      ∀ p ∈ pairs, p.1.token = p.2.token := by
  have hlength : ps.length = qs.length := by simpa using congrArg List.length h
  have hfst : (ps.zip qs).map Prod.fst = ps := List.map_fst_zip hlength.le
  have hsnd : (ps.zip qs).map Prod.snd = qs := List.map_snd_zip hlength.ge
  refine ⟨ps.zip qs, hfst, hsnd, List.map_inj_left.mp ?_⟩
  rw [← hfst, ← hsnd, List.map_map, List.map_map] at h
  simpa [hfst, hsnd] using h

/-- A token that counts, if another one does after it, has a neighbour in the text. -/
theorem isChain_significant (dialect : Dialect) (text : String) :
    (Equivalence.significant dialect.lexicon text).IsChain fun a _ =>
      ∃ t, Adjacent a t ∧ Closes a t := by
  have hneighbours : (tokenize dialect.lexicon text).IsChain fun a b => Adjacent a b ∧ Closes a b :=
    List.isChain_iff_getElem.mpr fun i hi =>
      ⟨(isChain_adjacent dialect .start 0 text.toList).getElem i hi,
        (isChain_closes dialect .start 0 text.toList).getElem i hi⟩
  exact isChain_followed hneighbours (·.kind != .whitespace)

/-- The tokens of a text side by side, set apart and as they are written. -/
structure SideBySide (dialect : Dialect) (text : String) (ps : List Piece)
    (pairs : List (Piece × Piece)) : Prop where
  fst : pairs.map Prod.fst = setApart dialect none (Equivalence.significant dialect.lexicon text)
  snd : pairs.map Prod.snd = ps
  token : ∀ p ∈ pairs, p.1.token = p.2.token

namespace SideBySide

variable {case : KeywordCase} {text : String} {ps : List Piece} {tail : List Char}
  {pairs : List (Piece × Piece)} (h : SideBySide dialect text ps pairs)

include h

theorem tokens : pairs.map (·.1.token) = Equivalence.significant dialect.lexicon text := by
  rw [← map_token_setApart dialect none (Equivalence.significant _ _), ← h.fst, List.map_map]
  rfl

theorem mem (p : Piece × Piece) (hp : p ∈ pairs) :
    p.1.token ∈ tokenize dialect.lexicon text ∧ p.1.token.kind ≠ .whitespace := by
  have := List.mem_map_of_mem (f := (·.1.token)) hp
  rw [h.tokens, Equivalence.significant, List.mem_filter] at this
  exact ⟨this.1, by simpa using this.2⟩

theorem left (p : Piece × Piece) (hp : p ∈ pairs) :
    AllWhite p.1.gap ∧ p.1.text = p.1.token.text.toList :=
  mem_setApart p.1 (by rw [← h.fst]; exact List.mem_map_of_mem hp)

theorem right (p : Piece × Piece) (hp : p ∈ pairs) : p.2 ∈ ps := by
  rw [← h.snd]
  exact List.mem_map_of_mem hp

theorem drawn (hregular : ∀ t ∈ tokenize dialect.lexicon text, t.Regular dialect)
    (hspelt : Spelt dialect case none ps tail) (p : Piece × Piece) (hp : p ∈ pairs) :
    AllWhite p.1.gap ∧ AllWhite p.2.gap ∧ Drawn p.1.text p.2.text := by
  obtain ⟨-, hgap, last, hwritten⟩ := (pieces_of_spelt hspelt).1 p.2 (h.right p hp)
  rw [← h.token p hp] at hwritten
  obtain ⟨ht, hkind⟩ := h.mem p hp
  obtain ⟨hwhite, htext⟩ := h.left p hp
  refine ⟨hwhite, hgap, ?_⟩
  rw [htext]
  exact drawn_of_written hwritten (hregular _ ht)
    (tidy_of_mem dialect .start 0 text.toList _ ht hkind)

theorem junctions (hregular : ∀ t ∈ tokenize dialect.lexicon text, t.Regular dialect)
    (hspelt : Spelt dialect case none ps tail)
    (hheld : ps.IsChain fun p q => IsAttribute dialect p.token q.token → q.gap = []) :
    pairs.IsChain (Junction (Kept dialect)) := by
  have hfollowed : pairs.IsChain fun p _ => ∃ t, Adjacent p.1.token t ∧ Closes p.1.token t := by
    have hchain := isChain_significant dialect text
    rw [← h.tokens] at hchain
    exact (List.isChain_map _).mp hchain
  have hgaps : pairs.IsChain fun p q => q.1.gap = gapBetween dialect p.1.token q.1.token := by
    have hchain : (setApart dialect none (Equivalence.significant dialect.lexicon text)).IsChain
        fun p q => q.gap = gapBetween dialect p.token q.token := isChain_setApart
    rw [← h.fst] at hchain
    exact (List.isChain_map Prod.fst).mp hchain
  have hjoins : pairs.IsChain fun p q => Written case false p.2.token p.2.text ∧
      Joins dialect (some p.2.token) q.2.gap q.2.token := by
    have hchain := isChain_of_spelt hspelt
    rw [← h.snd] at hchain
    exact (List.isChain_map Prod.snd).mp hchain
  rw [← h.snd] at hheld
  refine List.isChain_iff_getElem.mpr fun i hi => ?_
  have hp := List.getElem_mem (l := pairs) (n := i) (by omega)
  have hq := List.getElem_mem (l := pairs) (n := i + 1) hi
  refine junction_of_neighbours ⟨h.token _ hp, (h.left _ hp).2⟩ ⟨h.token _ hq, (h.left _ hq).2⟩
    (hregular _ (h.mem _ hp).1) (h.mem _ hp).2 (hfollowed.getElem i hi) (hgaps.getElem i hi)
    (hjoins.getElem i hi) ?_
  rw [h.token _ hp, h.token _ hq]
  exact ((List.isChain_map Prod.snd).mp hheld).getElem i hi

end SideBySide

/-- What is written from the tokens of a text mirrors the text with its tokens set apart, as long as the
names of attributes stay where they are. -/
theorem mirrors_spacedOut {case : KeywordCase} {text : String} {ps : List Piece} {tail : List Char}
    (hregular : ∀ t ∈ tokenize dialect.lexicon text, t.Regular dialect)
    (hspelt : Spelt dialect case none ps tail)
    (htokens : ps.map (·.token) = Equivalence.significant dialect.lexicon text)
    (hheld : ps.IsChain fun p q => IsAttribute dialect p.token q.token → q.gap = []) :
    Mirrors (Kept dialect) none (spacedOut dialect text) (spell ps tail) := by
  have hsame : (setApart dialect none (Equivalence.significant dialect.lexicon text)).map (·.token) =
      ps.map (·.token) := by
    rw [map_token_setApart, htokens]
  obtain ⟨pairs, hfst, hsnd, htoken⟩ := exists_pairs hsame
  have hside : SideBySide dialect text ps pairs := ⟨hfst, hsnd, htoken⟩
  have hmirrors := mirrors_spell (kept_refl dialect) (hside.drawn hregular hspelt)
    (hside.junctions hregular hspelt hheld) (List.forall_mem_nil _) (pieces_of_spelt hspelt).2
  rwa [hfst, hsnd] at hmirrors

end SqlFormat.Detect
