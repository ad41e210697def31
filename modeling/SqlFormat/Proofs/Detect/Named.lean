import SqlFormat.Proofs.Detect.Hint
import SqlFormat.Proofs.Detect.Joint
import SqlFormat.Proofs.Format.Aligned

/-!
# The dialect that the tokens name

A comment names a dialect on one of its own lines. Such a comment is trimmed or indented anew and nothing
else, and no keyword is made into one, so the tokens of a formatted text name the dialect that the tokens
of its source name.

Results: `textHint?_piece` (one token), `named?_formatted` (all of them).
-/

namespace SqlFormat

open Text Lexer Layout

namespace Detect

/-- The dialect that the first token of a text names, of those that name one. -/
def named? (dialect : Dialect) (text : String) : Option Dialect :=
  (tokenize dialect.lexicon text).findSome? fun t => textHint? t.text.toList

/-! ## One token -/

/-- The words of a keyword name no dialect, in whatever case and with whatever blanks between them. -/
theorem textHint?_respaced {t x : List Char} (h : Respaced t x) : textHint? t = textHint? x := by
  have hplain : ∀ e : Char, isKeywordChar e = false → isBlank e = false → e ∉ t ∧ e ∉ x := by
    intro e hkeyword hblank
    have hword : ∀ {w : List Char}, IsKeywordWord w → e ∉ w := fun hw hmem => by
      rw [hw.chars e hmem] at hkeyword
      cases hkeyword
    have hgap : ∀ {g : List Char}, IsGap g → e ∉ g := fun hg hmem => by
      rw [hg.2 e hmem] at hblank
      cases hblank
    induction h with
    | word hw hw' => exact ⟨hword hw, hword hw'⟩
    | more hw hw' _ hg hg' _ ih =>
      simp only [List.mem_append, not_or]
      exact ⟨⟨hword hw, hgap hg, ih.1⟩, hword hw', hgap hg', ih.2⟩
  obtain ⟨hdash, hdash'⟩ := hplain '-' (by decide) (by decide)
  obtain ⟨hstar, hstar'⟩ := hplain '*' (by decide) (by decide)
  rw [textHint?_eq_none hdash hstar, textHint?_eq_none hdash' hstar']

variable {ctx : Context}

theorem textHint?_commentText (hunit : AllWhite ctx.style.indent.toList)
    (hfeed : '\n' ∉ ctx.style.indent.toList) (token : Token) (indent : Nat) :
    textHint? (State.commentText ctx token indent).toList = textHint? token.text.toList := by
  unfold State.commentText
  split
  · rw [trimEnd, String.toList_ofList, textHint?_trim]
  · split
    · rfl
    · exact textHint?_reindent hunit hfeed indent token.text

/-- A token is written with what it names. -/
theorem textHint?_piece (hunit : AllWhite ctx.style.indent.toList)
    (hfeed : '\n' ∉ ctx.style.indent.toList) {s : State} {item : Item} {p : Piece}
    (h : Adds ctx s item p) (hregular : p.token.Regular ctx.dialect) :
    textHint? p.text = textHint? p.token.text.toList := by
  cases h with
  | comment => exact textHint?_commentText hunit hfeed item.token _
  | significant =>
    change textHint? (State.displayText ctx item.token).toList = _
    unfold State.displayText
    split
    · next hkeyword =>
      exact (textHint?_respaced (respaced_keyword hregular.toSound hkeyword ctx.keywordCase)).symm
    · rfl

/-! ## All tokens -/

theorem textHint?_trace (hunit : AllWhite ctx.style.indent.toList)
    (hfeed : '\n' ∉ ctx.style.indent.toList) {s : State} {items : List Item} {ps : List Piece}
    (h : Trace ctx s items ps) (hregular : ∀ p ∈ ps, p.token.Regular ctx.dialect) :
    ∀ p ∈ ps, textHint? p.text = textHint? p.token.text.toList := by
  induction h with
  | nil => simp
  | cons adds _ ih =>
    rintro p (_ | ⟨_, hp⟩)
    · exact textHint?_piece hunit hfeed adds (hregular _ List.mem_cons_self)
    · exact ih (fun q hq => hregular q (List.mem_cons_of_mem _ hq)) p hp

/-- The last piece may be trimmed. -/
theorem textHint?_trimLast {ps : List Piece}
    (h : ∀ p ∈ ps, textHint? p.text = textHint? p.token.text.toList) :
    ∀ p ∈ trimLast ps, textHint? p.text = textHint? p.token.text.toList := by
  fun_induction trimLast ps with
  | case1 => simp
  | case2 p =>
    intro q hq
    obtain rfl := List.mem_singleton.mp hq
    exact (textHint?_trim p.text).trans (h p List.mem_cons_self)
  | case3 p q ps ih =>
    rintro r (_ | ⟨_, hr⟩)
    · exact h p List.mem_cons_self
    · exact ih (fun r hr => h r (List.mem_cons_of_mem _ hr)) r hr

theorem findSome?_blankTokens {gap : List Char} (hgap : AllWhite gap) (pos : Nat) (ts : List Token) :
    (blankTokens gap pos ++ ts).findSome? (fun t => textHint? t.text.toList) =
      ts.findSome? fun t => textHint? t.text.toList := by
  unfold blankTokens
  split
  · rfl
  · have hnone : textHint? (Token.plain .whitespace (String.ofList gap) pos).text.toList = none := by
      rw [Token.plain, String.toList_ofList, textHint?_allWhite hgap]
    rw [List.singleton_append, List.findSome?_cons, hnone]

/-- What is read back from pieces names what the pieces name. -/
theorem findSome?_relexed {lexicon : Lexicon} {ps : List Piece} {tail : List Char} {ts : List Token}
    (h : Relexed lexicon ps tail ts) (hgaps : ∀ p ∈ ps, AllWhite p.gap) (htail : AllWhite tail) :
    ts.findSome? (fun t => textHint? t.text.toList) = ps.findSome? fun p => textHint? p.text := by
  induction h with
  | nil tail pos =>
    rw [← List.append_nil (blankTokens tail pos), findSome?_blankTokens htail]
    rfl
  | @cons p ps tail ts pos pos' _ _ ih =>
    rw [findSome?_blankTokens (hgaps p List.mem_cons_self), List.findSome?_cons, List.findSome?_cons,
      String.toList_ofList, ih (fun q hq => hgaps q (List.mem_cons_of_mem _ hq)) htail]
  | @last p tail pos pos' =>
    rw [findSome?_blankTokens (hgaps p List.mem_cons_self), List.findSome?_cons, List.findSome?_cons,
      String.toList_ofList, textHint?_append_white _ htail]
    rfl

/-- White space names nothing. -/
theorem named?_eq (dialect : Dialect) (text : String) : named? dialect text =
    (Equivalence.significant dialect.lexicon text).findSome? fun t => textHint? t.text.toList := by
  have hwhite := allWhite_of_mem dialect .start 0 text.toList
  change ∀ t ∈ tokenize dialect.lexicon text, _ at hwhite
  rw [named?, Equivalence.significant]
  generalize tokenize dialect.lexicon text = ts at hwhite ⊢
  induction ts with
  | nil => rfl
  | cons t ts ih =>
    have hrest := ih fun u hu => hwhite u (List.mem_cons_of_mem _ hu)
    by_cases hkind : t.kind = .whitespace
    · rw [List.filter_cons_of_neg (by simp [hkind]), List.findSome?_cons,
        textHint?_allWhite (hwhite t List.mem_cons_self hkind), hrest]
    · rw [List.filter_cons_of_pos (by simpa using hkind), List.findSome?_cons, List.findSome?_cons, hrest]

/-- The tokens of a formatted text name what the tokens of its source name. -/
theorem named?_formatted (hunit : AllWhite ctx.style.indent.toList)
    (hfeed : '\n' ∉ ctx.style.indent.toList) {text out : String} {ps qs : List Piece} {tail : List Char}
    (hps : Spells ctx text ps) (hwidens : List.Forall₂ Widens ps qs)
    (hspelt : Spelt ctx.dialect ctx.keywordCase none (trimLast qs) tail)
    (hout : out.toList = spell (trimLast qs) tail) :
    named? ctx.dialect out = named? ctx.dialect text := by
  have htokens : (trimLast qs).map (·.token) = Equivalence.significant ctx.dialect.lexicon text := by
    rw [map_token_trimLast, map_eq_of_widens hwidens fun token _ => token]
    exact hps.tokens
  have hrelexed : Relexed ctx.dialect.lexicon (trimLast qs) tail (tokenize ctx.dialect.lexicon out) := by
    rw [tokenize, hout]
    exact Lexer.relexed ctx.dialect ctx.keywordCase .start 0 text.toList .start 0 none _ _ (.refl _)
      htokens hspelt
  obtain ⟨hpieces, htail⟩ := pieces_of_spelt hspelt
  have hsame : ∀ p ∈ trimLast qs, textHint? p.text = textHint? p.token.text.toList := by
    refine textHint?_trimLast fun q hq => ?_
    obtain ⟨p, hp, hpq⟩ := exists_mem_left hwidens hq
    rw [hpq.text, hpq.token]
    exact textHint?_trace hunit hfeed hps.trace (fun p hp => (hps.good p hp).regular) p hp
  rw [named?, findSome?_relexed hrelexed (fun p hp => (hpieces p hp).2.1) htail, named?_eq, ← htokens,
    List.findSome?_map]
  have hnames := congrArg (List.findSome? id) (List.map_inj_left.mpr hsame)
  rwa [List.findSome?_map, List.findSome?_map] at hnames

end Detect

end SqlFormat
