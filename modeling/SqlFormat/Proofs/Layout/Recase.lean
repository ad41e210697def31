import Mathlib
import SqlFormat.Proofs.Layout.Draft
import SqlFormat.Proofs.Layout.Items
import SqlFormat.Proofs.Layout.Twin
import SqlFormat.Proofs.Token.Sound

/-!
# Layout in every case

Layout tells keywords by the text of their tokens and never looks at what it has written for them.
So the runs over the same tokens, for all cases that may be asked for, differ in their pages only,
and the pages show one manuscript: every token writes the same characters there, and those of
keywords are the only ones that follow the case.

Results: `State.Cased.run`, `exists_linesOf_recased`.
-/

namespace SqlFormat

open Text

/-- The characters that a token writes, other than white space. Comments count as layout. -/
def Token.marks (token : Token) : List Layout.Cell :=
  if token.kind.isSignificant then
    Layout.Cell.all (if token.isKeyword then .keyword else .token)
      (token.text.toList.filter (!isWhite ·))
  else []

/-- Keywords are phrases. -/
def Token.IsPhrase (token : Token) : Prop :=
  token.isKeyword = true → ∃ ws, Lexer.Phrased token.text.toList ws

theorem Parameters.kind_substitute (params : Parameters) (t : Token) :
    (params.substitute t).kind = t.kind := by
  unfold substitute
  split
  · split <;> rfl
  · rfl

/-- A placeholder is no keyword, whatever value it has. -/
theorem isPhrase_substitute {dialect : Dialect} (params : Parameters) {t : Token}
    (h : t.Sound dialect) : (params.substitute t).IsPhrase := by
  intro hkey
  have hother : t.kind.isPlaceholder = false := by
    rw [Token.isKeyword, Token.isBracket, params.kind_substitute] at hkey
    revert hkey
    cases t.kind <;> simp [TokenKind.isPlaceholder, TokenKind.isReserved]
  have hsame : params.substitute t = t := if_neg (by simp [hother])
  rw [hsame] at hkey ⊢
  exact h.keyword hkey

namespace Lexer

variable {t : List Char} {ws : List (List Char)}

theorem IsKeywordWord.filter_white {w : List Char} (h : IsKeywordWord w) :
    w.filter (!isWhite ·) = w := by
  rw [List.filter_eq_self]
  intro c hc
  rw [not_isWhite_of_isKeywordChar (h.chars c hc), Bool.not_false]

/-- The characters of a phrase are those of its words. -/
theorem Phrased.filter_white (h : Phrased t ws) : t.filter (!isWhite ·) = ws.flatten := by
  induction h with
  | word hw => simp [hw.filter_white]
  | @more w g t ws hw hg _ ih =>
    have hgap : g.filter (!isWhite ·) = [] := by
      rw [List.filter_eq_nil_iff]
      intro c hc
      simp [isBlank_imp_isWhite (hg.2 c hc)]
    rw [List.filter_append, List.filter_append, hw.filter_white, hgap, ih, List.nil_append,
      List.flatten_cons]

/-- Spacing a phrase in another way leaves its characters. -/
theorem Phrased.filter_intercalate (h : Phrased t ws) :
    ([' '].intercalate ws).filter (!isWhite ·) = ws.flatten := by
  induction h with
  | word hw => simp [hw.filter_white]
  | @more w g t ws hw _ rest ih =>
    have hspace : [' '].filter (!isWhite ·) = [] := by decide
    rw [List.intercalate_cons_of_ne_nil rest.ne_nil, List.filter_append, List.filter_append,
      hw.filter_white, hspace, ih, List.append_nil, List.flatten_cons]

/-- One space between the words is as narrow as a phrase can be. -/
theorem Phrased.length_intercalate_le (h : Phrased t ws) :
    ([' '].intercalate ws).length ≤ t.length := by
  induction h with
  | word hw => rw [List.intercalate_singleton]
  | @more w g t ws hw hg rest ih =>
    have hgap : 0 < g.length := List.length_pos_of_ne_nil hg.1
    rw [List.intercalate_cons_of_ne_nil rest.ne_nil, List.length_append, List.length_append,
      List.length_append, List.length_append, List.length_singleton]
    omega

end Lexer

namespace Layout

/-- The same with keywords in another case. -/
def Context.recased (ctx : Context) (asked : KeywordCase) : Context :=
  { ctx with style := { ctx.style with keywordCase := asked } }

theorem Context.keywordCase_recased (ctx : Context) (asked : KeywordCase) :
    (ctx.recased asked).keywordCase = ctx.dialect.caseFor asked := by
  cases asked <;> rfl

/-- What stands around the text of a token depends on its kind only. -/
def Context.Frames (ctx : Context) : Prop :=
  ∀ kind, ∃ before after : String, ∀ text, ctx.decorate kind text = before ++ text ++ after

/-! ## What is written -/

variable {ctx : Context} {token : Token}

/-- The width of the last line is the same in every case. -/
theorem lastLineWidth_shown {text : String} {case : KeywordCase} {cells : List Cell}
    (h : text.toList = cells.map (·.shown case)) :
    State.lastLineWidth text = (cells.reverse.takeWhile (·.char != '\n')).length := by
  have hfeed : ((· != '\n') ∘ fun c : Cell => c.shown case) = fun c => c.char != '\n' :=
    funext fun c => congrArg (!·) (Cell.apply_shown (ignoresCase_eq (by decide)) case c)
  rw [State.lastLineWidth, h, ← List.map_reverse, List.takeWhile_map, hfeed, List.length_map]

/-- What a token writes, colour apart: the same cells in every case. -/
theorem exists_cells_displayText (ctx : Context) (hkind : token.kind.isSignificant = true)
    (hphrase : token.IsPhrase) :
    ∃ cells, (∀ asked, (State.displayText (ctx.recased asked) token).toList =
      cells.map (·.shown (ctx.dialect.caseFor asked))) ∧ Cell.marks cells = token.marks := by
  cases hkey : token.isKeyword with
  | false =>
    refine ⟨Cell.all .token token.text.toList, fun asked => ?_, ?_⟩
    · rw [State.displayText, if_neg (by simp [hkey]), Cell.map_shown_all (by decide)]
    · rw [Cell.marks_all (by decide), Token.marks, if_pos hkind, if_neg (by simp [hkey])]
  | true =>
    obtain ⟨ws, hws⟩ := hphrase hkey
    have htext := Lexer.toList_normalizePhrase hws
    rw [String.ofList_toList] at htext
    refine ⟨Cell.all .keyword ([' '].intercalate ws), fun asked => ?_, ?_⟩
    · rw [State.displayText, if_pos hkey, Context.keywordCase_recased, KeywordCase.toList_apply,
        htext, Cell.map_shown_keyword]
      rw [htext]
      exact hws.ascii_intercalate
    · rw [Cell.marks_all (by decide), hws.filter_intercalate, Token.marks, if_pos hkind,
        if_pos hkey, hws.filter_white]

/-! ## States -/

namespace State

variable {s : State} {pages : KeywordCase → Page} {states : KeywordCase → State}
  {marks : List Cell} {item : Item}

/-- The states for the cases that may be asked for differ in their pages only, which show one
manuscript. -/
def Cased (dialect : Dialect) (states : KeywordCase → State) (marks : List Cell) : Prop :=
  ∃ (s : State) (pages : KeywordCase → Page),
    (states = fun asked => s.onPage (pages asked)) ∧ Page.Cased dialect pages marks

/-- **The case of keywords cannot be seen** by what decides about a token. -/
theorem sight_recased (h : Page.Cased ctx.dialect pages marks) (asked : KeywordCase)
    (token : Token) : (s.onPage (pages asked)).sight (ctx.recased asked) token =
      (s.onPage (pages .preserve)).sight ctx token := by
  have hroom : (s.onPage (pages asked)).available (ctx.recased asked) =
      (s.onPage (pages .preserve)).available ctx := by
    unfold available
    simp only [onPage, h.atLineStart_eq asked .preserve, h.column_eq asked .preserve]
    rfl
  have hanchor : (s.onPage (pages asked)).anchorFor? (ctx.recased asked) token =
      (s.onPage (pages .preserve)).anchorFor? ctx token := by
    unfold anchorFor?
    simp only [onPage, h.lineHas_eq asked .preserve]
    rfl
  rw [sight, sight, hroom, hanchor]
  simp only [onPage, h.indent_eq asked .preserve]

theorem decision_recased (v : Sight) (asked : KeywordCase) (item : Item) :
    v.decision (ctx.recased asked) item = v.decision ctx item :=
  v.decision_congr rfl rfl rfl rfl rfl

/-- A token writes the same on the pages of all cases. -/
theorem written_recased (h : Page.Cased ctx.dialect pages marks) (hframes : ctx.Frames)
    (hkind : item.token.kind.isSignificant = true) (hphrase : item.token.IsPhrase)
    (placed : Option Nat) (anchor : Option (AnchorKind × Nat)) :
    Page.Cased ctx.dialect
      (fun asked => (s.onPage (pages asked)).written (ctx.recased asked) item placed anchor)
      (marks ++ item.token.marks) := by
  obtain ⟨cells, htext, hmarks⟩ := exists_cells_displayText ctx hkind hphrase
  obtain ⟨before, after, hframe⟩ := hframes item.token.kind
  let framed := Cell.all .layout before.toList ++ cells ++ Cell.all .layout after.toList
  have hframed : ∀ asked, ((ctx.recased asked).decorate item.token.kind
      (displayText (ctx.recased asked) item.token)).toList =
        framed.map (·.shown (ctx.dialect.caseFor asked)) := by
    intro asked
    have hdecorate : (ctx.recased asked).decorate = ctx.decorate := rfl
    rw [hdecorate, hframe, String.toList_append, String.toList_append, htext, List.map_append,
      List.map_append, Cell.map_shown_all (by decide), Cell.map_shown_all (by decide)]
  have hmarks' : Cell.marks framed = item.token.marks := by
    rw [Cell.marks_append, Cell.marks_append, Cell.marks_layout, Cell.marks_layout, hmarks,
      List.nil_append, List.append_nil]
  rw [← hmarks']
  exact (((h.place placed).advance (s.spaceBefore ctx item)).note anchor).write hframed fun asked =>
    lastLineWidth_shown (htext asked)

namespace Cased

theorem start (dialect : Dialect) : Cased dialect (fun _ => .start) [] :=
  ⟨.start, fun _ => .start, rfl, Page.Cased.start⟩

theorem significant (h : Cased ctx.dialect states marks) (hframes : ctx.Frames)
    (hkind : item.token.kind.isSignificant = true) (hphrase : item.token.IsPhrase) :
    Cased ctx.dialect (fun asked => (states asked).significant (ctx.recased asked) item)
      (marks ++ item.token.marks) := by
  obtain ⟨s, pages, rfl, hpages⟩ := h
  let v := (s.onPage (pages .preserve)).sight ctx item.token
  let d := v.decision ctx item
  let next := (s.onPage (pages .preserve)).decided ctx item d (v.betweenAfter item.token)
  have hwritten := written_recased (s := s) hpages hframes hkind hphrase d.placed
    (d.anchor.or s.pendingAnchor)
  refine ⟨next, _, funext fun asked => ?_, hwritten.settle d.settled d.blank⟩
  rw [significant_eq, sight_recased hpages, decision_recased]
  rfl

/-- A comment is written without asking for a case. -/
theorem comment (h : Cased ctx.dialect states marks) (hkind : item.token.kind.isComment = true) :
    Cased ctx.dialect (fun asked => (states asked).comment (ctx.recased asked) item)
      (marks ++ item.token.marks) := by
  obtain ⟨s, pages, rfl, h⟩ := h
  have hattaches : ∀ asked, (s.onPage (pages asked)).attaches item =
      (s.onPage (pages .preserve)).attaches item := by
    intro asked
    unfold attaches
    simp only [onPage, h.atLineStart_eq asked .preserve, h.isEmpty_eq asked .preserve]
  have hbroken : Page.Cased ctx.dialect (fun asked => ((s.onPage (pages asked)).broken item).page)
      marks := by
    unfold broken
    simp only [onPage, fun asked => h.atLineStart_eq asked .preserve]
    split
    · exact h.newline _
    · exact h
  have hpage : Page.Cased ctx.dialect (fun asked => (s.onPage (pages asked)).commentPage item)
      marks := by
    unfold commentPage
    simp only [hattaches]
    split
    · exact h.write_layout " " 1
    · exact hbroken.advance true
  have hwritten : Page.Cased ctx.dialect
      (fun asked => (s.onPage (pages asked)).commentWritten (ctx.recased asked) item) marks := by
    unfold commentWritten
    simp only [fun asked => hpage.lineIndent_eq asked .preserve]
    let text := commentText ctx item.token
      ((s.onPage (pages .preserve)).commentPage item).line.indent
    exact hpage.write_layout (ctx.decorate item.token.kind text) (lastLineWidth text)
  have hmarks : item.token.marks = [] := by
    rw [Token.marks, if_neg (by simp [TokenKind.isSignificant, hkind])]
  rw [hmarks, List.append_nil]
  simp only [comment_eq, fun asked => hwritten.breakAt_eq asked .preserve]
  split
  · exact ⟨s, _, rfl, hwritten.newline s.nesting.depth⟩
  · exact ⟨s, _, rfl, hwritten⟩

theorem step (h : Cased ctx.dialect states marks) (hframes : ctx.Frames)
    (hkind : item.token.kind ≠ .whitespace) (hphrase : item.token.IsPhrase) :
    Cased ctx.dialect (fun asked => (states asked).step (ctx.recased asked) item)
      (marks ++ item.token.marks) := by
  unfold State.step
  cases hcomment : item.token.kind.isComment with
  | true => exact h.comment hcomment
  | false =>
    have hsignificant : item.token.kind.isSignificant = true := by
      simp [TokenKind.isSignificant, hkind, hcomment]
    obtain ⟨s, pages, hstates, hpages⟩ := h.significant hframes hsignificant hphrase
    refine ⟨{ s with prev := some item.token }, pages, funext fun asked => ?_, hpages⟩
    rw [if_neg Bool.false_ne_true, congrFun hstates asked]
    rfl

/-- **Every token leaves its characters, and nothing but the case of keywords differs.** -/
theorem run {items : List Item} (h : Cased ctx.dialect states marks) (hframes : ctx.Frames)
    (hitems : ∀ item ∈ items, item.token.kind ≠ .whitespace ∧ item.token.IsPhrase) :
    Cased ctx.dialect (fun asked => (states asked).run (ctx.recased asked) items)
      (marks ++ items.flatMap (·.token.marks)) := by
  induction items generalizing states marks with
  | nil => rwa [List.flatMap_nil, List.append_nil]
  | cons item items ih =>
    obtain ⟨hkind, hphrase⟩ := hitems item List.mem_cons_self
    rw [List.flatMap_cons, ← List.append_assoc]
    exact ih (h.step hframes hkind hphrase) fun other hother =>
      hitems other (List.mem_cons_of_mem item hother)

end Cased

end State

/-! ## Lines -/

/-- White space between tokens leaves nothing. -/
theorem flatMap_marks_ofTokens (tokens : List Token) :
    (Item.ofTokens tokens).flatMap (·.token.marks) = tokens.flatMap Token.marks := by
  rw [← List.flatMap_map (f := Item.token) (g := Token.marks), Item.map_token_ofTokens]
  induction tokens with
  | nil => rfl
  | cons t ts ih =>
    rw [List.filter_cons, List.flatMap_cons]
    split
    · rw [List.flatMap_cons, ih]
    · next hkind =>
      have hblank : t.kind = .whitespace := by simpa using hkind
      rw [ih, Token.marks, hblank]
      rfl

/-- **One draft for all cases**: the lines of a token sequence in any case show the same drafts. -/
theorem exists_linesOf_recased {tokens : List Token} (hframes : ctx.Frames)
    (htokens : ∀ token ∈ tokens, token.IsPhrase) :
    ∃ drafts : List Draft, (∀ asked, linesOf (ctx.recased asked) tokens =
      drafts.map (·.shown (ctx.dialect.caseFor asked))) ∧
        drafts.flatMap Draft.marks = tokens.flatMap Token.marks := by
  have hitems : ∀ item ∈ Item.ofTokens tokens,
      item.token.kind ≠ .whitespace ∧ item.token.IsPhrase := by
    intro item hitem
    obtain ⟨hmem, hkind⟩ := Item.mem_of_mem_ofTokens hitem
    exact ⟨hkind, htokens _ hmem⟩
  obtain ⟨s, pages, hstates, hpages⟩ := (State.Cased.start ctx.dialect).run hframes hitems
  obtain ⟨drafts, hlines, hmarks⟩ := hpages.exists_lines
  refine ⟨drafts, fun asked => ?_, ?_⟩
  · rw [← hlines, linesOf, congrFun hstates asked]
    rfl
  · rw [hmarks, List.nil_append, flatMap_marks_ofTokens]

end Layout

end SqlFormat
