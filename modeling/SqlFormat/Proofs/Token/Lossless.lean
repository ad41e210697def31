import Mathlib
import SqlFormat.Proofs.Token.Rules

/-!
# Nothing is lost between text and tokens

The tokens of a text cover it without gaps: joined together their texts are the text again, and each
token starts where the ones before it end. Blanks that follow each other are one token, and a line
comment reaches up to the end of its line.

Results: `tokensFrom_cons` (one cut), `tokenize_lossless`.
-/

namespace SqlFormat

open Text

namespace Lexer

/-- The token that a cut makes. -/
def Lexeme.token (found : Lexeme) (text : List Char) (pos : Nat) : Token :=
  ⟨found.kind, String.ofList (text.take found.length), pos, found.key⟩

@[simp] theorem Lexeme.token_kind (found : Lexeme) (text : List Char) (pos : Nat) :
    (found.token text pos).kind = found.kind := rfl

@[simp] theorem Lexeme.token_text (found : Lexeme) (text : List Char) (pos : Nat) :
    (found.token text pos).text = String.ofList (text.take found.length) := rfl

@[simp] theorem Lexeme.token_pos (found : Lexeme) (text : List Char) (pos : Nat) :
    (found.token text pos).pos = pos := rfl

/-- One cut: the head of the text becomes a token, and the lexer goes on with the rest. -/
theorem tokensFrom_cons (dialect : Dialect) (memory : Memory) (pos : Nat) {text : List Char}
    (hne : text ≠ []) {found : Lexeme} (h : Reads dialect.lexicon memory text found) :
    tokensFrom dialect.lexicon memory pos text =
      found.token text pos ::
        tokensFrom dialect.lexicon (memory.after (found.token text pos))
          (pos + byteLength (text.take found.length)) (text.drop found.length) := by
  obtain ⟨c, cs, rfl⟩ := List.exists_cons_of_ne_nil hne
  obtain ⟨n, hn⟩ : ∃ n, found.length = n + 1 := ⟨found.length - 1, by have := h.length_pos; omega⟩
  rw [tokensFrom]
  simp only [h.eq, hn, Nat.add_sub_cancel, List.take_succ_cons, List.drop_succ_cons, Lexeme.token]

/-- The first cut of a text that begins with `t`, where `t` is what is read. -/
theorem tokenize_of_reads (dialect : Dialect) {t rest : List Char} {kind : TokenKind} (hne : t ≠ [])
    (h : Reads dialect.lexicon .start (t ++ rest) (.plain kind t.length)) :
    let token := Token.plain kind (String.ofList t) 0
    tokenize dialect.lexicon (String.ofList (t ++ rest)) =
      token :: tokensFrom dialect.lexicon (Memory.start.after token) (byteLength t) rest := by
  intro token
  have htoken : (Lexeme.plain kind t.length).token (t ++ rest) 0 = token := by
    simp only [Lexeme.token, Lexeme.plain, List.take_left]
    rfl
  have hcut := tokensFrom_cons dialect .start 0 (List.append_ne_nil_of_left_ne_nil hne rest) h
  rw [htoken, show (Lexeme.plain kind t.length).length = t.length from rfl, List.take_left,
    List.drop_left, Nat.zero_add] at hcut
  rw [tokenize, String.toList_ofList, hcut]

theorem tokensFrom_nil (lexicon : Lexicon) (memory : Memory) (pos : Nat) :
    tokensFrom lexicon memory pos [] = [] := by
  rw [tokensFrom]

/-- Induction along the cuts of a text. -/
theorem cut_induction (dialect : Dialect) {motive : Memory → Nat → List Char → Prop}
    (nil : ∀ memory pos, motive memory pos [])
    (cut : ∀ memory pos text found, text ≠ [] → Reads dialect.lexicon memory text found →
      motive (memory.after (found.token text pos)) (pos + byteLength (text.take found.length))
        (text.drop found.length) →
      motive memory pos text)
    (memory : Memory) (pos : Nat) (text : List Char) : motive memory pos text := by
  induction hn : text.length using Nat.strong_induction_on generalizing memory pos text with
  | _ n ih =>
    by_cases hne : text = []
    · subst hne
      exact nil memory pos
    · have hr := lexeme_reads dialect.lexicon memory text
      have hpos := hr.length_pos
      have hle := List.length_pos_iff.mpr hne
      refine cut memory pos text _ hne hr (ih _ ?_ _ _ _ rfl)
      simp only [List.length_drop]
      omega

/-! ## What the tokens of a text are like -/

/-- What holds of every token that a cut makes holds of all tokens of a text. -/
theorem forall_mem_of_cut (dialect : Dialect) {p : Token → Prop}
    (h : ∀ memory pos text found, text ≠ [] → Reads dialect.lexicon memory text found →
      p (found.token text pos))
    (memory : Memory) (pos : Nat) (text : List Char) :
    ∀ t ∈ tokensFrom dialect.lexicon memory pos text, p t := by
  induction memory, pos, text using cut_induction dialect with
  | nil memory pos => simp [tokensFrom_nil]
  | cut memory pos text found hne hr ih =>
    rw [tokensFrom_cons dialect memory pos hne hr]
    exact List.forall_mem_cons.mpr ⟨h memory pos text found hne hr, ih⟩

/-- A token holds at least one character. -/
theorem text_ne_empty (dialect : Dialect) (memory : Memory) (pos : Nat) (text : List Char) :
    ∀ t ∈ tokensFrom dialect.lexicon memory pos text, t.text ≠ "" := by
  refine forall_mem_of_cut dialect (fun memory pos text found hne hr h => ?_) memory pos text
  have hnil := congrArg String.toList h
  simp only [Lexeme.token_text, String.toList_ofList, String.toList_empty,
    List.take_eq_nil_iff] at hnil
  have hpos := hr.length_pos
  rcases hnil with hnil | hnil
  · omega
  · exact hne hnil

/-- The texts of the tokens, joined together, are the text. -/
theorem flatMap_text (dialect : Dialect) (memory : Memory) (pos : Nat) (text : List Char) :
    (tokensFrom dialect.lexicon memory pos text).flatMap (·.text.toList) = text := by
  induction memory, pos, text using cut_induction dialect with
  | nil memory pos => simp [tokensFrom_nil]
  | cut memory pos text found hne hr ih =>
    rw [tokensFrom_cons dialect memory pos hne hr, List.flatMap_cons, ih]
    simp

theorem byteLength_eq (cs : List Char) : byteLength cs = (String.ofList cs).utf8ByteSize := by
  induction cs with
  | nil => simp [byteLength]
  | cons c cs ih =>
    rw [byteLength, ih, ← List.singleton_append, String.ofList_append, String.utf8ByteSize_append]
    simp

/-- A token starts where the ones before it end. -/
theorem pos_eq (dialect : Dialect) (memory : Memory) (pos : Nat) (text : List Char)
    (before : List Token) (t : Token) (after : List Token)
    (h : tokensFrom dialect.lexicon memory pos text = before ++ t :: after) :
    t.pos = pos + (before.map (·.text.utf8ByteSize)).sum := by
  induction memory, pos, text using cut_induction dialect generalizing before with
  | nil memory pos => simp [tokensFrom_nil] at h
  | cut memory pos text found hne hr ih =>
    rw [tokensFrom_cons dialect memory pos hne hr] at h
    cases before with
    | nil =>
      simp only [List.nil_append, List.cons.injEq] at h
      simp [← h.1]
    | cons b before =>
      simp only [List.cons_append, List.cons.injEq] at h
      rw [ih before h.2, ← h.1, byteLength_eq]
      simp only [Lexeme.token_text, List.map_cons, List.sum_cons]
      omega

/-- What may stand directly after a token: white space is never cut in two, and after a line comment
comes the line feed that ends it. -/
def Follows (first second : Token) : Prop :=
  ¬(first.kind = .whitespace ∧ second.kind = .whitespace) ∧
    (first.kind = .lineComment →
      second.kind = .whitespace ∧ second.text.toList.head? = some '\n')

/-- The rest of a text after a cut starts as `Follows` asks. -/
theorem follows_cut {dialect : Dialect} {memory memory' : Memory} {pos pos' : Nat}
    {text : List Char} {found next : Lexeme} (hr : Reads dialect.lexicon memory text found)
    (hne : text.drop found.length ≠ [])
    (hn : Reads dialect.lexicon memory' (text.drop found.length) next) :
    Follows (found.token text pos) (next.token (text.drop found.length) pos') := by
  constructor
  · rintro ⟨hw, hw'⟩
    have hb := hn.kind_eq_whitespace.mp hw'
    obtain rfl := hr.whitespace hw
    rw [Lexeme.plain, Scan.blanks, Scan.head?_drop_takeWhile] at hb
    cases hb
  · intro hl
    obtain ⟨_, _, rfl⟩ := hr.lineComment hl
    obtain ⟨c, cs, hcs⟩ := List.exists_cons_of_ne_nil hne
    have hh := Scan.head?_drop_takeWhile (· != '\n') text
    rw [Lexeme.plain, Scan.lineComment] at hcs
    rw [hcs] at hh
    obtain rfl : c = '\n' := by simpa using hh
    rw [Lexeme.plain, Scan.lineComment] at hn
    rw [hcs] at hn
    have hk := hn.kind_eq_whitespace.mpr (by simp [isBlank])
    refine ⟨hk, ?_⟩
    obtain ⟨n, hlen⟩ : ∃ n, next.length = n + 1 :=
      ⟨next.length - 1, by have := hn.length_pos; omega⟩
    simp [Lexeme.plain, Scan.lineComment, hcs, hlen]

theorem isChain_follows (dialect : Dialect) (memory : Memory) (pos : Nat) (text : List Char) :
    (tokensFrom dialect.lexicon memory pos text).IsChain Follows := by
  induction memory, pos, text using cut_induction dialect with
  | nil memory pos => simp [tokensFrom_nil]
  | cut memory pos text found hne hr ih =>
    rw [tokensFrom_cons dialect memory pos hne hr, List.isChain_cons]
    refine ⟨fun y hy => ?_, ih⟩
    by_cases hrest : text.drop found.length = []
    · rw [hrest, tokensFrom_nil] at hy
      simp at hy
    · rw [tokensFrom_cons dialect _ _ hrest (lexeme_reads _ _ _)] at hy
      simp only [List.head?_cons, Option.mem_def, Option.some.injEq] at hy
      rw [← hy]
      exact follows_cut hr hrest (lexeme_reads _ _ _)

/-- A line comment holds no line feed. -/
theorem lineComment_text (dialect : Dialect) (memory : Memory) (pos : Nat) (text : List Char) :
    ∀ t ∈ tokensFrom dialect.lexicon memory pos text, t.kind = .lineComment →
      '\n' ∉ t.text.toList := by
  refine forall_mem_of_cut dialect (fun memory pos text found _ hr hk => ?_) memory pos text
  obtain ⟨_, _, rfl⟩ := hr.lineComment hk
  rw [Lexeme.token_text, String.toList_ofList]
  exact Scan.not_mem_take_lineComment text

end Lexer

/-- A token sequence that covers a text: no token is empty, their texts joined together are the text,
each starts at the byte where the ones before it end, and that is a boundary between characters.
White space is never cut in two, and a line comment ends with its line. -/
structure Covers (tokens : List Token) (text : String) : Prop where
  nonempty : ∀ t ∈ tokens, t.text ≠ ""
  join : String.join (tokens.map (·.text)) = text
  pos : ∀ before t after, tokens = before ++ t :: after →
    t.pos = (before.map (·.text.utf8ByteSize)).sum
  boundary : ∀ t ∈ tokens, (String.Pos.Raw.mk t.pos).IsValid text
  whitespace : tokens.IsChain fun a b => ¬(a.kind = .whitespace ∧ b.kind = .whitespace)
  lineComment : ∀ t ∈ tokens, t.kind = .lineComment → '\n' ∉ t.text.toList
  lineEnd : tokens.IsChain fun a b => a.kind = .lineComment →
    b.kind = .whitespace ∧ b.text.toList.head? = some '\n'

theorem join_tokenize (dialect : Dialect) (text : String) :
    String.join ((tokenize dialect.lexicon text).map (·.text)) = text := by
  apply String.toList_injective
  rw [String.toList_join, List.flatMap_map]
  exact Lexer.flatMap_text dialect .start 0 text.toList

/-- The bytes of joined texts add up. -/
theorem utf8ByteSize_join (texts : List String) :
    (String.join texts).utf8ByteSize = (texts.map String.utf8ByteSize).sum := by
  induction texts with
  | nil => rfl
  | cons s texts ih =>
    have hjoin : String.join (s :: texts) = s ++ String.join texts := by
      apply String.toList_injective
      simp
    rw [hjoin, String.utf8ByteSize_append, ih, List.map_cons, List.sum_cons]

/-- Cutting a text into tokens loses nothing, and every cut takes at least one character of the text
ahead and no more than there are. -/
theorem tokenize_lossless (dialect : Dialect) (text : String) :
    Covers (tokenize dialect.lexicon text) text ∧
      ∀ memory c cs, 0 < (Lexer.lexeme dialect.lexicon memory (c :: cs)).length ∧
        (Lexer.lexeme dialect.lexicon memory (c :: cs)).length ≤ (c :: cs).length := by
  have hpos : ∀ before t after, tokenize dialect.lexicon text = before ++ t :: after →
      t.pos = (before.map (·.text.utf8ByteSize)).sum := by
    intro before t after h
    rw [Lexer.pos_eq dialect .start 0 text.toList before t after h, Nat.zero_add]
  have hchain := Lexer.isChain_follows dialect .start 0 text.toList
  refine ⟨?_, fun memory c cs =>
    ⟨Lexer.lexeme_length_pos dialect memory _, Lexer.lexeme_length_le _ memory (by simp)⟩⟩
  constructor
  case nonempty => exact Lexer.text_ne_empty dialect .start 0 text.toList
  case join => exact join_tokenize dialect text
  case pos => exact hpos
  case boundary =>
    intro t ht
    obtain ⟨before, after, hsplit⟩ := List.append_of_mem ht
    rw [String.Pos.Raw.isValid_iff_exists_append]
    refine ⟨String.join (before.map (·.text)), String.join ((t :: after).map (·.text)), ?_, ?_⟩
    · conv_lhs => rw [← join_tokenize dialect text, hsplit]
      apply String.toList_injective
      simp
    · rw [hpos before t after hsplit]
      apply String.Pos.Raw.ext
      rw [String.byteIdx_rawEndPos, utf8ByteSize_join, List.map_map]
      rfl
  case whitespace => exact hchain.imp fun _ _ h => h.1
  case lineComment => exact Lexer.lineComment_text dialect .start 0 text.toList
  case lineEnd => exact hchain.imp fun _ _ h => h.2

end SqlFormat
