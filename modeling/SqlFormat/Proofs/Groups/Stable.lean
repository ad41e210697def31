import Mathlib
import SqlFormat.Proofs.Groups.Outline
import SqlFormat.Proofs.Layout.Openings

/-!
# Groups of texts that read the same

Two texts read the same if their tokens agree up to white space and up to the case and the gaps of
keywords. Their groups are then the same, as the scan for brackets looks at nothing else. The widths
are the same as well, but for the words that close blocks: these count as they are written, with the
gaps between them.

Results: `groups_of_same_reading`, `width_of_gap_in_closer` (a gap in `END IF` that makes a group
wider).
-/

namespace SqlFormat

open Lexer

variable {dialect : Dialect} {a b t : Token}

/-! ## What is read of a token -/

/-- The kind of a token and its text, for a keyword in the form in which keywords are compared. -/
def Token.reading (t : Token) : TokenKind × String :=
  (t.kind, if t.isKeyword then t.keyText else t.text)

/-- What tokens with the same reading have in common. -/
structure Token.SameReading (a b : Token) : Prop where
  kind : a.kind = b.kind
  keyword : a.isKeyword = b.isKeyword
  key : a.isKeyword = true → a.keyText = b.keyText
  text : a.isKeyword = false → a.text = b.text
  /-- The words that open blocks have no gaps. -/
  opener : a.kind = .openParen → a.text.length = b.text.length

/-- No phrase that opens a block has two words. -/
theorem Dialect.openers_single (dialect : Dialect) :
    dialect.lexicon.openers.all (fun e => e.1.toList.all (· != ' ')) = true := by
  cases dialect <;> decide

namespace Token

/-- A keyword is never compared as equal to a bracket. -/
theorem Sound.keyText_ne (h : t.Sound dialect) (hkeyword : t.isKeyword = true) :
    ∀ text ∈ ["(", ")", "[", "]"], t.keyText ≠ text := by
  obtain ⟨ws, hws⟩ := h.keyword hkeyword
  have hhead := (hws.respaced .lower).head.2
  have hkey := hws.toList_phraseKey
  rw [String.ofList_toList] at hkey
  have halpha : t.keyText.toList.head?.any Char.isAlpha = true := by
    rw [keyText, hkey]
    exact hhead
  rintro text htext heq
  rw [heq] at halpha
  simp only [List.mem_cons, List.not_mem_nil, or_false] at htext
  rcases htext with rfl | rfl | rfl | rfl <;> exact absurd halpha (by decide)

theorem isKeyword_of_paren (hkind : t.kind = .openParen ∨ t.kind = .closeParen) :
    t.isKeyword = !t.isBracket := by
  rcases hkind with hkind | hkind <;> simp [isKeyword, hkind, TokenKind.isReserved]

theorem kind_of_isBracket (h : t.isBracket = true) : t.kind = .openParen ∨ t.kind = .closeParen := by
  simp only [isBracket, Bool.and_eq_true, Bool.or_eq_true, beq_iff_eq] at h
  exact h.1

theorem Sound.isKeyword_of_reading (ha : a.Sound dialect) (h : a.reading = b.reading)
    (hkeyword : a.isKeyword = true) : b.isKeyword = true := by
  obtain ⟨hkind, htext⟩ := Prod.mk.inj h
  by_contra hb
  rw [Bool.not_eq_true] at hb
  rw [hkeyword, hb, if_pos rfl, if_neg Bool.false_ne_true] at htext
  have hparen : b.kind = .openParen ∨ b.kind = .closeParen := by
    simp only [isKeyword, Bool.or_eq_false_iff] at hb
    simp only [isKeyword, hkind, hb.1, Bool.false_or, Bool.and_eq_true, Bool.or_eq_true,
      beq_iff_eq] at hkeyword
    exact hkeyword.1
  have hbracket : b.isBracket = true := by simpa [isKeyword_of_paren hparen] using hb
  simp only [isBracket, Bool.and_eq_true, Bool.or_eq_true, beq_iff_eq] at hbracket
  refine ha.keyText_ne hkeyword b.text ?_ htext
  simpa [or_assoc] using hbracket.2

/-- The text of a word that opens a block is as long as its key. -/
theorem Sound.length_opener (h : t.Sound dialect) (hopens : t.Opens dialect.lexicon)
    (hkind : t.kind = .openParen) (hkeyword : t.isKeyword = true) :
    t.text.length = t.keyText.length := by
  have hbracket : t.isBracket = false := by
    simpa [isKeyword_of_paren (.inl hkind)] using hkeyword
  obtain ⟨ws, hws⟩ := h.keyword hkeyword
  have hkey := hws.toList_phraseKey
  rw [String.ofList_toList] at hkey
  have hsingle : ∀ c ∈ t.keyText.toList, c ≠ ' ' := by
    have hne := h.keyText_ne hkeyword
    have hopener := hopens hkind hbracket
    rw [Lexicon.opener?, if_neg (by simp [hne])] at hopener
    obtain ⟨opener, hlookup⟩ := Option.isSome_iff_exists.mp hopener
    obtain ⟨l, r, heq, -⟩ := List.lookup_eq_some_iff.mp hlookup
    have hall := List.all_eq_true.mp dialect.openers_single (t.keyText, opener) (by simp [heq])
    simpa using hall
  rw [keyText] at hsingle ⊢
  rw [← String.length_toList, ← String.length_toList]
  rw [hkey] at hsingle ⊢
  -- with more than one word there would be a space in the key
  generalize t.text.toList = cs at hws
  cases hws with
  | word hw => simp
  | more hw hg hrest =>
    rw [List.intercalate_cons_of_ne_nil hrest.ne_nil] at hsingle
    exact absurd rfl (hsingle ' ' (by simp))

theorem sameReading (ha : a.Sound dialect) (hb : b.Sound dialect) (hoa : a.Opens dialect.lexicon)
    (hob : b.Opens dialect.lexicon) (h : a.reading = b.reading) : a.SameReading b := by
  have hkeyword : a.isKeyword = b.isKeyword :=
    Bool.eq_iff_iff.mpr ⟨ha.isKeyword_of_reading h, hb.isKeyword_of_reading h.symm⟩
  obtain ⟨hkind, htext⟩ := Prod.mk.inj h
  rw [← hkeyword] at htext
  have hkey : a.isKeyword = true → a.keyText = b.keyText := by
    intro hk
    simpa [hk] using htext
  have hplain : a.isKeyword = false → a.text = b.text := by
    intro hk
    simpa [hk] using htext
  refine ⟨hkind, hkeyword, hkey, hplain, fun hopen => ?_⟩
  cases hk : a.isKeyword with
  | false => rw [hplain hk]
  | true =>
    rw [ha.length_opener hoa hopen hk, hkey hk,
      ← hb.length_opener hob (hkind ▸ hopen) (hkeyword ▸ hk)]

namespace SameReading

theorem symm (h : a.SameReading b) : b.SameReading a where
  kind := h.kind.symm
  keyword := h.keyword.symm
  key hk := (h.key (h.keyword.trans hk)).symm
  text hk := (h.text (h.keyword.trans hk)).symm
  opener hk := (h.opener (h.kind.trans hk)).symm

theorem isBracket (h : a.SameReading b) : a.isBracket = b.isBracket := by
  by_cases hkind : a.kind = .openParen ∨ a.kind = .closeParen
  · have hkeyword := h.keyword
    rw [isKeyword_of_paren hkind, isKeyword_of_paren (h.kind ▸ hkind)] at hkeyword
    simpa using hkeyword
  · rw [Bool.eq_false_iff.mpr (mt kind_of_isBracket hkind),
      Bool.eq_false_iff.mpr (mt kind_of_isBracket (h.kind ▸ hkind))]

theorem bracketText (h : a.SameReading b) (hbracket : a.isBracket = true) : a.text = b.text :=
  h.text (by rw [isKeyword_of_paren (kind_of_isBracket hbracket), hbracket]; rfl)

theorem breaksLine (h : a.SameReading b) : a.breaksLine = b.breaksLine := by
  have hoperator : a.isOperator ";" = b.isOperator ";" := by
    by_cases hkind : a.kind = .operator
    · have hkeyword : a.isKeyword = false := by simp [isKeyword, hkind, TokenKind.isReserved]
      rw [isOperator, isOperator, h.kind, h.text hkeyword]
    · rw [isOperator, isOperator, ← h.kind, beq_eq_false_iff_ne.mpr hkind, Bool.false_and,
        Bool.false_and]
  rw [Token.breaksLine, Token.breaksLine, h.kind, h.isBracket, hoperator]

theorem outline (h : a.SameReading b) : a.SameOutline b :=
  ⟨h.isBracket, h.bracketText, h.breaksLine⟩

end SameReading

/-- A word that closes a block. -/
def closesBlock (t : Token) : Bool :=
  t.kind == .closeParen && !t.isBracket

/-- The columns that a token takes as a word that closes a block. -/
def closerLength (t : Token) : Nat :=
  if t.closesBlock then t.text.length else 0

/-- Only the words that close blocks may be of other widths. -/
theorem SameReading.width (h : a.SameReading b) :
    a.width + b.closerLength = b.width + a.closerLength := by
  have hcloses : a.closesBlock = b.closesBlock := by
    rw [closesBlock, closesBlock, h.kind, h.isBracket]
  cases hc : a.closesBlock with
  | true =>
    have hkind : a.kind = .closeParen := by
      simp only [closesBlock, Bool.and_eq_true, beq_iff_eq] at hc
      exact hc.1
    have hkind' : b.kind = .closeParen := h.kind ▸ hkind
    simp only [Token.width, closerLength, hc, ← hcloses, hkind, hkind', TokenKind.isReserved,
      beq_iff_eq, reduceCtorEq, if_true, Bool.false_eq_true, if_false]
    omega
  | false =>
    have hwidth : a.width = b.width := by
      simp only [Token.width, ← h.kind]
      split
      · rfl
      · split
        · next hreserved => rw [h.key (by rw [isKeyword, hreserved, Bool.true_or])]
        · next hreserved =>
          by_cases hopen : a.kind = .openParen
          · rw [h.opener hopen]
          · rw [h.text ?_]
            rw [Bool.not_eq_true] at hreserved
            simpa [isKeyword, hreserved, hopen, closesBlock] using hc
    simp only [hwidth, closerLength, ← hcloses, hc, Bool.false_eq_true, if_false]

end Token

namespace Groups

variable {tokens other : List Token} {i j k l : Nat}

/-! ## The scan without white space -/

/-- The scan with other names for the indices. -/
def Scan.map (f : Nat → Nat) (scan : Scan) : Scan :=
  ⟨scan.opened.map fun e => (f e.1, e.2), scan.pairs.map fun p => (f p.1, f p.2)⟩

/-- A step of the scan does not look at the indices. -/
theorem Scan.map_step (f : Nat → Nat) (scan : Scan) (k : Nat) (t : Token) :
    (scan.step k t).map f = (scan.map f).step (f k) t := by
  unfold Scan.step
  by_cases hbracket : t.isBracket = true
  · simp only [hbracket, if_true]
    by_cases htext : (t.text == "(" || t.text == "[") = true
    · simp only [htext, if_true]
      rfl
    · simp only [htext, Bool.false_eq_true, if_false, Scan.map, List.dropWhile_map]
      have hsame : (fun e : Nat × String => e.2 != openingOf t.text) ∘
          (fun e : Nat × String => (f e.1, e.2)) =
          fun e : Nat × String => e.2 != openingOf t.text := rfl
      rw [hsame]
      cases scan.opened.dropWhile (·.2 != openingOf t.text) <;> rfl
  · simp only [hbracket, Bool.false_eq_true, if_false]

/-- The number of solid tokens before an index. -/
def rank (tokens : List Token) (i : Nat) : Nat :=
  (solid (tokens.take i)).length

theorem solid_cons_of_pos {t : Token} (ht : t.kind ≠ .whitespace) (ts : List Token) :
    solid (t :: ts) = t :: solid ts :=
  List.filter_cons_of_pos (by simpa using ht)

theorem solid_cons_of_neg {t : Token} (ht : t.kind = .whitespace) (ts : List Token) :
    solid (t :: ts) = solid ts :=
  List.filter_cons_of_neg (by simpa using ht)

theorem Scan.map_run (f : Nat → Nat) (scan : Scan) {k n : Nat}
    (hf : ∀ m < tokens.length, f (k + m) = n + rank tokens m) :
    (scan.run k tokens).map f = (scan.map f).run n (solid tokens) := by
  induction tokens generalizing scan k n with
  | nil => rfl
  | cons t ts ih =>
    have hk : f k = n := hf 0 (by simp)
    by_cases ht : t.kind = .whitespace
    · have hplain : t.isBracket = false := by simp [Token.isBracket, ht]
      rw [run, scan.step_plain k hplain, solid_cons_of_neg ht]
      refine ih scan fun m hm => ?_
      rw [Nat.add_right_comm, Nat.add_assoc, hf (m + 1) (by simpa using hm), rank,
        List.take_succ_cons, solid_cons_of_neg ht, rank]
    · rw [run, solid_cons_of_pos ht, run, ih (scan.step k t) (n := n + 1), map_step, hk]
      intro m hm
      rw [Nat.add_right_comm, Nat.add_assoc, hf (m + 1) (by simpa using hm), rank,
        List.take_succ_cons, solid_cons_of_pos ht, List.length_cons, rank, Nat.add_right_comm,
        Nat.add_assoc]

/-- Named by rank, the pairs are those of the tokens without white space. -/
theorem map_rank_run (tokens : List Token) :
    (Scan.start.run 0 tokens).map (rank tokens) = Scan.start.run 0 (solid tokens) :=
  Scan.map_run (rank tokens) Scan.start fun m _ => by rw [Nat.zero_add, Nat.zero_add]

/-! ## Ranks -/

theorem rank_succ (hi : tokens[i]? = some t) (ht : t.kind ≠ .whitespace) :
    rank tokens (i + 1) = rank tokens i + 1 := by
  rw [rank, rank, List.take_add_one, hi, Option.toList_some, solid, List.filter_append,
    List.length_append]
  simp [ht, solid]

theorem rank_mono (tokens : List Token) (h : i ≤ k) : rank tokens i ≤ rank tokens k :=
  ((List.take_sublist_take_left h).filter _).length_le

/-- Solid tokens have ranks of their own. -/
theorem rank_injective (hi : tokens[i]? = some a) (ha : a.kind ≠ .whitespace)
    (hk : tokens[k]? = some b) (hb : b.kind ≠ .whitespace) (h : rank tokens i = rank tokens k) :
    i = k := by
  have hsi := rank_succ hi ha
  have hsk := rank_succ hk hb
  rcases Nat.lt_trichotomy i k with hlt | heq | hlt
  · have := rank_mono tokens (i := i + 1) (k := k) hlt
    omega
  · exact heq
  · have := rank_mono tokens (i := k + 1) (k := i) hlt
    omega

theorem solid_split (tokens : List Token) (m : Nat) :
    solid tokens = solid (tokens.take m) ++ solid (tokens.drop m) := by
  rw [solid, solid, solid, ← List.filter_append, List.take_append_drop]

theorem solid_take (tokens : List Token) (m : Nat) :
    solid (tokens.take m) = (solid tokens).take (rank tokens m) := by
  conv_rhs => rw [solid_split tokens m]
  exact (List.take_left' rfl).symm

theorem solid_drop (tokens : List Token) (m : Nat) :
    solid (tokens.drop m) = (solid tokens).drop (rank tokens m) := by
  conv_rhs => rw [solid_split tokens m]
  exact (List.drop_left' rfl).symm

theorem solid_span (tokens : List Token) (hij : i ≤ j + 1) :
    solid (span tokens i j) =
      ((solid tokens).take (rank tokens (j + 1))).drop (rank tokens i) := by
  have hrank : rank (tokens.take (j + 1)) i = rank tokens i := by
    rw [rank, List.take_take, min_eq_left hij, rank]
  rw [span, solid_drop, hrank, solid_take]

/-! ## Groups that correspond -/

/-- The tokens at the two indices are no white space, and as many such tokens stand before one as
before the other. -/
structure Corresponding (tokens other : List Token) (i k : Nat) : Prop where
  left : tokens[i]?.any (·.kind != .whitespace) = true
  right : other[k]?.any (·.kind != .whitespace) = true
  rank : rank tokens i = rank other k

theorem exists_solid (h : tokens[i]?.any (·.kind != .whitespace) = true) :
    ∃ t, tokens[i]? = some t ∧ t.kind ≠ .whitespace := by
  simpa using (Option.any_eq_true ..).mp h

theorem Corresponding.symm (h : Corresponding tokens other i k) : Corresponding other tokens k i :=
  ⟨h.right, h.left, h.rank.symm⟩

theorem Corresponding.rank_succ (h : Corresponding tokens other i k) :
    Groups.rank tokens (i + 1) = Groups.rank other (k + 1) := by
  obtain ⟨t, ht, hkind⟩ := exists_solid h.left
  obtain ⟨u, hu, hkind'⟩ := exists_solid h.right
  rw [Groups.rank_succ ht hkind, Groups.rank_succ hu hkind', h.rank]

/-- The columns of the words in a group that close blocks. -/
def closerColumns (tokens : List Token) (i : Nat) : Nat :=
  match (ofTokens tokens).matchingClose? i with
  | some j => ((solid (span tokens i j)).map Token.closerLength).sum
  | none => 0

theorem solid_of_partners {o c : Token} (h : Partners o c) :
    o.kind ≠ .whitespace ∧ c.kind ≠ .whitespace := by
  have hsolid : ∀ t : Token, t.isBracket = true → t.kind ≠ .whitespace := by
    intro t ht hkind
    simp [Token.isBracket, hkind] at ht
  exact ⟨hsolid o h.opener, hsolid c h.closer⟩

section Same

variable (h : List.Forall₂ Token.SameReading (solid tokens) (solid other))
include h

/-- The closing bracket of a group corresponds to that of the group that corresponds. -/
theorem exists_corresponding (hik : Corresponding tokens other i k)
    (hclose : (ofTokens tokens).matchingClose? i = some j) :
    ∃ l, (ofTokens other).matchingClose? k = some l ∧ Corresponding tokens other j l := by
  obtain ⟨-, o, c, -, hj, hpartners⟩ := partners_of_matchingClose? hclose
  have hpair : (rank tokens i, rank tokens j) ∈
      ((Scan.start.run 0 other).map (rank other)).pairs := by
    rw [map_rank_run, ← Scan.run_congr (h.imp fun _ _ hab => hab.outline), ← map_rank_run]
    exact List.mem_map_of_mem (matchingClose?_eq_some_iff.mp hclose)
  obtain ⟨⟨k', l⟩, hmem, heq⟩ := List.mem_map.mp hpair
  obtain ⟨hi', hl⟩ := Prod.mk.inj heq
  have hclose' := matchingClose?_eq_some_iff.mpr hmem
  obtain ⟨-, o', c', hk', hl', hpartners'⟩ := partners_of_matchingClose? hclose'
  obtain ⟨u, hu, hkind⟩ := exists_solid hik.right
  obtain rfl : k' = k :=
    rank_injective hk' (solid_of_partners hpartners').1 hu hkind (hi'.trans hik.rank)
  refine ⟨l, hclose', ?_, ?_, hl.symm⟩
  · simpa [hj] using (solid_of_partners hpartners).2
  · simpa [hl'] using (solid_of_partners hpartners').2

theorem forall₂_span (hik : Corresponding tokens other i k) (hjl : Corresponding tokens other j l)
    (hij : i < j) (hkl : k < l) :
    List.Forall₂ Token.SameReading (solid (span tokens i j)) (solid (span other k l)) := by
  rw [solid_span tokens (by omega), solid_span other (by omega), hik.rank, hjl.rank_succ]
  exact List.forall₂_drop _ (List.forall₂_take _ h)

end Same

theorem columns_solid (tokens : List Token) : columns (solid tokens) = columns tokens := by
  rw [columns, columns, solid, solid, List.filter_filter]
  simp

theorem columns_add (h : List.Forall₂ Token.SameReading tokens other) :
    (tokens.map Token.width).sum + (other.map Token.closerLength).sum =
      (other.map Token.width).sum + (tokens.map Token.closerLength).sum := by
  induction h with
  | nil => rfl
  | @cons a b as bs hab _ ih =>
    have := hab.width
    simp only [List.map_cons, List.sum_cons]
    omega

/-- White space breaks no line, so that the solid tokens decide. -/
theorem calm_iff (h : List.Forall₂ Token.SameReading (solid tokens) (solid other)) :
    (∀ t ∈ tokens, t.breaksLine = false) ↔ ∀ t ∈ other, t.breaksLine = false := by
  have hsolid : ∀ ts : List Token, (∀ t ∈ ts, t.breaksLine = false) ↔
      ∀ b ∈ (solid ts).map Token.breaksLine, b = false := by
    intro ts
    simp only [solid, List.mem_map, List.mem_filter, bne_iff_ne]
    refine ⟨?_, fun hall t ht => ?_⟩
    · rintro hall _ ⟨t, ⟨ht, -⟩, rfl⟩
      exact hall t ht
    · by_cases hkind : t.kind = .whitespace
      · simp [Token.breaksLine, hkind, TokenKind.breaksInlineGroup, Token.isOperator]
      · exact hall _ ⟨t, ⟨ht, hkind⟩, rfl⟩
  have hmap : (solid tokens).map Token.breaksLine = (solid other).map Token.breaksLine := by
    rw [← List.forall₂_eq_eq_eq, List.forall₂_map_left_iff, List.forall₂_map_right_iff]
    exact h.imp fun _ _ hab => hab.breaksLine
  rw [hsolid, hsolid, hmap]

/-- What groups that correspond have in common. -/
structure SameGroup (tokens other : List Token) (i k : Nat) : Prop where
  /-- Their closing brackets correspond, or none of the two is closed. -/
  closing : Option.Rel (Corresponding tokens other) ((ofTokens tokens).matchingClose? i)
    ((ofTokens other).matchingClose? k)
  width_iff : (ofTokens tokens).width? i = (ofTokens other).width? k ↔
    closerColumns tokens i = closerColumns other k
  fits : closerColumns tokens i = closerColumns other k →
    ∀ available, (ofTokens tokens).fits i available = (ofTokens other).fits k available

theorem sameGroup (h : List.Forall₂ Token.SameReading (solid tokens) (solid other))
    (hik : Corresponding tokens other i k) : SameGroup tokens other i k := by
  cases hclose : (ofTokens tokens).matchingClose? i with
  | some j =>
    obtain ⟨l, hclose', hjl⟩ := exists_corresponding h hik hclose
    have hspan := forall₂_span h hik hjl (lt_length_of_matchingClose? hclose).1
      (lt_length_of_matchingClose? hclose').1
    obtain ⟨w, hw, hcolumns⟩ := width?_eq hclose
    obtain ⟨w', hw', hcolumns'⟩ := width?_eq hclose'
    have hadd := columns_add hspan
    rw [← columns_eq, ← columns_eq, columns_solid, columns_solid, ← hcolumns, ← hcolumns'] at hadd
    have hwidth : w = w' ↔ closerColumns tokens i = closerColumns other k := by
      simp only [closerColumns, hclose, hclose']
      omega
    refine ⟨?_, by rw [hw, hw', Option.some.injEq, hwidth], fun heq available => ?_⟩
    · rw [hclose, hclose']
      exact .some hjl
    · rw [Bool.eq_iff_iff, fits_of_matchingClose? hclose hw, fits_of_matchingClose? hclose' hw',
        calm_iff hspan, hwidth.mpr heq]
  | none =>
    have hclose' : (ofTokens other).matchingClose? k = none := by
      by_contra hne
      obtain ⟨l, hl⟩ := Option.ne_none_iff_exists'.mp hne
      have hflip : List.Forall₂ Token.SameReading (solid other) (solid tokens) :=
        h.flip.imp fun _ _ hab => hab.symm
      obtain ⟨j, hj, -⟩ := exists_corresponding hflip hik.symm hl
      rw [hclose] at hj
      cases hj
    refine ⟨?_, ?_, fun _ available => ?_⟩
    · rw [hclose, hclose']
      exact .none
    · simp [width?, closerColumns, hclose, hclose']
    · simp [fits, inlineWidth?, hclose, hclose']

/-- In texts that read the same, brackets that correspond are closed by brackets that correspond. The
widths of the groups differ by nothing but the columns of the words that close blocks, and where these
take the same columns, the groups fit into the same room. -/
theorem groups_of_same_reading (dialect : Dialect) (text text' : String)
    (hread : (solid (tokenize dialect.lexicon text)).map Token.reading =
      (solid (tokenize dialect.lexicon text')).map Token.reading)
    (hik : Corresponding (tokenize dialect.lexicon text) (tokenize dialect.lexicon text') i k) :
    SameGroup (tokenize dialect.lexicon text) (tokenize dialect.lexicon text') i k := by
  refine sameGroup (List.forall₂_iff_zip.mpr ⟨?_, fun {a b} hab => ?_⟩) hik
  · simpa using congrArg List.length hread
  · have hreading : List.Forall₂ (fun a b : Token => a.reading = b.reading)
        (solid (tokenize dialect.lexicon text)) (solid (tokenize dialect.lexicon text')) := by
      rwa [← List.forall₂_eq_eq_eq, List.forall₂_map_left_iff, List.forall₂_map_right_iff] at hread
    obtain ⟨ha, hb⟩ := List.of_mem_zip hab
    have ha := (List.mem_filter.mp ha).1
    have hb := (List.mem_filter.mp hb).1
    exact Token.sameReading (sound_of_mem dialect _ _ _ a ha) (sound_of_mem dialect _ _ _ b hb)
      (opens_of_mem dialect _ _ _ a ha) (opens_of_mem dialect _ _ _ b hb)
      ((List.forall₂_iff_zip.mp hreading).2 hab)

/-- A call with a `CASE` in it: in another case and with other gaps it is as wide. -/
theorem groups_of_same_reading_case :
    (ofTokens (tokenize Dialect.standard.lexicon "f(CASE WHEN   a END)")).width? 1 = some 19 ∧
      SameGroup (tokenize Dialect.standard.lexicon "f(CASE WHEN   a END)")
        (tokenize Dialect.standard.lexicon "f( case when a end )") 1 1 := by
  have hsource : tokenize Dialect.standard.lexicon "f(CASE WHEN   a END)" =
      [.plain .word "f" 0, .plain .openParen "(" 1, .plain .openParen "CASE" 2,
        .plain .whitespace " " 6, .plain .reservedNewline "WHEN" 7, .plain .whitespace "   " 11,
        .plain .word "a" 14, .plain .whitespace " " 15, .plain .closeParen "END" 16,
        .plain .closeParen ")" 19] := by decide +kernel
  have hother : tokenize Dialect.standard.lexicon "f( case when a end )" =
      [.plain .word "f" 0, .plain .openParen "(" 1, .plain .whitespace " " 2,
        .plain .openParen "case" 3, .plain .whitespace " " 7, .plain .reservedNewline "when" 8,
        .plain .whitespace " " 12, .plain .word "a" 13, .plain .whitespace " " 14,
        .plain .closeParen "end" 15, .plain .whitespace " " 18, .plain .closeParen ")" 19] := by
    decide +kernel
  refine ⟨?_, groups_of_same_reading .standard "f(CASE WHEN   a END)" "f( case when a end )" ?_ ?_⟩
  · rw [hsource]
    decide +kernel
  · rw [hsource, hother]
    decide +kernel
  · rw [hsource, hother]
    exact ⟨by decide, by decide, by decide⟩

/-- The gap in `END    IF` makes the group wider than it is with one space there. -/
theorem width_of_gap_in_closer :
    (solid (tokenize Dialect.postgresql.lexicon "(a END    IF b)")).map Token.reading =
        (solid (tokenize Dialect.postgresql.lexicon "(a END IF b)")).map Token.reading ∧
      Corresponding (tokenize Dialect.postgresql.lexicon "(a END    IF b)")
        (tokenize Dialect.postgresql.lexicon "(a END IF b)") 0 0 ∧
      (ofTokens (tokenize Dialect.postgresql.lexicon "(a END    IF b)")).width? 0 = some 17 ∧
      (ofTokens (tokenize Dialect.postgresql.lexicon "(a END IF b)")).width? 0 = some 14 ∧
      (ofTokens (tokenize Dialect.postgresql.lexicon "(a END    IF b)")).fits 0 (some 14) = false ∧
      (ofTokens (tokenize Dialect.postgresql.lexicon "(a END IF b)")).fits 0 (some 14) = true := by
  have hwide : tokenize Dialect.postgresql.lexicon "(a END    IF b)" =
      [.plain .openParen "(" 0, .plain .word "a" 1, .plain .whitespace " " 2,
        .plain .closeParen "END    IF" 3, .plain .whitespace " " 12, .plain .word "b" 13,
        .plain .closeParen ")" 14] := by decide +kernel
  have hnarrow : tokenize Dialect.postgresql.lexicon "(a END IF b)" =
      [.plain .openParen "(" 0, .plain .word "a" 1, .plain .whitespace " " 2,
        .plain .closeParen "END IF" 3, .plain .whitespace " " 9, .plain .word "b" 10,
        .plain .closeParen ")" 11] := by decide +kernel
  rw [hwide, hnarrow]
  exact ⟨by decide +kernel, ⟨by decide, by decide, by decide⟩, by decide +kernel, by decide +kernel,
    by decide +kernel, by decide +kernel⟩

end Groups

end SqlFormat
