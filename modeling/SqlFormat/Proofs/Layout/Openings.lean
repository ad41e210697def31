import Mathlib
import SqlFormat.Layout.Step
import SqlFormat.Proofs.Token.Sound

/-!
# Well-nested tokens

Which openers are open after some tokens, read off the tokens alone: an opener opens a block, but for
the `BEGIN` that continues the block of a `DECLARE`, and a closer has to close the innermost one. A
semicolon may stand in a procedural block only, or outside all blocks. Tokens are well nested if nothing
is open at the end.

Results: `Opening.all?_append`, `Token.Opens` (what the lexer calls an opener opens something).
-/

namespace SqlFormat

open Layout.State (closerKey)

/-- The key belongs to an opener of a procedural block. -/
def Lexicon.opensBlock (lexicon : Lexicon) (key : String) : Bool :=
  (lexicon.opener? key).any (·.context == .procedural)

/-- An opener whose block is open. -/
structure Opening where
  /-- The number of tokens before the opener. -/
  place : Nat
  key : String
deriving DecidableEq, Repr

namespace Opening

/-- The token is a `BEGIN` that continues the block of a `DECLARE`. -/
def continuedBy (o : Opening) (t : Token) : Bool :=
  !t.isBracket && t.keyText == "begin" && o.key == "declare"

/-- The openers that are open after an opener, innermost first. -/
def push (opened : List Opening) (i : Nat) (t : Token) : List Opening :=
  match opened with
  | o :: outer =>
    if o.continuedBy t then ⟨o.place, t.keyText⟩ :: outer else ⟨i, closerKey t⟩ :: o :: outer
  | [] => [⟨i, closerKey t⟩]

theorem push_of_new {opened : List Opening} {t : Token}
    (h : ∀ o ∈ opened.head?, o.continuedBy t = false) (i : Nat) :
    push opened i t = ⟨i, closerKey t⟩ :: opened := by
  cases opened with
  | nil => rfl
  | cons o outer => rw [push, h o rfl, if_neg Bool.false_ne_true]

/-- The openers that are open after a closer. It has to close the innermost. -/
def pop? (lexicon : Lexicon) (opened : List Opening) (t : Token) : Option (List Opening) :=
  match opened with
  | o :: outer => if lexicon.closes (closerKey t) o.key then some outer else none
  | [] => none

/-- The openers that are open after a token with `i` tokens before it. No semicolon may stand in a
bracket or a `CASE`. -/
def step? (lexicon : Lexicon) (opened : List Opening) (i : Nat) (t : Token) :
    Option (List Opening) :=
  match t.kind with
  | .openParen => some (push opened i t)
  | .closeParen => pop? lexicon opened t
  | .operator =>
    if t.text == ";" && opened.head?.any (!lexicon.opensBlock ·.key) then none else some opened
  | _ => some opened

/-- The openers that are open after some tokens, if the tokens are well nested so far. -/
def all? (lexicon : Lexicon) (tokens : List Token) : Option (List Opening) :=
  tokens.zipIdx.foldlM (fun opened t => step? lexicon opened t.2 t.1) []

theorem all?_take (lexicon : Lexicon) {tokens : List Token} (h : (all? lexicon tokens).isSome = true)
    (k : Nat) : (all? lexicon (tokens.take k)).isSome = true := by
  rw [← List.take_append_drop k tokens, all?, List.zipIdx_append, List.foldlM_append] at h
  rw [all?]
  cases hk : (tokens.take k).zipIdx.foldlM (fun opened t => step? lexicon opened t.2 t.1) [] with
  | some opened => rfl
  | none =>
    rw [hk] at h
    cases h

theorem all?_append (lexicon : Lexicon) (tokens : List Token) (t : Token) :
    all? lexicon (tokens ++ [t]) =
      (all? lexicon tokens).bind fun opened => step? lexicon opened tokens.length t := by
  rw [all?, List.zipIdx_append, List.foldlM_append, all?]
  simp only [Nat.zero_add, List.zipIdx_singleton, List.foldlM_cons, List.foldlM_nil,
    Option.bind_eq_bind, Option.pure_def, Option.bind_fun_some]

/-- At no place are more openers open than may have a frame, and no `BEGIN` continues the block of a
`DECLARE` where so many are open. -/
structure Roomy (lexicon : Lexicon) (tokens : List Token) : Prop where
  bounded : ∀ k ≤ tokens.length, ∀ opened ∈ all? lexicon (tokens.take k),
    opened.length ≤ Layout.maxDepth
  continued : ∀ (k : Nat) (hk : k < tokens.length), ∀ opened ∈ all? lexicon (tokens.take k),
    ∀ o ∈ opened.head?, tokens[k].kind = .openParen → o.continuedBy tokens[k] = true →
      opened.length < Layout.maxDepth

end Opening

/-- In every dialect `BEGIN` and `DECLARE` open procedural blocks, where they open anything. -/
theorem Dialect.opensBlock_of_known (dialect : Dialect) {key : String}
    (hkey : key = "begin" ∨ key = "declare") (h : (dialect.lexicon.opener? key).isSome = true) :
    dialect.lexicon.opensBlock key = true := by
  rcases hkey with rfl | rfl <;> cases dialect <;> first | rfl | cases h

/-! ## What the lexer calls an opener -/

/-- An opener opens something. -/
def Token.Opens (lexicon : Lexicon) (t : Token) : Prop :=
  t.kind = .openParen → t.isBracket = false → (lexicon.opener? t.keyText).isSome = true

open Lexer

theorem Lexicon.openers_of_classify {lexicon : Lexicon} {key : String}
    (h : lexicon.classify key = some .openParen) : (lexicon.openers.lookup key).isSome = true := by
  unfold Lexicon.classify at h
  split_ifs at h <;> first | assumption | cases h

theorem Reads.opens {dialect : Dialect} {memory : Memory} {text : List Char} {found : Lexeme}
    (h : Reads dialect.lexicon memory text found) (pos : Nat) :
    (found.token text pos).Opens dialect.lexicon := by
  intro hkind hbracket
  obtain ⟨-, halpha, kind, key, hw, heq⟩ :=
    h.keyword pos (by rw [Token.isKeyword, hkind, hbracket]; rfl)
  obtain ⟨hmem, hclass⟩ := keyword?_eq_some hw
  -- a keyword is read as an opener only if it is one in the lexicon
  obtain rfl : kind = .openParen := by
    have hfound : found.kind = .openParen := hkind
    rw [heq] at hfound
    simp only [Lexeme.plain, Memory.refine] at hfound
    split at hfound
    · cases hfound
    · exact hfound
  have hkey : (found.token text pos).keyText = key := phraseKey_of_keyword hw halpha
  rw [hkey, Lexicon.opener?]
  split
  · rfl
  · exact Lexicon.openers_of_classify hclass

theorem opens_of_mem (dialect : Dialect) (memory : Memory) (pos : Nat) (text : List Char) :
    ∀ t ∈ tokensFrom dialect.lexicon memory pos text, t.Opens dialect.lexicon :=
  forall_mem_of_cut dialect (fun _ pos _ _ _ h => Reads.opens h pos) memory pos text

/-- Values are put in for placeholders only. -/
theorem Token.Opens.substitute {lexicon : Lexicon} {t : Token} (h : t.Opens lexicon)
    (params : Parameters) : (params.substitute t).Opens lexicon := by
  unfold Parameters.substitute
  split
  · next hplaceholder =>
    split
    · intro hkind
      have hopen : t.kind = .openParen := hkind
      rw [hopen] at hplaceholder
      cases hplaceholder
    · exact h
  · exact h

end SqlFormat
