import Mathlib
import SqlFormat.Proofs.Token.Delimiter

/-!
# Edges of tokens, and operators

A token is written directly before another only if that one starts with one of a few characters: the
edges. How long an operator is depends on its first three characters, and hardly any edge makes a
longer one of it.

Results: `operator_stop`, `operator_closedEdge`.
-/

namespace SqlFormat

open Text

namespace Lexer

variable {r : List Char}

/-- The characters that a token may stand directly before, unless it is an opening bracket or an
operator: blanks, brackets, and the operators that follow what is before them. -/
def edges : List Char :=
  [' ', '\t', '\n', '\x0c', '\r', '(', ')', '[', ']', ',', ';', '.', ':', '%']

/-- The text starts with such a character, or is empty. -/
def AtEdge (r : List Char) : Prop :=
  ∀ c ∈ r.head?, c ∈ edges

theorem AtEdge.any {p : Char → Bool} (h : AtEdge r) (hp : edges.all (!p ·) = true) :
    r.head?.any p = false := by
  cases r with
  | nil => rfl
  | cons c r => simpa using List.all_eq_true.mp hp c (h c rfl)

theorem AtEdge.ne (h : AtEdge r) {c : Char} (hc : c ∉ edges) : r.head? ≠ some c :=
  fun heq => hc (h c heq)

/-- What may stand directly after an operator that a space belongs after: blanks, closing brackets
and the operators that follow what is before them. -/
def closedEdges : List Char :=
  [' ', '\t', '\n', '\x0c', '\r', ')', ']', ',', ';', '.', ':', '%']

/-- The text starts with such a character, or is empty. -/
def AtClosedEdge (r : List Char) : Prop :=
  ∀ c ∈ r.head?, c ∈ closedEdges

theorem AtClosedEdge.any {p : Char → Bool} (h : AtClosedEdge r)
    (hp : closedEdges.all (!p ·) = true) : r.head?.any p = false := by
  cases r with
  | nil => rfl
  | cons c r => simpa using List.all_eq_true.mp hp c (h c rfl)

theorem AtClosedEdge.atEdge (h : AtClosedEdge r) : AtEdge r := by
  intro c hc
  have hsub : ∀ c ∈ closedEdges, c ∈ edges := forall_mem_of_all (by decide)
  exact hsub c (h c hc)

theorem atClosedEdge_blank (h : ∀ c ∈ r.head?, isBlank c = true) : AtClosedEdge r := by
  intro c hc
  have := h c hc
  simp only [isBlank, Bool.or_eq_true, beq_iff_eq] at this
  rcases this with (((rfl | rfl) | rfl) | rfl) | rfl <;> decide

end Lexer

namespace Scan

open Lexer (closedEdges AtClosedEdge)

/-- An operator of three characters. -/
def isTriple (l : List Char) : Bool :=
  tripleOperators.any (·.toList == l)

/-- An operator of two characters. -/
def isDouble (l : List Char) : Bool :=
  doubleOperators.any (·.toList == l)

variable {t r r' : List Char}

theorem any_isPrefixOf {ops : List String} {n : Nat} (h : ∀ op ∈ ops, op.toList.length = n)
    (cs : List Char) :
    ops.any (·.toList.isPrefixOf cs) = ops.any (·.toList == cs.take n) := by
  rw [Bool.eq_iff_iff, List.any_eq_true, List.any_eq_true]
  refine exists_congr fun op => and_congr_right fun hop => ?_
  rw [List.isPrefixOf_iff_prefix, List.prefix_iff_eq_take, h op hop, beq_iff_eq]

theorem compoundOperator_eq (cs : List Char) : compoundOperator cs =
    if isTriple (cs.take 3) then 3 else if isDouble (cs.take 2) then 2 else 0 := by
  rw [compoundOperator, any_isPrefixOf (n := 3) (by simp [tripleOperators]),
    any_isPrefixOf (n := 2) (by simp [doubleOperators])]
  rfl

/-- What holds of all operators of three characters in the table. -/
theorem isTriple_imp {p : List Char → Prop} (hp : ∀ op ∈ tripleOperators, p op.toList)
    {l : List Char} (h : isTriple l = true) : p l := by
  obtain ⟨op, hop, heq⟩ := List.any_eq_true.mp h
  exact beq_iff_eq.mp heq ▸ hp op hop

theorem isDouble_imp {p : List Char → Prop} (hp : ∀ op ∈ doubleOperators, p op.toList)
    {l : List Char} (h : isDouble l = true) : p l := by
  obtain ⟨op, hop, heq⟩ := List.any_eq_true.mp h
  exact beq_iff_eq.mp heq ▸ hp op hop

theorem isTriple_length {l : List Char} (h : isTriple l = true) : l.length = 3 :=
  isTriple_imp (p := fun l => l.length = 3) (by decide) h

theorem isDouble_length {l : List Char} (h : isDouble l = true) : l.length = 2 :=
  isDouble_imp (p := fun l => l.length = 2) (by decide) h

/-- No operator of several characters starts with a dollar sign. -/
theorem compoundOperator_dollar (cs : List Char) : compoundOperator ('$' :: cs) = 0 := by
  have ht : isTriple (('$' :: cs).take 3) = false := by
    rw [Bool.eq_false_iff]
    intro h
    exact isTriple_imp (p := fun l => l.head? ≠ some '$') (by decide) h rfl
  have hd : isDouble (('$' :: cs).take 2) = false := by
    rw [Bool.eq_false_iff]
    intro h
    exact isDouble_imp (p := fun l => l.head? ≠ some '$') (by decide) h rfl
  rw [compoundOperator_eq, ht, hd]
  rfl

/-- An operator as it was read: one character, or one of the table. -/
theorem operator_cases (h : max 1 (compoundOperator (t ++ r)) = t.length) :
    (∃ a, t = [a]) ∨ (isDouble t = true ∧ t.length = 2) ∨ (isTriple t = true ∧ t.length = 3) := by
  rw [compoundOperator_eq] at h
  split at h
  · next ht =>
    have hlen : t.length = 3 := h.symm
    rw [List.take_left' hlen] at ht
    exact .inr (.inr ⟨ht, hlen⟩)
  · split at h
    · next hd =>
      have hlen : t.length = 2 := h.symm
      rw [List.take_left' hlen] at hd
      exact .inr (.inl ⟨hd, hlen⟩)
    · exact .inl (List.length_eq_one_iff.mp h.symm)

/-- An operator ends where it did if it makes no longer one with what follows. -/
theorem operator_stop (h : max 1 (compoundOperator (t ++ r)) = t.length)
    (hdouble : t.length = 1 → isDouble ((t ++ r').take 2) = false)
    (htriple : t.length ≤ 2 → isTriple ((t ++ r').take 3) = false) :
    max 1 (compoundOperator (t ++ r')) = t.length := by
  rw [compoundOperator_eq]
  rcases operator_cases h with ⟨a, rfl⟩ | ⟨hd, hlen⟩ | ⟨ht, hlen⟩
  · rw [hdouble rfl, htriple (by simp)]
    rfl
  · rw [htriple (by omega), List.take_left' hlen, hd, hlen]
    rfl
  · rw [List.take_left' hlen, ht, hlen]
    rfl

/-- No closed edge is the second or third character of an operator of three, and as a second one of
two it repeats the first. -/
theorem isTriple_edge {l : List Char} (h : isTriple l = true) : ∀ c ∈ l.drop 1, c ∉ closedEdges :=
  forall_mem_of_all
    (isTriple_imp (p := fun l => ((l.drop 1).all fun c => decide (c ∉ closedEdges)) = true)
      (by decide) h)

/-- An operator before a closed edge, unless the two make an operator of two characters. -/
theorem operator_closedEdge (h : max 1 (compoundOperator (t ++ r)) = t.length)
    (hr : AtClosedEdge r')
    (hdouble : ∀ a c, t = [a] → r'.head? = some c → isDouble [a, c] = false) :
    max 1 (compoundOperator (t ++ r')) = t.length := by
  have hne : t ≠ [] := by
    rintro rfl
    simp at h
  refine operator_stop h (fun hlen => ?_) fun hlen => ?_
  · obtain ⟨a, rfl⟩ := List.length_eq_one_iff.mp hlen
    cases r' with
    | nil =>
      rw [Bool.eq_false_iff]
      intro hd
      exact absurd (isDouble_length hd) (by simp)
    | cons c r' => exact hdouble a c rfl rfl
  · rw [Bool.eq_false_iff]
    intro ht
    cases r' with
    | nil =>
      have := isTriple_length ht
      simp only [List.append_nil, List.length_take] at this
      omega
    | cons c r' =>
      refine isTriple_edge ht c ?_ (hr c rfl)
      match t, hne with
      | [a], _ => simp
      | [a, b], _ => simp
      | a :: b :: d :: t, _ => simp at hlen

theorem isDouble_blank {a c : Char} (hc : isBlank c = true) : isDouble [a, c] = false := by
  rw [Bool.eq_false_iff]
  intro h
  have hall := isDouble_imp (p := fun l => (l.all fun c => decide (isBlank c = false)) = true)
    (by decide) h
  have := forall_mem_of_all hall c (by simp)
  rw [this] at hc
  cases hc

theorem isDouble_alpha {a c : Char} (hc : c.isAlpha = true) : isDouble [a, c] = false := by
  rw [Bool.eq_false_iff]
  intro h
  have hall := isDouble_imp (p := fun l => (l.all fun c => decide (c.isAlpha = false)) = true)
    (by decide) h
  have := forall_mem_of_all hall c (by simp)
  rw [this] at hc
  cases hc

/-! ## Where the search for an operator stops -/

variable {marker : List Char} {c : Char}

/-- A character that a marker does not hold ends the search for it. -/
theorem isPrefixOf_stop (h : c ∉ marker) (t r : List Char) :
    marker.isPrefixOf (t ++ c :: r) = marker.isPrefixOf t := by
  induction marker generalizing t with
  | nil => simp
  | cons m marker ih =>
    have hne : m ≠ c := fun heq => h (heq ▸ List.mem_cons_self)
    cases t with
    | nil => simp [List.isPrefixOf, hne]
    | cons d t =>
      rw [List.cons_append, List.isPrefixOf_cons_cons, List.isPrefixOf_cons_cons,
        ih (fun hmem => h (List.mem_cons_of_mem _ hmem))]

/-- The character is in no sign: it is a letter or white space. -/
def stopsSign (c : Char) : Bool :=
  c.isAlpha || isWhite c

theorem any_isPrefixOf_stop (hc : stopsSign c = true) {markers : List String}
    (hmarkers : (markers.all fun m => m.toList.all (!stopsSign ·)) = true) (t r : List Char) :
    markers.any (·.toList.isPrefixOf (t ++ c :: r)) = markers.any (·.toList.isPrefixOf t) := by
  have hnone : ∀ m ∈ markers, c ∉ m.toList := by
    intro m hm hmem
    have hsign := List.all_eq_true.mp (List.all_eq_true.mp hmarkers m hm) c hmem
    rw [hc] at hsign
    cases hsign
  rw [Bool.eq_iff_iff, List.any_eq_true, List.any_eq_true]
  refine exists_congr fun m => and_congr_right fun hm => ?_
  rw [isPrefixOf_stop (hnone m hm)]

theorem compoundOperator_stop (hc : stopsSign c = true) (t r : List Char) :
    compoundOperator (t ++ c :: r) = compoundOperator t := by
  rw [compoundOperator, compoundOperator, any_isPrefixOf_stop hc (by decide),
    any_isPrefixOf_stop hc (by decide)]

theorem startsBlockComment_stop (hc : stopsSign c = true) (t r : List Char) :
    startsBlockComment (t ++ c :: r) = startsBlockComment t := by
  refine isPrefixOf_stop (fun hmem => ?_) t r
  have hsigns : ∀ d ∈ ['/', '*'], stopsSign d = false := forall_mem_of_all (by decide)
  exact Bool.false_ne_true ((hsigns c hmem).symm.trans hc)

end Scan

end SqlFormat
