import Mathlib
import SqlFormat.Color
import SqlFormat.Proofs.Text.Trim

/-!
# Coloured text and plain text

A text in colour is read together with the same text without colour, as a list of spans that each have a
kind. If no span holds an escape character, removing the control sequences gives the plain text. If no
coloured span is empty or ends with white space, trimming takes the same from both texts.

Results: `visible_painted`, `exists_trimmed`.
-/

namespace SqlFormat

open Text

/-- A piece of text, coloured as its kind is. -/
structure Span where
  kind : TokenKind
  text : String

namespace Span

/-- The characters of the span in its colour. -/
def painted (s : Span) : List Char :=
  (Ansi.decorate s.kind s.text).toList

/-- The characters of spans in their colours. -/
def paintAll (spans : List Span) : List Char :=
  spans.flatMap painted

/-- The characters of spans without colour. -/
def plainAll (spans : List Span) : List Char :=
  spans.flatMap fun s => s.text.toList

/-- The span can be told from its control sequences, and ends where they end. -/
structure Good (s : Span) : Prop where
  escape : '\x1b' ∉ s.text.toList
  coloured : (Ansi.attributes? s.kind).isSome = true → s.text ≠ "" ∧ Trimmed s.text.toList

variable {s : Span} {spans : List Span} {u v : List Span}

theorem paintAll_append (u v : List Span) : paintAll (u ++ v) = paintAll u ++ paintAll v :=
  List.flatMap_append

theorem plainAll_append (u v : List Span) : plainAll (u ++ v) = plainAll u ++ plainAll v :=
  List.flatMap_append

theorem paintAll_cons (s : Span) (spans : List Span) :
    paintAll (s :: spans) = s.painted ++ paintAll spans := List.flatMap_cons

theorem plainAll_cons (s : Span) (spans : List Span) :
    plainAll (s :: spans) = s.text.toList ++ plainAll spans := List.flatMap_cons

theorem paintAll_singleton (s : Span) : paintAll [s] = s.painted := List.append_nil _

theorem plainAll_singleton (s : Span) : plainAll [s] = s.text.toList := List.append_nil _

/-- A span of white space. -/
def blank (text : String) : Span := ⟨.whitespace, text⟩

theorem painted_blank (text : String) : (blank text).painted = text.toList := rfl

theorem good_blank {text : String} (h : '\x1b' ∉ text.toList) : (blank text).Good :=
  ⟨h, fun habs => by cases habs⟩

/-! ## Control sequences -/

theorem visible_of_ne {c : Char} (h : c ≠ '\x1b') (cs : List Char) :
    Ansi.visible (c :: cs) = c :: Ansi.visible cs := by
  rw [Ansi.visible.eq_def]
  simp [h]

theorem visible_escape (cs : List Char) :
    Ansi.visible ('\x1b' :: '[' :: cs) = Ansi.visible (Ansi.afterSequence cs) := by
  rw [Ansi.visible.eq_def]
  simp

theorem visible_append {cs : List Char} (h : '\x1b' ∉ cs) (ds : List Char) :
    Ansi.visible (cs ++ ds) = cs ++ Ansi.visible ds := by
  induction cs with
  | nil => rfl
  | cons c cs ih =>
    rw [List.mem_cons, not_or] at h
    rw [List.cons_append, visible_of_ne (Ne.symm h.1), ih h.2]
    rfl

theorem visible_sequence {code : String} (h : ∀ c ∈ code.toList, c.isAlpha = false) (ds : List Char) :
    Ansi.visible ((Ansi.sequence code).toList ++ ds) = Ansi.visible ds := by
  have hafter : ∀ cs : List Char, (∀ c ∈ cs, c.isAlpha = false) →
      Ansi.afterSequence (cs ++ 'm' :: ds) = ds := by
    intro cs hcs
    induction cs with
    | nil => rfl
    | cons c cs ih =>
      rw [List.cons_append, Ansi.afterSequence, hcs c (by simp), if_neg Bool.false_ne_true]
      exact ih fun d hd => hcs d (List.mem_cons_of_mem c hd)
  have hsequence : (Ansi.sequence code).toList ++ ds =
      '\x1b' :: '[' :: (code.toList ++ 'm' :: ds) := by
    simp [Ansi.sequence]
  rw [hsequence, visible_escape, hafter code.toList h]

theorem visible_reset (ds : List Char) :
    Ansi.visible (Ansi.reset.toList ++ ds) = Ansi.visible ds :=
  visible_sequence (by simp) ds

/-- The attributes that are in use. -/
theorem mem_attributes {kind : TokenKind} {attributes : String}
    (h : Ansi.attributes? kind = some attributes) :
    attributes ∈ [Ansi.bold ++ Ansi.blue, Ansi.dimmed, Ansi.yellow, Ansi.green, Ansi.magenta] := by
  unfold Ansi.attributes? at h
  split_ifs at h
  · rw [← Option.some.inj h]; simp
  · rw [← Option.some.inj h]; simp
  · rw [← Option.some.inj h]; simp
  · split at h
    · rw [← Option.some.inj h]; simp
    · rw [← Option.some.inj h]; simp
    · cases h

theorem visible_attributes {kind : TokenKind} {attributes : String}
    (h : Ansi.attributes? kind = some attributes) (ds : List Char) :
    Ansi.visible (attributes.toList ++ ds) = Ansi.visible ds := by
  have hmem := mem_attributes h
  simp only [List.mem_cons, List.not_mem_nil, or_false] at hmem
  rcases hmem with rfl | rfl | rfl | rfl | rfl
  · rw [String.toList_append, List.append_assoc, Ansi.bold, visible_sequence (by simp), Ansi.blue,
      visible_sequence (by simp)]
  all_goals exact visible_sequence (by simp) ds

/-- The characters of a coloured span. -/
theorem painted_eq {attributes : String} (h : Ansi.attributes? s.kind = some attributes) :
    s.painted = Ansi.reset.toList ++ attributes.toList ++ s.text.toList ++ Ansi.reset.toList := by
  rw [painted, Ansi.decorate, h]
  simp only [Ansi.paint, String.toList_append]

theorem painted_of_none (h : Ansi.attributes? s.kind = none) : s.painted = s.text.toList := by
  rw [painted, Ansi.decorate, h]

/-- **Removing the control sequences gives the plain text.** -/
theorem visible_painted (h : ∀ s ∈ spans, s.Good) :
    Ansi.visible (paintAll spans) = plainAll spans := by
  induction spans with
  | nil =>
    change Ansi.visible [] = []
    rw [Ansi.visible.eq_def]
  | cons s spans ih =>
    have hrest := ih fun t ht => h t (List.mem_cons_of_mem s ht)
    have hescape := (h s List.mem_cons_self).escape
    rw [paintAll_cons, plainAll_cons, ← hrest]
    cases hkind : Ansi.attributes? s.kind with
    | none => rw [painted_of_none hkind, visible_append hescape]
    | some attributes =>
      simp only [painted_eq hkind, List.append_assoc]
      rw [visible_reset, visible_attributes hkind, visible_append hescape, visible_reset]

/-! ## Nothing but colour -/

theorem mem_painted {c : Char} (h : c ∈ s.text.toList) : c ∈ s.painted := by
  cases hkind : Ansi.attributes? s.kind with
  | none => rwa [painted_of_none hkind]
  | some attributes =>
    rw [painted_eq hkind]
    simp [h]

/-- Line feeds are in the text only. -/
theorem newline_mem_painted : '\n' ∈ s.painted ↔ '\n' ∈ s.text.toList := by
  refine ⟨fun h => ?_, mem_painted⟩
  cases hkind : Ansi.attributes? s.kind with
  | none => rwa [painted_of_none hkind] at h
  | some attributes =>
    have hcodes : '\n' ∉ attributes.toList ∧ '\n' ∉ Ansi.reset.toList := by
      refine ⟨?_, by decide⟩
      have hall : ∀ code ∈ [Ansi.bold ++ Ansi.blue, Ansi.dimmed, Ansi.yellow, Ansi.green,
          Ansi.magenta], '\n' ∉ code.toList := by decide
      exact hall attributes (mem_attributes hkind)
    rw [painted_eq hkind] at h
    simpa [hcodes] using h

/-- Colour makes nothing of nothing. -/
theorem Good.painted_eq_nil (h : s.Good) : s.painted = [] ↔ s.text = "" := by
  cases hkind : Ansi.attributes? s.kind with
  | none => rw [painted_of_none hkind, String.toList_eq_nil_iff]
  | some attributes =>
    have hne := (h.coloured (by rw [hkind]; rfl)).1
    rw [painted_eq hkind]
    simp [hne]

theorem paintAll_eq_nil (h : ∀ s ∈ spans, s.Good) : paintAll spans = [] ↔ plainAll spans = [] := by
  simp only [paintAll, plainAll, List.flatMap_eq_nil_iff]
  refine forall₂_congr fun s hs => ?_
  rw [(h s hs).painted_eq_nil, String.toList_eq_nil_iff]

/-! ## Trimming -/

theorem painted_trimmed {attributes : String} (h : Ansi.attributes? s.kind = some attributes) :
    Trimmed s.painted ∧ s.painted ≠ [] := by
  have hlast : s.painted.getLast? = some 'm' := by
    rw [painted_eq h, List.getLast?_append]
    rfl
  refine ⟨trimmed_of_getLast? hlast (by decide), fun hnil => ?_⟩
  rw [hnil] at hlast
  cases hlast

/-- **Trimming takes the same** from a text in colour and from the same text without colour. -/
theorem exists_trimmed (h : ∀ s ∈ spans, s.Good) : ∃ rest : List Span, (∀ s ∈ rest, s.Good) ∧
    dropWhileEnd isWhite (paintAll spans) = paintAll rest ∧
    dropWhileEnd isWhite (plainAll spans) = plainAll rest := by
  induction spans using List.reverseRecOn with
  | nil => exact ⟨[], by simp, rfl, rfl⟩
  | append_singleton spans s ih =>
    have hspans : ∀ t ∈ spans, t.Good := fun t ht => h t (List.mem_append_left _ ht)
    have hs : s.Good := h s (by simp)
    rw [paintAll_append, plainAll_append, paintAll_singleton, plainAll_singleton]
    cases hkind : Ansi.attributes? s.kind with
    | some attributes =>
      obtain ⟨hne, htrimmed⟩ := hs.coloured (by rw [hkind]; rfl)
      obtain ⟨hpainted, hpainted'⟩ := painted_trimmed hkind
      refine ⟨spans ++ [s], h, ?_, ?_⟩
      · rw [paintAll_append, paintAll_singleton, dropWhileEnd_append hpainted hpainted']
      · rw [plainAll_append, plainAll_singleton, dropWhileEnd_append htrimmed (by simpa using hne)]
    | none =>
      rw [painted_of_none hkind]
      by_cases hnil : dropWhileEnd isWhite s.text.toList = []
      · -- the span goes away
        obtain ⟨w, htext, hw⟩ := dropWhileEnd_spec isWhite s.text.toList
        rw [hnil, List.nil_append] at htext
        rw [htext, dropWhileEnd_append_white _ hw, dropWhileEnd_append_white _ hw]
        exact ih hspans
      · -- something of the span stays
        obtain ⟨w, htext, -⟩ := dropWhileEnd_spec isWhite s.text.toList
        have hgood : (⟨s.kind, trimEnd s.text⟩ : Span).Good := by
          refine ⟨fun hmem => hs.escape ?_, fun habs => ?_⟩
          · rw [trimEnd, String.toList_ofList] at hmem
            rw [htext]
            exact List.mem_append_left _ hmem
          · change (Ansi.attributes? s.kind).isSome = true at habs
            rw [hkind] at habs
            cases habs
        have hplain : Ansi.attributes? (⟨s.kind, trimEnd s.text⟩ : Span).kind = none := hkind
        have hpainted : (⟨s.kind, trimEnd s.text⟩ : Span).painted =
            dropWhileEnd isWhite s.text.toList := by
          rw [painted_of_none hplain, trimEnd, String.toList_ofList]
        refine ⟨spans ++ [⟨s.kind, trimEnd s.text⟩], ?_, ?_, ?_⟩
        · intro t ht
          rcases List.mem_append.mp ht with ht | ht
          · exact hspans t ht
          · obtain rfl := List.mem_singleton.mp ht
            exact hgood
        · rw [paintAll_append, paintAll_singleton, hpainted, dropWhileEnd_append_of_ne hnil]
        · rw [plainAll_append, plainAll_singleton, dropWhileEnd_append_of_ne hnil, trimEnd,
            String.toList_ofList]

end Span

end SqlFormat
