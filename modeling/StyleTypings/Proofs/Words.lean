/-
Words — texts with one space between their words.

Collapsing a text changes nothing but its blanks (`countP_collapse_le`), and it changes
nothing at all in a text that is `Tidy`: words with one space between neighbours.
-/
import StyleTypings.Text.Basic
import Mathlib.Data.List.Basic

namespace StyleTypings

theorem ne_of_isBlank {b c : Char} (hb : isBlank b = true) (hc : isBlank c = false) : b ≠ c := by
  rintro rfl
  exact absurd (hb.symm.trans hc) (by decide)

/-- The code points of the blanks. -/
def blankCodes : List Nat :=
  List.range' 0x9 5 ++ [0x20, 0x85, 0xA0, 0x1680] ++ List.range' 0x2000 11 ++
    [0x2028, 0x2029, 0x202F, 0x205F, 0x3000]

/-- What can be checked of one blank after the other holds of all. -/
theorem forall_blank {P : Char → Prop} (h : ∀ n ∈ blankCodes, P (Char.ofNat n)) {b : Char}
    (hb : isBlank b = true) : P b := by
  have listed : b.toNat ∈ blankCodes := by
    simp only [isBlank, Bool.or_eq_true, Bool.and_eq_true, decide_eq_true_eq, beq_iff_eq] at hb
    simp only [blankCodes, List.mem_append, List.mem_range'_1, List.mem_cons, List.not_mem_nil,
      or_false]
    omega
  rw [← Char.ofNat_toNat b]
  exact h _ listed

end StyleTypings

namespace StyleTypings.Text

theorem forall_eq_false {p : Char → Bool} {t : Text} (h : t.any p = false) :
    ∀ c ∈ t, p c = false :=
  fun c hc => Bool.eq_false_iff.mpr (List.any_eq_false.mp h c hc)

/-- Where a text goes on with a character that does not occur in what it begins with, it has
gone through all of that. -/
theorem exists_of_append_eq {a s u v : Text} {c : Char} (h : a ++ s = u ++ c :: v) (hc : c ∉ a) :
    ∃ w, u = a ++ w ∧ s = w ++ c :: v := by
  rcases List.append_eq_append_iff.mp h with ⟨w, hu, hs⟩ | ⟨w, ha, hv⟩
  · exact ⟨w, hu, hs⟩
  · cases w with
    | nil => exact ⟨[], by simpa using ha.symm, hv.symm⟩
    | cons d w =>
      rw [(List.cons.inj hv).1, ha] at hc
      exact absurd (List.mem_append_right u List.mem_cons_self) hc

/-! ## The words of a text -/

/-- At a blank the words before and after are the words of two texts. -/
theorem words_append_blank {b : Char} (hb : isBlank b = true) (s t : Text) :
    words (s ++ b :: t) = words s ++ words t := by
  unfold words
  rw [List.splitOnP_append_cons s t hb, List.filter_append]

theorem words_nil : words [] = [] := by
  simp [words]

/-- A text without blanks is one word. -/
theorem words_of_forall {w : Text} (hne : w ≠ []) (h : ∀ c ∈ w, isBlank c = false) :
    words w = [w] := by
  rw [words, List.splitOnP_eq_singleton h]
  simp [hne]

theorem flatten_splitOnP (p : Char → Bool) (t : Text) :
    (t.splitOnP p).flatten = t.filter (! p ·) := by
  induction t with
  | nil => rfl
  | cons c rest ih =>
    rw [List.splitOnP_cons_eq_if_modifyHead]
    cases hp : p c with
    | true => simp [hp, ih]
    | false =>
      obtain ⟨part, parts, hparts⟩ := List.exists_cons_of_ne_nil (List.splitOnP_ne_nil p rest)
      rw [hparts] at ih ⊢
      simp [hp, ← ih]

/-- The words of a text make up the text without its blanks. -/
theorem flatten_words (t : Text) : (words t).flatten = t.filter (! isBlank ·) := by
  rw [words, ← flatten_splitOnP]
  generalize t.splitOnP isBlank = parts
  induction parts with
  | nil => rfl
  | cons part parts ih =>
    cases part with
    | nil => simpa using ih
    | cons c part => simp [ih]

/-! ## Collapsing -/

theorem collapse_append_blank {b : Char} (hb : isBlank b = true) (t : Text) :
    collapse (t ++ [b]) = collapse t := by
  rw [collapse, words_append_blank hb, words_nil, List.append_nil, collapse]

theorem filter_joinWith_space {p : Char → Bool} (hp : p ' ' = false) (parts : List Text) :
    (joinWith [' '] parts).filter p = parts.flatten.filter p := by
  induction parts with
  | nil => rfl
  | cons part parts ih =>
    cases parts with
    | nil => simp [joinWith]
    | cons next parts =>
      rw [joinWith, List.filter_append, List.filter_append, ih]
      · simp [hp]
      · exact nofun

/-- Collapsing a text adds no characters but spaces. -/
theorem countP_collapse_le {p : Char → Bool} (hp : p ' ' = false) (t : Text) :
    (collapse t).countP p ≤ t.countP p := by
  rw [List.countP_eq_length_filter, collapse, filter_joinWith_space hp, flatten_words,
    ← List.countP_eq_length_filter]
  exact List.filter_sublist.countP_le

/-- What is no blank stays when a text is collapsed. -/
theorem filter_collapse {p : Char → Bool} (hp : ∀ b, isBlank b = true → p b = false) (t : Text) :
    (collapse t).filter p = t.filter p := by
  rw [collapse, filter_joinWith_space (hp ' ' rfl), flatten_words, List.filter_filter]
  refine List.filter_congr fun c _ => ?_
  cases blank : isBlank c with
  | true => simp [hp c blank]
  | false => simp

/-- Words with one space between neighbours. -/
inductive Tidy : Text → Prop where
  | word {w : Text} (hne : w ≠ []) (h : ∀ c ∈ w, isBlank c = false) : Tidy w
  | more {w t : Text} (hne : w ≠ []) (h : ∀ c ∈ w, isBlank c = false) (rest : Tidy t) :
    Tidy (w ++ ' ' :: t)

theorem Tidy.words_ne_nil {t : Text} (h : Tidy t) : words t ≠ [] := by
  cases h with
  | word hne h => simp [words_of_forall hne h]
  | more hne h _ => simp [words_append_blank (b := ' ') rfl, words_of_forall hne h]

/-- Collapsing leaves a tidy text as it is. -/
theorem Tidy.collapse_eq {t : Text} (h : Tidy t) : collapse t = t := by
  induction h with
  | word hne h => simp [collapse, words_of_forall hne h, joinWith]
  | @more w t hne h rest ih =>
    obtain ⟨next, others, hwords⟩ := List.exists_cons_of_ne_nil rest.words_ne_nil
    have hjoin : joinWith [' '] (next :: others) = t := by rw [← hwords]; exact ih
    rw [collapse, words_append_blank (b := ' ') rfl, words_of_forall hne h, hwords]
    show joinWith [' '] (w :: next :: others) = _
    rw [joinWith, hjoin]
    · simp
    · exact nofun

/-- A tidy text stays so with characters that are not blank before it. -/
theorem Tidy.append {w t : Text} (hw : ∀ c ∈ w, isBlank c = false) (h : Tidy t) :
    Tidy (w ++ t) := by
  cases h with
  | word hne h =>
    refine .word (by simp [hne]) fun c hc => ?_
    rcases List.mem_append.mp hc with hc | hc
    · exact hw c hc
    · exact h c hc
  | @more v t hne h rest =>
    rw [← List.append_assoc]
    refine .more (by simp [hne]) (fun c hc => ?_) rest
    rcases List.mem_append.mp hc with hc | hc
    · exact hw c hc
    · exact h c hc

end StyleTypings.Text
