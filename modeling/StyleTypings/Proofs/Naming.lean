/-
Naming — which texts are read as names.

A reader takes as much of a name as there is (`takeName?_eq_some_iff`).  What it finds, and
when it finds anything, is said here once for each of the readers that are built on it.
-/
import StyleTypings.Less.Naming
import StyleTypings.Proofs.Words
import Mathlib.Data.List.TakeWhile

namespace StyleTypings.Less

/-! ## Characters of names -/

theorem isBlank_of_isNameChar {c : Char} (h : isNameChar c = true) : isBlank c = false := by
  by_contra blank
  rw [Bool.not_eq_false] at blank
  have none := forall_blank (P := fun c => isNameChar c = false) (by decide +kernel) blank
  exact absurd (h.symm.trans none) (by decide)

/-- Blanks are no letters, digits, hyphens or underscores. -/
theorem isBlank_of_isIdentChar {c : Char} (h : isIdentChar c = true) : isBlank c = false := by
  by_contra blank
  rw [Bool.not_eq_false] at blank
  have none := forall_blank (P := fun c => isIdentChar c = false) (by decide +kernel) blank
  exact absurd (h.symm.trans none) (by decide)

/-! ## Readers -/

variable {t name after : Text}

theorem takeName?_eq_some_iff : takeName? t = some (name, after) ↔
    name ≠ [] ∧ t.takeWhile isNameChar = name ∧ t.dropWhile isNameChar = after := by
  rw [takeName?]
  cases h : t.takeWhile isNameChar with
  | nil => simp +contextual [eq_comm]
  | cons c u =>
    rw [Option.some.injEq, Prod.mk.injEq]
    exact (and_iff_right_of_imp fun ⟨hname, _⟩ => hname ▸ List.cons_ne_nil c u).symm

theorem takeName?_append (ne : name ≠ []) (all : ∀ c ∈ name, isNameChar c = true)
    (stop : ∀ c ∈ after.head?, isNameChar c = false) :
    takeName? (name ++ after) = some (name, after) := by
  rw [takeName?_eq_some_iff, List.takeWhile_append_of_pos all, List.dropWhile_append_of_pos all]
  cases after with
  | nil => simp [ne]
  | cons c after => simp [ne, stop c rfl]

theorem takeVariable?_eq_some (h : takeVariable? t = some (name, after)) :
    ∃ u, t = '@' :: u ∧ takeName? u = some (name, after) := by
  unfold takeVariable? at h
  split at h
  · exact ⟨_, rfl, h⟩
  · cases h

/-- The rest behind a mixin name. -/
theorem takeMixinName?_eq_some (h : takeMixinName? t = some (name, after)) :
    ∃ c u, t = c :: u ∧ after = u.dropWhile isNameChar := by
  unfold takeMixinName? at h
  split at h
  · rename_i c u
    split at h
    · obtain ⟨⟨_, _⟩, taken, heq⟩ := Option.map_eq_some_iff.mp h
      cases heq
      exact ⟨c, u, rfl, (takeName?_eq_some_iff.mp taken).2.2.symm⟩
    · cases h
  · cases h

/-- The whole of a text is a variable if it is the sign with letters, numbers, hyphens and
underscores. -/
theorem variableName?_eq_some_iff : variableName? t = some name ↔
    t = '@' :: name ∧ name ≠ [] ∧ ∀ c ∈ name, isIdentChar c = true := by
  unfold variableName?
  split
  · rename_i u
    rw [Option.ite_none_right_eq_some, Option.some.injEq, Bool.and_eq_true, Bool.not_eq_true',
      List.isEmpty_eq_false_iff, List.all_eq_true, List.cons.injEq]
    constructor
    · rintro ⟨h, rfl⟩
      exact ⟨⟨rfl, rfl⟩, h⟩
    · rintro ⟨⟨_, rfl⟩, h⟩
      exact ⟨h, rfl⟩
  · rename_i sign
    exact iff_of_false nofun fun same => sign _ same.1

/-- A name ends where blanks and a colon follow. -/
theorem isNameChar_head_of_colon {value : Text} (h : Text.trimLeft after = ':' :: value) :
    ∀ c ∈ after.head?, isNameChar c = false := by
  cases after with
  | nil => cases h
  | cons c after =>
    rintro _ ⟨⟩
    cases blank : isBlank c with
    | true =>
      rw [← Bool.not_eq_true]
      intro part
      exact absurd (blank.symm.trans (isBlank_of_isNameChar part)) (by decide)
    | false =>
      rw [Text.trimLeft, List.dropWhile_cons_of_neg (by simp [blank])] at h
      cases h
      decide +kernel

/-- An assignment is a variable with a value behind a colon. -/
theorem assignment?_eq_some_iff {value : Text} : assignment? t = some (name, value) ↔
    ∃ after written, t = '@' :: (name ++ after) ∧ name ≠ [] ∧ (∀ c ∈ name, isNameChar c = true) ∧
      Text.trimLeft after = ':' :: written ∧ value = Text.trim written := by
  constructor
  · intro h
    rw [assignment?] at h
    split at h
    · rename_i taken
      split at h
      · rename_i colon
        cases h
        obtain ⟨u, rfl, hu⟩ := takeVariable?_eq_some taken
        obtain ⟨ne, rfl, rfl⟩ := takeName?_eq_some_iff.mp hu
        exact ⟨_, _, by rw [List.takeWhile_append_dropWhile], ne,
          fun c hc => List.mem_takeWhile_imp hc, colon, rfl⟩
      · cases h
    · cases h
  · rintro ⟨after, written, rfl, ne, all, colon, rfl⟩
    rw [assignment?, takeVariable?, takeName?_append ne all (isNameChar_head_of_colon colon)]
    simp only [colon]

end StyleTypings.Less
