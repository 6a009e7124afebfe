/-
Separators — where a list is cut, said without the scan.

A separator cuts where the characters before it leave nothing open: no backslash, no string
and no bracket.  The parts of a list are what stands between the separators that cut
(`Parts`).  There is one way to cut a list like that, and the scan finds it
(`parts_iff`).
-/
import StyleTypings.Less.Splitting
import Mathlib.Tactic.Common

namespace StyleTypings.Less

/-- What is open after the characters of a text. -/
def Openness.through (s : Openness) (t : Text) : Openness := t.foldl Openness.after s

/-- A string stays open until its quote. -/
theorem Openness.after_in_string {quote c : Char} (ne : c ≠ quote) (unescaped : c ≠ '\\')
    (depth : Nat) : after ⟨false, some quote, depth⟩ c = ⟨false, some quote, depth⟩ := by
  simp [after, ne, unescaped]

/-- Every separator in a text stands where something is open, given what is open before the
text. -/
def Uncut (separator : Char) (s : Openness) (t : Text) : Prop :=
  ∀ before after, t = before ++ separator :: after → s.through before ≠ .none

/-- The parts of a text between the separators that stand where nothing is open. -/
inductive Parts (separator : Char) : Openness → Text → List Text → Prop where
  | last {s : Openness} {t : Text} (uncut : Uncut separator s t) : Parts separator s t [t]
  | cut {s : Openness} {t rest : Text} {parts : List Text} (uncut : Uncut separator s t)
      (closed : s.through t = .none) (later : Parts separator .none rest parts) :
    Parts separator s (t ++ separator :: rest) (t :: parts)

variable {separator : Char} {s : Openness} {t : Text}

namespace Uncut

theorem nil : Uncut separator s [] := by
  intro before after h
  cases before <;> cases h

theorem cons_iff {c : Char} :
    Uncut separator s (c :: t) ↔ ¬ (s = .none ∧ c = separator) ∧ Uncut separator (s.after c) t := by
  constructor
  · intro h
    refine ⟨?_, fun before after ht => h (c :: before) after (by rw [ht, List.cons_append])⟩
    rintro ⟨rfl, rfl⟩
    exact h [] t rfl rfl
  · rintro ⟨first, later⟩ before after ht
    cases before with
    | nil =>
      obtain ⟨same, _⟩ := List.cons.inj ht
      exact fun closed => first ⟨closed, same⟩
    | cons d before =>
      obtain ⟨rfl, rest⟩ := List.cons.inj ht
      exact later before after rest

end Uncut

/-! ## The scan -/

theorem splitFrom_cons_of_open {c : Char} (h : ¬ (s = .none ∧ c = separator)) (t : Text) :
    splitFrom separator s (c :: t) = consFirst c (splitFrom separator (s.after c) t) := by
  rw [splitFrom, if_neg (by simpa using h)]

/-- A character before a list stands before its first part. -/
theorem Parts.consFirst {c : Char} (h : ¬ (s = .none ∧ c = separator)) {parts : List Text}
    (later : Parts separator (s.after c) t parts) :
    Parts separator s (c :: t) (consFirst c parts) := by
  cases later with
  | last uncut => exact .last (Uncut.cons_iff.mpr ⟨h, uncut⟩)
  | cut uncut closed later => exact .cut (Uncut.cons_iff.mpr ⟨h, uncut⟩) closed later

theorem parts_splitFrom (separator : Char) (s : Openness) (t : Text) :
    Parts separator s t (splitFrom separator s t) := by
  induction t generalizing s with
  | nil => exact .last .nil
  | cons c t ih =>
    by_cases h : s = .none ∧ c = separator
    · obtain ⟨rfl, rfl⟩ := h
      rw [splitFrom, if_pos (by simp)]
      exact .cut .nil rfl (ih .none)
    · rw [splitFrom_cons_of_open h]
      exact (ih (s.after c)).consFirst h

/-- Up to a separator that cuts there is one part. -/
theorem splitFrom_append (uncut : Uncut separator s t) (closed : s.through t = .none)
    (rest : Text) :
    splitFrom separator s (t ++ separator :: rest) = t :: splitFrom separator .none rest := by
  induction t generalizing s with
  | nil =>
    obtain rfl : s = .none := closed
    rw [List.nil_append, splitFrom, if_pos (by simp)]
  | cons c t ih =>
    obtain ⟨first, later⟩ := Uncut.cons_iff.mp uncut
    rw [List.cons_append, splitFrom_cons_of_open first, ih later closed]
    rfl

theorem splitFrom_of_uncut (uncut : Uncut separator s t) : splitFrom separator s t = [t] := by
  induction t generalizing s with
  | nil => rfl
  | cons c t ih =>
    obtain ⟨first, later⟩ := Uncut.cons_iff.mp uncut
    rw [splitFrom_cons_of_open first, ih later]
    rfl

/-- The scan finds the parts, and there are no others. -/
theorem parts_iff {parts : List Text} :
    Parts separator s t parts ↔ parts = splitFrom separator s t := by
  constructor
  · intro h
    induction h with
    | last uncut => exact (splitFrom_of_uncut uncut).symm
    | cut uncut closed _ ih => rw [splitFrom_append uncut closed, ih]
  · rintro rfl
    exact parts_splitFrom separator s t

end StyleTypings.Less
