/-
Splitting — a list and its parts.

No character is lost where a list is cut, and none is cut off from the wrong part: the parts
with a separator between neighbours are the list again (`Parts.joinWith_eq`).  Lists can be
cut one after the other: where a text leaves nothing open, a separator behind it cuts, and
what follows is cut as if nothing stood before it (`Parts.append`).

What a text leaves open is what all its characters leave open, and the separators in it are
among them.  The scan begins anew behind a separator that cuts, so the two come to the same
only if a separator by itself opens nothing and closes nothing.  A quote as a separator would
do both: `'"'` leaves nothing open, but cut at single quotes it ends inside a string.
-/
import StyleTypings.Proofs.Files.Slashes
import StyleTypings.Proofs.Separators

namespace StyleTypings.Less

theorem Openness.through_append (s : Openness) (t u : Text) :
    s.through (t ++ u) = (s.through t).through u := List.foldl_append

/-- The characters that open something or close something. -/
def Openness.marks : Text := ['\\', '"', '\'', '(', '[', ')', ']']

/-- Where nothing is open, no other character opens anything. -/
theorem Openness.after_of_not_mem_marks {c : Char} (h : c ∉ marks) : none.after c = none := by
  simp only [marks, List.mem_cons, List.not_mem_nil, or_false, not_or] at h
  simp [after, none, Text.isQuote, h]

namespace Parts

variable {separator : Char} {s : Openness} {t : Text} {parts : List Text}

theorem ne_nil (h : Parts separator s t parts) : parts ≠ [] := by
  cases h <;> exact List.cons_ne_nil _ _

/-- The parts, with a separator between neighbours, are the text. -/
theorem joinWith_eq (h : Parts separator s t parts) : Text.joinWith [separator] parts = t := by
  induction h with
  | last uncut => rfl
  | cut uncut closed later ih =>
    rw [Text.joinWith_cons _ _ later.ne_nil, ih, List.append_assoc, List.singleton_append]

/-- A separator behind a text that leaves nothing open begins new parts. -/
theorem append (plain : separator ∉ Openness.marks) (h : Parts separator s t parts)
    (closed : s.through t = .none) {rest : Text} {others : List Text}
    (later : Parts separator .none rest others) :
    Parts separator s (t ++ separator :: rest) (parts ++ others) := by
  induction h with
  | last uncut => exact .cut uncut closed later
  | @cut s t inner parts uncut cut _ ih =>
    -- The scan is where it would be if it had read the separator as well.
    have inside : Openness.none.through inner = .none := by
      rw [Openness.through_append, cut, Openness.through, List.foldl_cons,
        Openness.after_of_not_mem_marks plain] at closed
      exact closed
    rw [List.append_assoc, List.cons_append, List.cons_append]
    exact .cut uncut cut (ih inside)

end Parts

/-- A list is its parts with separators between them.  Cutting two lists with a separator
between them gives the parts of the first and then those of the second, if the first leaves no
string, no bracket and no escape open. -/
theorem splitTop_recombines {separator : Char} (plain : separator ∉ Openness.marks) :
    (∀ t, Text.joinWith [separator] (splitTop separator t) = t) ∧
      ∀ a b, Openness.none.through a = .none →
        splitTop separator (a ++ separator :: b) = splitTop separator a ++ splitTop separator b := by
  constructor
  · intro t
    exact (parts_splitFrom separator .none t).joinWith_eq
  · intro a b closed
    have first := parts_splitFrom separator .none a
    have second := parts_splitFrom separator .none b
    exact (parts_iff.mp (first.append plain closed second)).symm

/-- Commas in a string and in brackets, and an escaped one; behind them a bracket that nothing
opens, which changes nothing. -/
theorem splitTop_recombines_nested :
    let a : Text := "a, :not(b, [c=\",]\"]), d\\,)"
    let b : Text := "e\", f"
    ',' ∉ Openness.marks ∧ Openness.none.through a = .none ∧
      splitTop ',' a = ["a", " :not(b, [c=\",]\"])", " d\\,)"] ∧
      splitTop ',' (a ++ ',' :: b) = ["a", " :not(b, [c=\",]\"])", " d\\,)", "e\", f"] ∧
      Text.joinWith [','] (splitTop ',' b) = b := by
  intro a b
  have plain : ',' ∉ Openness.marks := by decide
  have closed : Openness.none.through a = .none := by decide
  obtain ⟨joined, appended⟩ := splitTop_recombines plain
  refine ⟨plain, closed, by decide, ?_, joined b⟩
  rw [appended a b closed]
  decide

end StyleTypings.Less
