/-
Fillers — spellings of a path that differ in what means nothing.

Paths with the same steps from the same beginning (`SameSteps`) lead to the same directory,
if they lead there at all (`locate_of_sameSteps`).  Two things can keep one of them from it:
the spelling may be too long, and a filler at the end asks for a directory, so `a.less/` does
not lead where `a.less` leads.  A slash behind a text adds a filler (`ofText_slash`), and so
does a `./` before the text of a relative path (`ofText_dot`).
-/
import StyleTypings.Proofs.Files.Kinds
import StyleTypings.Proofs.Files.Slashes

namespace StyleTypings

/-! ## Spellings -/

theorem Text.utf8Size_append (s t : Text) : utf8Size (s ++ t) = utf8Size s + utf8Size t := by
  have from_zero (t : Text) (n : Nat) :
      t.foldl (fun n c => n + c.utf8Size) n = n + utf8Size t := by
    induction t generalizing n with
    | nil => rfl
    | cons c t ih =>
      rw [utf8Size, List.foldl_cons, List.foldl_cons, ih, ih]
      omega
  rw [utf8Size, List.foldl_append, from_zero, ← utf8Size]

theorem Text.utf8Size_le_of_sublist {s t : Text} (h : s.Sublist t) : utf8Size s ≤ utf8Size t := by
  have cons (c : Char) (t : Text) : utf8Size (c :: t) = utf8Size [c] + utf8Size t :=
    utf8Size_append [c] t
  induction h with
  | slnil => exact Nat.le_refl _
  | @cons s t c _ ih =>
    rw [cons c t]
    omega
  | @cons_cons s t c _ ih =>
    rw [cons c s, cons c t]
    omega

/-- A path keeps the spelling that it is read off. -/
theorem Path.text_ofText (t : Text) : (ofText t).text = t := by
  by_cases absolute : t.head? = some '/'
  · obtain ⟨rest, rfl⟩ := List.head?_eq_some_iff.mp absolute
    exact congrArg ('/' :: ·) (Text.joinWith_splitOn '/' rest)
  · rw [ofText_of_head? absolute]
    exact Text.joinWith_splitOn '/' t

namespace Disk

variable {d : Disk}

theorem misspelling?_eq_none {p : Path} : misspelling? p = none ↔
    p.text ≠ [] ∧ '\x00' ∉ p.text ∧ Text.utf8Size p.text < maxPath := by
  rw [misspelling?]
  split
  · rename_i empty
    exact iff_of_false nofun fun h => h.1 (List.isEmpty_iff.mp empty)
  rename_i nonempty
  split
  · rename_i nul
    exact iff_of_false nofun fun h => h.2.1 (by simpa using nul)
  rename_i clean
  split
  · rename_i long
    exact iff_of_false nofun fun h => absurd h.2.2 (by omega)
  · rename_i short
    refine iff_of_true rfl ⟨fun none => nonempty (by simp [none]), by simpa using clean, by omega⟩

/-- What is left of a text that is no misspelling is none. -/
theorem misspelling?_of_sublist {p q : Path} (h : misspelling? p = none)
    (part : q.text.Sublist p.text) (nonempty : q.text ≠ []) : misspelling? q = none := by
  obtain ⟨_, nul, short⟩ := misspelling?_eq_none.mp h
  have smaller := Text.utf8Size_le_of_sublist part
  exact misspelling?_eq_none.mpr ⟨nonempty, fun member => nul (part.subset member), by omega⟩

theorem locate_eq_ok {p : Path} {here : Location} : d.locate p = .ok here ↔
    misspelling? p = none ∧ d.follow p.segments (d.start p) = .ok here := by
  rw [locate]
  cases misspelling? p <;> simp

theorem misspelling?_of_isDirectory {p : Path} (there : d.isDirectory p = true) :
    misspelling? p = none := by
  obtain ⟨here, located, _⟩ := isDirectory_iff.mp there
  exact (locate_eq_ok.mp located).1

theorem contains_iff {p : Path} : d.contains p = true ↔
    ∃ here, d.locate p = .ok here ∧ (d.kind? here).isSome := by
  rw [contains]
  constructor
  · intro there
    cases hentry : d.entry p with
    | error e =>
      rw [hentry] at there
      cases there
    | ok e =>
      obtain ⟨here, located, hat⟩ := entry_eq_ok.mp hentry
      exact ⟨here, located, by rw [kind?_of_at? hat]; rfl⟩
  · rintro ⟨here, located, there⟩
    obtain ⟨k, hk⟩ := Option.isSome_iff_exists.mp there
    obtain ⟨e, hat, _⟩ := at?_of_kind? hk
    rw [entry_eq_ok.mpr ⟨here, located, hat⟩]
    rfl

end Disk

/-! ## Paths with the same steps -/

namespace Path

/-- Paths that differ at most in their fillers, and in what leads them if they are relative. -/
structure SameSteps (p q : Path) : Prop where
  absolute : p.absolute = q.absolute
  steps : p.steps = q.steps

namespace SameSteps

variable {p q : Path}

theorem symm (h : p.SameSteps q) : q.SameSteps p := ⟨h.absolute.symm, h.steps.symm⟩

theorem child (h : p.SameSteps q) (name : Text) : (p.child name).SameSteps (q.child name) := by
  obtain ⟨absolute, steps⟩ := steps_child_filter p name
  obtain ⟨absolute', steps'⟩ := steps_child_filter q name
  exact ⟨by rw [absolute, absolute', h.absolute], by rw [steps, steps', h.steps]⟩

theorem normalize_eq (h : p.SameSteps q) : p.normalize = q.normalize := by
  by_cases none : p.steps = []
  · rw [normalize_of_steps none, normalize_of_steps (h.steps ▸ none), h.absolute]
  · rw [Path.normalize_eq none, Path.normalize_eq (h.steps ▸ none), h.absolute, h.steps]

end SameSteps

/-- A slash behind a path adds a filler. -/
theorem ofText_slash {t : Text} (nonempty : t ≠ []) :
    (ofText (t ++ ['/'])).SameSteps (ofText t) := by
  have more (absolute : Bool) (u : Text) :
      SameSteps ⟨absolute, (u ++ ['/']).splitOn '/'⟩ ⟨absolute, u.splitOn '/'⟩ := by
    rcases (u.splitOn '/').eq_nil_or_concat with none | ⟨before, last, hu⟩
    · exact absurd none (List.splitOn_ne_nil '/' u)
    · rw [List.concat_eq_append] at hu
      rw [Text.splitOn_append hu (by rfl : ['/'].splitOn '/' = [[], []]), List.append_nil, hu]
      exact ⟨rfl, by simp [steps, isFiller, List.filter_cons]⟩
  by_cases absolute : t.head? = some '/'
  · obtain ⟨rest, rfl⟩ := List.head?_eq_some_iff.mp absolute
    exact more true rest
  · have absolute' : (t ++ ['/']).head? ≠ some '/' := by
      rwa [List.head?_append_of_ne_nil t nonempty]
    rw [ofText_of_head? absolute, ofText_of_head? absolute']
    exact more false t

/-- A point and a slash before a relative path add a filler. -/
theorem ofText_dot {t : Text} (relative : t.head? ≠ some '/') :
    (ofText ('.' :: '/' :: t)).SameSteps (ofText t) := by
  have without : ∀ part ∈ [['.']], '/' ∉ part := by decide
  have more : ('.' :: '/' :: t).splitOn '/' = ['.'] :: t.splitOn '/' := Text.splitOn_flatMap without t
  rw [ofText_of_head? relative, ofText_of_head? (by simp), more]
  exact ⟨rfl, rfl⟩

end Path

namespace Disk

variable {d : Disk} {p q : Path} {here : Location}

/-- Fillers do not keep a path from a directory, if it can be spelled. -/
theorem locate_of_sameSteps (same : p.SameSteps q) (located : d.locate p = .ok here)
    (directory : d.kind? here = some .directory) (spelled : misspelling? q = none) :
    d.locate q = .ok here := by
  have leads := leads_of_locate located
  rw [Leads, same.steps, start, same.absolute] at leads
  exact locate_eq_ok.mpr ⟨spelled, follow_of_steps leads fun _ _ _ => directory⟩

theorem isDirectory_of_sameSteps (same : p.SameSteps q) (there : d.isDirectory p = true)
    (spelled : misspelling? q = none) : d.isDirectory q = true ∧ d.entry q = d.entry p := by
  obtain ⟨here, located, directory⟩ := isDirectory_iff.mp there
  have located' := locate_of_sameSteps same located directory spelled
  refine ⟨isDirectory_iff.mpr ⟨here, located', directory⟩, ?_⟩
  rw [entry, entry, located, located']

end Disk

end StyleTypings
