/-
Ancestors — the paths above a path.

The path above another has all of its parts but the last (`parts_parent?`), and there is none
above the root or above nothing at all (`parts_of_parent?_eq_none`).  So a path can be climbed
as often as it has parts besides the root, and each time it loses one (`map_parts_climb?`).

Only the parts say so.  The spelling of what remains is kept, and a `.` is a part where it
begins a path and nothing elsewhere, so the segments do not go one by one: above `a/./b/` is
`a`, and above `./b` is `.`, with the empty path above that.

An entry has a shorter path the higher up it is looked for: what is written for it above is left
of what is written below (`text_child_parent?`).
-/
import StyleTypings.Proofs.Files.Slashes
import Mathlib.Data.List.DropRight

namespace StyleTypings.Path

/-! ## Fillers at the end -/

theorem dropFillers_suffix (absolute : Bool) (reversed : List Text) :
    dropFillers absolute reversed <:+ reversed := by
  fun_induction dropFillers absolute reversed with
  | case1 => exact List.suffix_rfl
  | case2 => exact List.nil_suffix
  | case3 => exact List.suffix_rfl
  | case4 s rest _ _ ih => exact ih.trans (List.suffix_cons s rest)
  | case5 => exact List.suffix_rfl

/-- What remains ends in a step, or it is the point that begins a relative path. -/
theorem cases_of_dropFillers {absolute : Bool} {reversed before : List Text} {s : Text}
    (h : dropFillers absolute reversed = s :: before) :
    isFiller s = false ∨ s = ['.'] ∧ absolute = false ∧ before = [] := by
  fun_induction dropFillers absolute reversed with
  | case1 | case2 => cases h
  | case3 s kept =>
    cases h
    by_cases point : s = ['.']
    · subst point
      exact .inr ⟨rfl, by simpa using kept, rfl⟩
    · simp only [Bool.or_eq_true, not_or] at kept
      exact .inl (by simp [isFiller, kept.1, point])
  | case4 s rest _ _ ih => exact ih h
  | case5 s rest _ step =>
    cases h
    exact .inl (by simpa using step)

theorem steps_ofReversed (absolute : Bool) (reversed : List Text) :
    (ofReversed absolute reversed).steps = reversed.reverse.filter (! isFiller ·) := by
  cases reversed with
  | nil => rfl
  | cons s rest => rfl

/-- The segments after the first add their steps to the parts. -/
theorem parts_concat (absolute : Bool) {before : List Text} (h : before ≠ []) (s : Text) :
    parts ⟨absolute, before ++ [s]⟩ =
      parts ⟨absolute, before⟩ ++ ([s].filter (! isFiller ·)).map partOf := by
  obtain ⟨first, rest, rfl⟩ := List.exists_cons_of_ne_nil h
  rw [parts_eq, parts_eq, steps_append, List.map_append, List.append_assoc]
  rfl

/-- Fillers at the end are no parts. -/
theorem parts_ofReversed_dropFillers (absolute : Bool) (reversed : List Text) :
    (ofReversed absolute (dropFillers absolute reversed)).parts =
      parts ⟨absolute, reversed.reverse⟩ := by
  fun_induction dropFillers absolute reversed with
  | case1 => cases absolute <;> rfl
  | case2 s dropped =>
    rw [Bool.or_eq_true, Bool.and_eq_true, List.isEmpty_iff, beq_iff_eq] at dropped
    rcases dropped with rfl | ⟨rfl, rfl⟩
    · cases absolute <;> rfl
    · rfl
  | case3 => rfl
  | case4 s rest more filler ih =>
    have none : ([s].filter (! isFiller ·)).map partOf = [] := by simp [filler]
    rw [ih, List.reverse_cons, parts_concat absolute (by simpa using more), none, List.append_nil]
  | case5 => rfl

/-! ## The path above -/

/-- The path above another is led to by the first of its steps. -/
theorem steps_parent? {p q : Path} (h : p.parent? = some q) :
    q.absolute = p.absolute ∧ q.steps <+: p.steps := by
  rw [parent?] at h
  split at h
  · cases h
  · rename_i last before dropped
    cases h
    have ends : dropFillers p.absolute before <:+ p.segments.reverse := by
      have whole := dropFillers_suffix p.absolute p.segments.reverse
      rw [dropped] at whole
      exact ((dropFillers_suffix _ before).trans (List.suffix_cons last before)).trans whole
    refine ⟨rfl, ?_⟩
    rw [steps_ofReversed, steps]
    have begins := List.reverse_prefix.mpr ends
    rw [List.reverse_reverse] at begins
    exact begins.filter _

/-- The parts of a path, read off what its fillers leave. -/
theorem parts_eq_of_dropFillers {p : Path} {reversed : List Text}
    (h : dropFillers p.absolute p.segments.reverse = reversed) :
    p.parts = (ofReversed p.absolute reversed).parts := by
  rw [← h, parts_ofReversed_dropFillers, List.reverse_reverse]

/-- Above a path is the path without its last part. -/
theorem parts_parent? {p q : Path} (h : p.parent? = some q) :
    ∃ part, part ≠ .root ∧ p.parts = q.parts ++ [part] := by
  rw [parent?] at h
  split at h
  · cases h
  · rename_i s before dropped
    cases h
    have parts : p.parts = Path.parts ⟨p.absolute, before.reverse ++ [s]⟩ := by
      rw [parts_eq_of_dropFillers dropped, ofReversed, if_neg (by simp), List.reverse_cons]
    rw [parts, parts_ofReversed_dropFillers]
    rcases cases_of_dropFillers dropped with step | ⟨rfl, relative, rfl⟩
    · refine ⟨partOf s, partOf_ne_root s, ?_⟩
      have single : ([s].filter (! isFiller ·)).map partOf = [partOf s] := by simp [step]
      rcases before.eq_nil_or_concat with rfl | ⟨_, _, rfl⟩
      · have noPoint : s ≠ ['.'] := by
          rintro rfl
          cases step
        rw [parts_eq, parts_eq, steps, List.reverse_nil, List.nil_append, single]
        simp [leading, steps, noPoint]
      · rw [parts_concat _ (by simp), single]
    · refine ⟨.current, by decide, ?_⟩
      rw [relative]
      rfl

theorem parts_of_parent?_eq_none {p : Path} (h : p.parent? = none) :
    p.parts = if p.absolute then [.root] else [] := by
  rw [parent?] at h
  split at h
  · rename_i dropped
    rw [parts_eq_of_dropFillers dropped]
    cases p.absolute <;> rfl
  · cases h

/-! ## Climbing -/

/-- How many parts a path has besides the root. -/
def depth (p : Path) : Nat := p.parts.countP (· != .root)

theorem depth_parent? {p q : Path} (h : p.parent? = some q) : p.depth = q.depth + 1 := by
  obtain ⟨part, notRoot, parts⟩ := parts_parent? h
  rw [depth, depth, parts, List.countP_append]
  simp [notRoot]

theorem depth_of_parent?_eq_none {p : Path} (h : p.parent? = none) : p.depth = 0 := by
  rw [depth, parts_of_parent?_eq_none h]
  cases p.absolute <;> rfl

theorem depth_le (p : Path) : p.depth ≤ p.segments.length := by
  obtain ⟨absolute, segments⟩ := p
  have steps (rest : List Text) : (partsAfter rest).length ≤ rest.length := by
    rw [partsAfter, List.length_map]
    exact List.length_filter_le ..
  rw [depth, parts]
  split
  · rw [List.countP_cons_of_neg (by simp)]
    exact List.countP_le_length.trans (steps segments)
  · split
    · rename_i rest begins
      obtain rfl : segments = ['.'] :: rest := begins
      have others := (List.countP_le_length (p := (· != Part.root))).trans (steps rest)
      rw [List.countP_cons, List.length_cons]
      simpa using others
    · exact List.countP_le_length.trans (steps _)

/-- What is above a path, so many steps up. -/
def climb? : Nat → Path → Option Path
  | 0, p => some p
  | k + 1, p => p.parent?.bind (climb? k)

/-- Climbing takes the last parts off, one by one, until there are none but the root. -/
theorem map_parts_climb? (k : Nat) (p : Path) :
    (p.climb? k).map parts = if k ≤ p.depth then some (p.parts.rdrop k) else none := by
  induction k generalizing p with
  | zero => simp [climb?]
  | succ k ih =>
    rw [climb?]
    cases above : p.parent? with
    | none => simp [depth_of_parent?_eq_none above]
    | some q =>
      obtain ⟨part, _, parts⟩ := parts_parent? above
      rw [Option.bind_some, ih q, depth_parent? above, parts, List.rdrop_concat_succ]
      simp only [Nat.add_le_add_iff_right]

/-! ## Spellings of entries -/

theorem dropLast_segments_of_isEmpty {p : Path} (h : p.isEmpty = true) :
    p.segments.dropLast = [] := by
  rw [isEmpty, text, List.isEmpty_iff, List.append_eq_nil_iff] at h
  rcases segments : p.segments with _ | ⟨s, _ | ⟨t, rest⟩⟩
  · rfl
  · rfl
  · simp [segments, Text.joinWith] at h

/-- Entries of a directory have paths that differ in what the names are only. -/
theorem text_child (directory : Path) :
    ∃ before, ∀ name, (directory.child name).text = before ++ name := by
  have written (absolute : Bool) (segments : List Text) :
      ∃ before, ∀ name, text ⟨absolute, segments ++ [name]⟩ = before ++ name := by
    refine ⟨(if absolute then ['/'] else []) ++ segments.flatMap (· ++ ['/']), fun name => ?_⟩
    rw [text, Text.joinWith_append ['/'] segments (List.cons_ne_nil name []), List.append_assoc]
    rfl
  by_cases empty : directory.isEmpty = true
  · refine ⟨[], fun name => ?_⟩
    rw [child, join, if_neg Bool.false_ne_true, if_pos empty]
    rfl
  · simp only [child, join, if_neg Bool.false_ne_true, if_neg empty]
    split
    · exact written _ _
    · exact written _ _

/-- The path of an entry has the segments of the directory and its name, where the last of the
segments may be missing. -/
theorem segments_child (directory : Path) (name : Text) :
    (directory.segments.dropLast ++ [name]).Sublist (directory.child name).segments := by
  rw [child, join, if_neg Bool.false_ne_true]
  split
  · rename_i empty
    rw [dropLast_segments_of_isEmpty empty]
    exact List.Sublist.refl _
  · split
    · exact List.Sublist.refl _
    · exact (List.dropLast_sublist _).append (List.Sublist.refl _)

theorem child_of_getLast? {directory : Path} {s : Text}
    (last : directory.segments.getLast? = some s) (named : s ≠ []) (name : Text) :
    directory.child name = ⟨directory.absolute, directory.segments ++ [name]⟩ := by
  obtain ⟨before, segments⟩ := List.getLast?_eq_some_iff.mp last
  have written : ¬ directory.isEmpty = true := by
    have ends := Text.joinWith_suffix ['/'] before (List.cons_ne_nil s [])
    rw [isEmpty, text, segments, List.isEmpty_iff, List.append_eq_nil_iff]
    rintro ⟨_, none⟩
    rw [none] at ends
    exact named (List.suffix_nil.mp ends)
  rw [child, join, if_neg Bool.false_ne_true, if_neg written, last]
  split
  · rename_i nameless
    exact absurd (Option.some.inj nameless) named
  · rfl

/-- Where fillers have been dropped, the name of an entry is added to what remains. -/
theorem segments_child_ofReversed (absolute : Bool) (reversed : List Text) (name : Text) :
    ((ofReversed absolute (dropFillers absolute reversed)).child name).segments =
      (dropFillers absolute reversed).reverse ++ [name] := by
  cases kept : dropFillers absolute reversed with
  | nil => cases absolute <;> rfl
  | cons s before =>
    have named : s ≠ [] := by
      rintro rfl
      rcases cases_of_dropFillers kept with filler | ⟨point, _⟩
      · cases filler
      · cases point
    rw [ofReversed, if_neg (by simp), child_of_getLast? (by simp) named]

/-- The spelling of an entry's path loses what is passed on the way up. -/
theorem text_child_parent? {p q : Path} (h : p.parent? = some q) (name : Text) :
    (q.child name).text.Sublist (p.child name).text := by
  have above : (q.child name).segments.Sublist (p.child name).segments := by
    rw [parent?] at h
    split at h
    · cases h
    · rename_i s before dropped
      cases h
      rw [segments_child_ofReversed]
      refine List.Sublist.trans ?_ (segments_child p name)
      obtain ⟨after, whole⟩ := dropFillers_suffix p.absolute p.segments.reverse
      have below : before <:+ p.segments.dropLast.reverse := by
        rw [← List.tail_reverse, ← whole, dropped]
        rcases after with _ | ⟨last, after⟩
        · exact List.suffix_rfl
        · exact (List.suffix_cons s before).trans (List.suffix_append after _)
      have kept := List.reverse_prefix.mpr ((dropFillers_suffix p.absolute before).trans below)
      rw [List.reverse_reverse] at kept
      exact kept.sublist.append (List.Sublist.refl _)
  have absolute : (q.child name).absolute = (p.child name).absolute := by
    rw [(steps_child_filter q name).1, (steps_child_filter p name).1, (steps_parent? h).1]
  rw [text, text, absolute]
  exact (List.Sublist.refl _).append (Text.joinWith_sublist ['/'] above)

end StyleTypings.Path
