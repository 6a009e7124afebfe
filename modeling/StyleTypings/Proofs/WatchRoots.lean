/-
Watch roots — the directory to watch covers what the pattern selects.

The root of a file is its directory, and the root of a directory is that directory.  The
root of a glob is what stands before its first part with a star or a question mark, and this
is taken for the names of directories.  So it is, if no class in brackets stands there
(`PlainFront`): these characters stand for themselves, and every path that the glob selects
begins with them.  But `[ab]/*.less` selects `a/x.less`, and its root is `[ab]`
(`not_forall_watchRoot_covers`).

A pattern keeps its spelling, and so does the root.  Where a point is left at its beginning,
as in `./a` for `././a/b.less`, the root begins a selected path in plain form only.
-/
import StyleTypings.Proofs.Files.Ancestors
import StyleTypings.Proofs.Files.Trees
import StyleTypings.Proofs.Globs.Reading
import StyleTypings.Sources.Pattern
import Mathlib.Data.List.TakeWhile

namespace StyleTypings

namespace SourcePattern

/-! ## Roots of globs -/

/-- The segments of a glob before the first that has a star or a question mark. -/
def front (g : Glob) : List Text :=
  (Path.ofText g.text).segments.takeWhile fun s => ! hasWildcard s

/-- Whether a pattern, if it is a glob, has no bracket before its first part with a star or a
question mark. -/
def PlainFront : SourcePattern → Prop
  | .glob g => ∀ s ∈ front g, '[' ∉ s
  | _ => True

instance (s : SourcePattern) : Decidable s.PlainFront := by
  cases s with
  | glob g => exact inferInstanceAs (Decidable (∀ s ∈ front g, '[' ∉ s))
  | file => exact inferInstanceAs (Decidable True)
  | directory => exact inferInstanceAs (Decidable True)

theorem not_isFiller_of_hasWildcard {s : Text} (h : hasWildcard s = true) :
    Path.isFiller s = false := by
  rw [Path.isFiller, Bool.or_eq_false_iff, List.isEmpty_eq_false_iff, beq_eq_false_iff_ne]
  constructor <;> rintro rfl <;> cases h

theorem hasWildcard_iff {t : Text} : hasWildcard t = true ↔ '*' ∈ t ∨ '?' ∈ t := by
  simp [hasWildcard]

/-- A glob goes on with a wildcard after its front. -/
theorem exists_segments_eq {g : Glob} (wild : hasWildcard g.text = true)
    (relative : g.text.head? ≠ some '/') : ∃ w after,
      g.text.splitOn '/' = front g ++ w :: after ∧ hasWildcard w = true := by
  obtain ⟨s, hs, hwild⟩ : ∃ s ∈ g.text.splitOn '/', hasWildcard s = true := by
    have split {c : Char} (other : c ≠ '/') (h : c ∈ g.text) : ∃ s ∈ g.text.splitOn '/', c ∈ s := by
      rw [← Text.joinWith_splitOn '/' g.text] at h
      exact (Text.exists_mem_of_mem_joinWith h).resolve_left (by simpa using other)
    rcases hasWildcard_iff.mp wild with h | h
    · obtain ⟨s, hs, h⟩ := split (by decide) h
      exact ⟨s, hs, hasWildcard_iff.mpr (.inl h)⟩
    · obtain ⟨s, hs, h⟩ := split (by decide) h
      exact ⟨s, hs, hasWildcard_iff.mpr (.inr h)⟩
  rw [front, Path.ofText_of_head? relative]
  generalize g.text.splitOn '/' = segments at hs
  have whole := List.takeWhile_append_dropWhile (p := fun s => ! hasWildcard s) (l := segments)
  cases hrest : segments.dropWhile fun s => ! hasWildcard s with
  | nil =>
    have plain := List.dropWhile_eq_nil_iff.mp hrest s hs
    simp [hwild] at plain
  | cons w after =>
    refine ⟨w, after, ?_, ?_⟩
    · rw [← hrest]
      exact whole.symm
    · have first := List.head?_dropWhile_not (fun s => ! hasWildcard s) segments
      rw [hrest] at first
      simpa using first

/-- A path that a glob selects goes on from its front. -/
theorem segments_of_admitsText {g : Glob} (hg : Glob.read g.text = .ok g)
    (wild : hasWildcard g.text = true) (plain : PlainFront (.glob g))
    (relative : g.text.head? ≠ some '/') {p : Path} (spelled : p.IsSpelled)
    (hp : p.absolute = false) (admitted : g.admitsText p.text = true) :
    ∃ rest, p.segments = front g ++ rest ∧ rest ≠ [] := by
  obtain ⟨w, after, segments, _⟩ := exists_segments_eq wild relative
  have text : g.text = (front g).flatMap (· ++ ['/']) ++ Text.joinWith ['/'] (w :: after) := by
    rw [← Text.joinWith_append ['/'] (front g) (List.cons_ne_nil w after), ← segments,
      Text.joinWith_splitOn]
  have without : ∀ s ∈ front g, '/' ∉ s := fun s hs =>
    Text.not_mem_of_mem_splitOn (segments ▸ List.mem_append_left _ hs)
  have literal : ∀ c ∈ (front g).flatMap (· ++ ['/']), c ∉ ("?*[" : Text) := by
    intro c hc
    obtain ⟨s, hs, hc⟩ := List.mem_flatMap.mp hc
    rcases List.mem_append.mp hc with hc | hc
    · have tame := List.mem_takeWhile_imp hs
      rw [Bool.not_eq_true', ← Bool.not_eq_true, hasWildcard_iff, not_or] at tame
      have bracket := plain s hs
      have signs {d : Char} (hd : d ∉ s) : c ≠ d := fun same => hd (same ▸ hc)
      simp [signs tame.1, signs tame.2, signs bracket]
    · rw [List.mem_singleton.mp hc]
      decide
  have whole : Glob.read ((front g).flatMap (· ++ ['/']) ++ Text.joinWith ['/'] (w :: after)) =
      .ok g := by rw [← text, hg]
  obtain ⟨rest, begins⟩ := Glob.prefix_of_admitsText literal whole admitted
  exact ⟨_, spelled.segments_of_text hp without begins.symm, List.splitOn_ne_nil _ _⟩

/-- The root of a relative glob whose front has no fillers is the path of its front. -/
theorem watchRoot_glob {g : Glob} (wild : hasWildcard g.text = true)
    (relative : g.text.head? ≠ some '/') (names : ∀ s ∈ front g, Path.isFiller s = false) :
    watchRoot (.glob g) = if front g = [] then Path.ofText ['.'] else ⟨false, front g⟩ := by
  obtain ⟨w, after, segments, hw⟩ := exists_segments_eq wild relative
  have steps : (Path.ofText g.text).steps = front g ++ (w :: after).filter (! Path.isFiller ·) := by
    rw [Path.ofText_of_head? relative, Path.steps]
    show (g.text.splitOn '/').filter _ = _
    rw [segments, List.filter_append, List.filter_eq_self.mpr]
    intro s hs
    simp [names s hs]
  have bare : (Path.ofText g.text).leading = [] := by
    rw [Path.ofText_of_head? relative, Path.leading, if_neg Bool.false_ne_true, if_neg]
    rw [segments]
    cases hfront : front g with
    | nil =>
      rintro ⟨⟩
      cases hw
    | cons s rest =>
      rintro ⟨⟩
      cases names ['.'] (by simp [hfront])
  have parts : (Path.ofText g.text).parts = (front g).map Path.partOf ++
      Path.partOf w :: ((after.filter (! Path.isFiller ·)).map Path.partOf) := by
    rw [Path.parts_eq, bare, steps, List.filter_cons_of_pos]
    · simp
    · simp [not_isFiller_of_hasWildcard hw]
  have base : (Path.ofText g.text).parts.takeWhile (fun p => ! hasWildcard p.text) =
      (front g).map Path.partOf := by
    rw [parts, List.takeWhile_append_of_pos, List.takeWhile_cons_of_neg, List.append_nil]
    · simp [Path.text_partOf, hw]
    · simp only [List.forall_mem_map, Path.text_partOf]
      exact fun s hs => List.mem_takeWhile_imp (p := fun s => ! hasWildcard s) hs
  rw [watchRoot, base]
  by_cases none : front g = []
  · rw [if_pos none, none]
    rfl
  · rw [if_neg none, Path.ofParts_map_partOf none]
    refine if_neg fun empty => ?_
    obtain ⟨s, hs⟩ := List.exists_mem_of_ne_nil _ none
    have step : s ∈ (⟨false, front g⟩ : Path).steps :=
      List.mem_filter.mpr ⟨hs, by simp [names s hs]⟩
    rw [(Path.steps_of_isEmpty empty).2] at step
    cases step

/-! ## The root covers -/

/-- Where the root of a pattern leads, the paths that it selects go on. -/
theorem watchRoot_steps {d : Disk} {t : Text} {pattern : SourcePattern}
    (hread : read d t = .ok pattern) (plain : pattern.PlainFront) {p : Path} (spelled : p.IsSpelled)
    (relative : p.absolute = false) (normal : p.normalize = p)
    (selected : pattern.selects p = true) :
    pattern.watchRoot.absolute = false ∧ pattern.watchRoot.steps <+: p.steps := by
  have bare := Path.leading_of_normalize relative normal
  have current : (Path.ofText ['.']).absolute = false ∧ (Path.ofText ['.']).steps <+: p.steps :=
    ⟨rfl, List.nil_prefix⟩
  cases pattern with
  | file path =>
    have same : p.parts = path.normalize.parts := by
      rw [selects, normal, Path.same, beq_iff_eq] at selected
      exact selected.symm
    have begins : p.startsWith path.normalize = true := by
      rw [Path.startsWith, same]
      exact List.isPrefixOf_iff_prefix.mpr List.prefix_rfl
    obtain ⟨hpath, steps⟩ := (Path.startsWith_normalize_iff bare).mp begins
    rw [watchRoot]
    split
    · split
      · exact current
      · rename_i parent found _
        obtain ⟨habsolute, above⟩ := Path.steps_parent? found
        exact ⟨habsolute.trans hpath, above.trans steps⟩
    · exact current
  | directory path =>
    rw [selects, normal, Bool.and_eq_true, Bool.or_eq_true] at selected
    rcases selected.2 with here | begins
    · obtain ⟨hpath, none⟩ := Path.isCurrent_iff.mp here
      exact ⟨hpath, none ▸ List.nil_prefix⟩
    · exact (Path.startsWith_normalize_iff bare).mp begins
  | glob g =>
    obtain ⟨hg, wild⟩ := glob_of_read hread
    rw [selects, normal] at selected
    have seen : g.text.head? ≠ some '/' := by
      intro slash
      obtain ⟨rest, htext⟩ := List.head?_eq_some_iff.mp slash
      have whole : Glob.read (['/'] ++ rest) = .ok g := by rw [List.singleton_append, ← htext, hg]
      have bareSlash : ∀ c ∈ ['/'], c ∉ ("?*[" : Text) := List.forall_mem_singleton.mpr (by decide)
      obtain ⟨after, begins⟩ := Glob.prefix_of_admitsText bareSlash whole selected
      refine (spelled.segments_eq relative).2 ?_
      rw [← begins]
      rfl
    obtain ⟨rest, segments, nonempty⟩ :=
      segments_of_admitsText hg wild plain seen spelled relative selected
    have names : ∀ s ∈ front g, Path.isFiller s = false := by
      by_cases none : p.steps = []
      · rw [Path.normalize_of_steps none, relative] at normal
        rw [← normal] at segments
        obtain ⟨s, rest, rfl⟩ := List.exists_cons_of_ne_nil nonempty
        have single : 1 = (front g ++ s :: rest).length := congrArg List.length segments
        have nothing : front g = [] := by
          rw [List.length_append, List.length_cons] at single
          exact List.length_eq_zero_iff.mp (by omega)
        simp [nothing]
      · have whole := (Path.isPlain_normalize none).steps_eq
        rw [normal, Path.steps, List.filter_eq_self] at whole
        exact fun s hs => by simpa using whole s (segments ▸ List.mem_append_left rest hs)
    rw [watchRoot_glob wild seen names]
    split
    · exact current
    · refine ⟨rfl, ?_⟩
      rw [Path.steps, Path.steps, segments, List.filter_append]
      exact List.prefix_append _ _

/-- Every path that a pattern selects lies below its root, if the pattern has no bracket in
its front: the path begins with the root in plain form, and with the root as it is written
unless a point is left at the beginning of more. -/
theorem watchRoot_covers {d : Disk} {t : Text} {pattern : SourcePattern}
    (hread : read d t = .ok pattern) (plain : pattern.PlainFront) {p : Path} (spelled : p.IsSpelled)
    (relative : p.absolute = false) (normal : p.normalize = p)
    (selected : pattern.selects p = true) :
    p.startsWith pattern.watchRoot.normalize = true ∧
      ((pattern.watchRoot.parts.head? = some .current → pattern.watchRoot.isCurrent = true) →
        pattern.watchRoot.isCurrent = true ∨ p.startsWith pattern.watchRoot = true) := by
  have bare := Path.leading_of_normalize relative normal
  obtain ⟨absolute, steps⟩ := watchRoot_steps hread plain spelled relative normal selected
  refine ⟨(Path.startsWith_normalize_iff bare).mpr ⟨absolute, steps⟩, fun pointless => ?_⟩
  cases hleading : pattern.watchRoot.leading with
  | nil =>
    refine .inr ?_
    rw [Path.startsWith, List.isPrefixOf_iff_prefix, Path.parts_eq, Path.parts_eq, hleading, bare]
    exact steps.map Path.partOf
  | cons part rest =>
    refine .inl (pointless ?_)
    have current : part = .current := by
      rw [Path.leading, absolute, if_neg Bool.false_ne_true] at hleading
      split at hleading
      · exact (List.cons.inj hleading).1.symm
      · cases hleading
    rw [Path.parts_eq, hleading, current]
    rfl

/-- The glob for the style sheets anywhere below `src`. -/
def sheetsOfSources : Glob :=
  ⟨"src/**/*.less", ("src/" : Text).map .char ++ .anyDirectories :: .anySequence ::
    (".less" : Text).map .char⟩

theorem watchRoot_covers_sources :
    read (.ofFiles []) "src/**/*.less" = .ok (.glob sheetsOfSources) ∧
      (glob sheetsOfSources).selects "src/a/b.less" = true ∧
      Path.startsWith "src/a/b.less" (glob sheetsOfSources).watchRoot = true := by
  have hread : read (.ofFiles []) "src/**/*.less" = .ok (.glob sheetsOfSources) := by decide
  have selected : (glob sheetsOfSources).selects "src/a/b.less" = true := by decide
  have spelled : Path.IsSpelled "src/a/b.less" := by decide
  have covers := watchRoot_covers hread (by decide) spelled rfl (by decide) selected
  exact ⟨hread, selected, (covers.2 (by decide)).resolve_left (by decide)⟩

/-- With a bracket in the front, the root is the name of a directory in which nothing is
selected. -/
theorem not_forall_watchRoot_covers : ¬ ∀ (d : Disk) (t : Text) (pattern : SourcePattern)
    (p : Path), read d t = .ok pattern → p.IsSpelled → p.absolute = false → p.normalize = p →
      pattern.selects p = true →
        pattern.watchRoot.isCurrent = true ∨ p.startsWith pattern.watchRoot = true := by
  intro h
  let g : Glob := ⟨"[ab]/*.less", .oneOf [.char 'a', .char 'b'] :: .char '/' :: .anySequence ::
    (".less" : Text).map .char⟩
  have selected := h (.ofFiles []) "[ab]/*.less" (.glob g) "a/x.less"
  exact absurd (selected (by decide) (by decide) rfl (by decide) (by decide)) (by decide)

end SourcePattern

end StyleTypings
