/-
Steps — the segments of a path that mean something.

Fillers lead nowhere, so a path means what its other segments mean one after the other:
its steps.  Everything that is done with paths here is known by what it does to their
steps:

  `child`, `entryPath`   add the name of an entry (`Extends`)
  `normalize`            leaves the steps and nothing else

A path whose segments are all steps is plain.  Two plain paths are the same only if they
are equal (`IsPlain.same_iff`), and so are the paths that a scan selects, which have been
put into plain form.
-/
import StyleTypings.Globs.Walk
import StyleTypings.Sources.Pattern
import Mathlib.Data.List.Basic

namespace StyleTypings

namespace Text

theorem eq_of_breakAt? {sep : Char} {t before after : Text}
    (h : breakAt? sep t = some (before, after)) : t = before ++ sep :: after := by
  induction t generalizing before with
  | nil => cases h
  | cons c rest ih =>
    rw [breakAt?] at h
    split at h
    · rename_i hc
      cases h
      rw [hc, List.nil_append]
    · obtain ⟨⟨inside, after'⟩, hrest, heq⟩ := Option.map_eq_some_iff.mp h
      cases heq
      rw [ih hrest, List.cons_append]

theorem eq_of_breakAtLast? {sep : Char} {t before after : Text}
    (h : breakAtLast? sep t = some (before, after)) : t = before ++ sep :: after := by
  obtain ⟨⟨last, first⟩, hreverse, heq⟩ := Option.map_eq_some_iff.mp h
  cases heq
  rw [← t.reverse_reverse, eq_of_breakAt? hreverse]
  simp

end Text

namespace Path

/-- The segments that are no fillers. -/
def steps (p : Path) : List Text := p.segments.filter (! isFiller ·)

/-- Whether a text can be a step that is the name of an entry. -/
def IsEntryName (n : Text) : Prop := isFiller n = false ∧ n ≠ ['.', '.']

instance (n : Text) : Decidable (IsEntryName n) :=
  inferInstanceAs (Decidable (_ ∧ _))

theorem IsEntryName.ne_nil {n : Text} (h : IsEntryName n) : n ≠ [] := by
  rintro rfl
  cases h.1

/-- The names that mean a directory are short. -/
theorem isEntryName_of_length {n : Text} (long : 2 < n.length) : IsEntryName n := by
  refine ⟨?_, fun h => by simp [h] at long⟩
  rw [isFiller, Bool.or_eq_false_iff, List.isEmpty_eq_false_iff, beq_eq_false_iff_ne]
  constructor <;> intro h <;> simp [h] at long

/-- A path without fillers, which has at least one step. -/
structure IsPlain (p : Path) : Prop where
  steps_eq : p.steps = p.segments
  nonempty : p.segments ≠ []

/-! ## Parts and steps -/

theorem text_partOf (s : Text) : (partOf s).text = s := by
  rw [partOf]
  split
  · rename_i h
    rw [h, Part.text]
  · rfl

theorem partOf_injective : Function.Injective partOf := fun s t h => by
  rw [← text_partOf s, h, text_partOf]

theorem partOf_ne_current (s : Text) : partOf s ≠ .current := by
  rw [partOf]
  split <;> nofun

theorem partOf_ne_root (s : Text) : partOf s ≠ .root := by
  rw [partOf]
  split <;> nofun

/-- The parts that a leading slash or point stands for. -/
def leading (p : Path) : List Part :=
  if p.absolute then [.root] else if p.segments.head? = some ['.'] then [.current] else []

/-- The steps follow what leads a path. -/
theorem parts_eq (p : Path) : p.parts = p.leading ++ p.steps.map partOf := by
  obtain ⟨absolute, segments⟩ := p
  cases absolute with
  | true => rfl
  | false =>
    simp only [parts, leading, Bool.false_eq_true, if_false]
    split
    · rfl
    · rename_i other
      rw [if_neg]
      · rfl
      · cases segments with
        | nil => nofun
        | cons s rest =>
          rintro ⟨⟩
          exact other rest rfl

theorem fileName?_of_steps {p : Path} {before : List Text} {n : Text}
    (h : p.steps = before ++ [n]) (hn : n ≠ ['.', '.']) : p.fileName? = some n := by
  have last : p.parts.getLast? = some (.name n) := by
    rw [parts_eq, h, List.map_append, List.map_singleton, partOf, if_neg hn, ← List.append_assoc,
      List.getLast?_concat]
  rw [fileName?, last]

/-- A path with a file name has it for its last step. -/
theorem steps_of_fileName? {p : Path} {n : Text} (h : p.fileName? = some n) :
    ∃ before, p.steps = before ++ [n] ∧ IsEntryName n := by
  have last : p.parts.getLast? = some (.name n) := by
    rw [fileName?] at h
    split at h
    · rename_i m hm
      cases h
      exact hm
    · cases h
  rw [parts_eq] at last
  rcases hsteps : p.steps.eq_nil_or_concat with hnil | ⟨before, m, hm⟩
  · rw [hnil, List.map_nil, List.append_nil, leading] at last
    split at last
    · cases last
    · split at last <;> cases last
  · rw [List.concat_eq_append] at hm
    rw [hm, List.map_append, List.map_singleton, ← List.append_assoc, List.getLast?_concat,
      Option.some_inj, partOf] at last
    split at last
    · cases last
    · cases last
      have member : n ∈ p.steps := by simp [hm]
      rw [steps, List.mem_filter] at member
      exact ⟨before, hm, by simpa using member.2, ‹_›⟩

/-- What is written on at the end of a path ends its name. -/
theorem fileName?_append (p : Path) {t : Text} (long : 2 < t.length) :
    ∃ stem, (p.append t).fileName? = some (stem ++ t) := by
  obtain ⟨stem, absolute, before, happend⟩ : ∃ stem absolute before,
      p.append t = ⟨absolute, before ++ [stem ++ t]⟩ := by
    rw [append]
    split
    · exact ⟨_, _, _, rfl⟩
    · exact ⟨[], _, [], rfl⟩
  have entryName : IsEntryName (stem ++ t) := isEntryName_of_length (by simp; omega)
  have last : (p.append t).steps = before.filter (! isFiller ·) ++ [stem ++ t] := by
    rw [happend, steps, List.filter_append]
    simp [entryName.1]
  exact ⟨stem, fileName?_of_steps last entryName.2⟩

/-! ## Plain form -/

theorem map_text_partOf (names : List Text) : (names.map partOf).map Part.text = names := by
  simp [Function.comp_def, text_partOf]

/-- The path of some steps. -/
theorem ofParts_map_partOf {names : List Text} (h : names ≠ []) :
    ofParts (names.map partOf) = ⟨false, names⟩ := by
  have texts := map_text_partOf names
  obtain ⟨s, rest, rfl⟩ := List.exists_cons_of_ne_nil h
  rw [List.map_cons] at texts ⊢
  rw [ofParts, texts]
  · exact nofun
  · exact fun h => absurd (List.cons.inj h).1 (partOf_ne_root s)
  · exact fun parts h => absurd (List.cons.inj h).1 (partOf_ne_root s)

theorem normalize_eq {p : Path} (h : p.steps ≠ []) : p.normalize = ⟨p.absolute, p.steps⟩ := by
  have kept : (p.steps.map partOf).filter (· != .current) = p.steps.map partOf := by
    refine List.filter_eq_self.mpr fun part hpart => ?_
    obtain ⟨s, _, rfl⟩ := List.mem_map.mp hpart
    simpa using partOf_ne_current s
  rw [normalize, parts_eq, List.filter_append, kept, leading]
  cases habsolute : p.absolute with
  | true =>
    have texts := map_text_partOf p.steps
    obtain ⟨s, rest, hsteps⟩ := List.exists_cons_of_ne_nil h
    rw [hsteps] at texts ⊢
    exact congrArg (Path.mk true) texts
  | false =>
    have nothing : (if false = true then [Part.root]
        else if p.segments.head? = some ['.'] then [.current] else []).filter (· != .current) = [] := by
      split
      · contradiction
      · split <;> rfl
    rw [nothing, List.nil_append, ofParts_map_partOf h]

/-- Without steps, only the root or nothing at all is left. -/
theorem normalize_of_steps {p : Path} (h : p.steps = []) :
    p.normalize = if p.absolute then ⟨true, [[]]⟩ else empty := by
  rw [normalize, parts_eq, h, List.map_nil, List.append_nil, leading]
  split
  · rfl
  · split <;> rfl

theorem steps_of_segments {p : Path} {q : Path} (h : p.segments = q.steps) : p.steps = q.steps := by
  rw [steps, h, steps, List.filter_filter]
  simp

theorem isPlain_normalize {p : Path} (h : p.steps ≠ []) : p.normalize.IsPlain := by
  rw [normalize_eq h]
  exact ⟨steps_of_segments rfl, h⟩

theorem steps_normalize (p : Path) : p.normalize.steps = p.steps := by
  by_cases h : p.steps = []
  · rw [normalize_of_steps h, h]
    cases p.absolute <;> rfl
  · rw [normalize_eq h]
    exact steps_of_segments rfl

theorem absolute_normalize (p : Path) : p.normalize.absolute = p.absolute := by
  by_cases h : p.steps = []
  · rw [normalize_of_steps h]
    cases p.absolute <;> rfl
  · rw [normalize_eq h]

theorem normalize_normalize (p : Path) : p.normalize.normalize = p.normalize := by
  by_cases h : p.steps = []
  · rw [normalize_of_steps h]
    cases p.absolute <;> rfl
  · have steps := steps_normalize p
    rw [normalize_eq (steps ▸ h), steps, absolute_normalize, normalize_eq h]

namespace IsPlain

variable {p q : Path}

/-- No point leads a plain path. -/
theorem leading_eq (h : p.IsPlain) : p.leading = if p.absolute then [.root] else [] := by
  rw [leading]
  split
  · rfl
  · rw [if_neg]
    intro head
    have member : ['.'] ∈ p.steps := h.steps_eq ▸ List.mem_of_mem_head? head
    rw [steps, List.mem_filter] at member
    simp [isFiller] at member

/-- Plain paths are the same only if they are equal. -/
theorem same_iff (hp : p.IsPlain) (hq : q.IsPlain) : p.same q = true ↔ p = q := by
  rw [same, beq_iff_eq]
  refine ⟨fun h => ?_, congrArg parts⟩
  rw [parts_eq, parts_eq, hp.leading_eq, hq.leading_eq, hp.steps_eq, hq.steps_eq] at h
  obtain ⟨absolute, segments⟩ := p
  obtain ⟨absolute', segments'⟩ := q
  obtain ⟨s, rest, rfl⟩ := List.exists_cons_of_ne_nil hp.nonempty
  obtain ⟨s', rest', rfl⟩ := List.exists_cons_of_ne_nil hq.nonempty
  have injective := List.map_injective_iff.mpr partOf_injective
  cases absolute <;> cases absolute' <;> simp only [if_true, Bool.false_eq_true, if_false,
    List.nil_append, List.singleton_append] at h
  · rw [injective h]
  · exact absurd (List.cons.inj h).1 (partOf_ne_root s)
  · exact absurd (List.cons.inj h).1.symm (partOf_ne_root s')
  · rw [injective (List.cons.inj h).2]

end IsPlain

/-! ## Paths that begin others -/

/-- Neither a slash nor a point leads a relative path in plain form. -/
theorem leading_of_normalize {p : Path} (relative : p.absolute = false) (plain : p.normalize = p) :
    p.leading = [] := by
  by_cases h : p.steps = []
  · rw [normalize_of_steps h, relative] at plain
    rw [← plain]
    rfl
  · have isPlain := isPlain_normalize h
    rw [plain] at isPlain
    rw [isPlain.leading_eq, relative]
    rfl

/-- Only a slash leads the plain form of a path, and the steps follow it. -/
theorem parts_normalize (p : Path) :
    p.normalize.parts = (if p.absolute then [.root] else []) ++ p.steps.map partOf := by
  by_cases h : p.steps = []
  · rw [normalize_of_steps h, h]
    cases p.absolute <;> rfl
  · rw [parts_eq, (isPlain_normalize h).leading_eq, steps_normalize, absolute_normalize]

/-- A path that nothing leads begins with another in plain form just if it begins with its
steps. -/
theorem startsWith_normalize_iff {p q : Path} (bare : p.leading = []) :
    p.startsWith q.normalize = true ↔ q.absolute = false ∧ q.steps <+: p.steps := by
  have parts : p.parts = p.steps.map partOf := by rw [parts_eq, bare, List.nil_append]
  have rooted (rest : List Part) : ¬ .root :: rest <+: p.steps.map partOf := by
    intro h
    obtain ⟨s, _, root⟩ := List.mem_map.mp (h.subset List.mem_cons_self)
    exact partOf_ne_root s root
  rw [startsWith, List.isPrefixOf_iff_prefix, parts, parts_normalize]
  cases q.absolute with
  | true => exact iff_of_false (rooted _) nofun
  | false => simp [List.prefix_map_iff_of_injective partOf_injective]

/-- A path names the directory it is seen from if it takes no step. -/
theorem isCurrent_iff {p : Path} : p.isCurrent = true ↔ p.absolute = false ∧ p.steps = [] := by
  rw [isCurrent, parts_eq, List.all_append, Bool.and_eq_true, List.all_eq_true, List.all_eq_true]
  refine and_congr ?_ ?_
  · rw [leading]
    cases p.absolute with
    | true => simp
    | false =>
      rw [if_neg nofun]
      split <;> simp
  · refine ⟨fun h => List.eq_nil_iff_forall_not_mem.mpr fun s hs => ?_, fun h => by simp [h]⟩
    exact partOf_ne_current s (by simpa using h _ (List.mem_map_of_mem hs))

/-! ## Extensions -/

/-- A name with an extension is a stem, a point and the extension. -/
theorem eq_of_splitName {n extension : Text} (h : (splitName n).2 = some extension) :
    n = (splitName n).1 ++ '.' :: extension ∧ (splitName n).1 ≠ [] := by
  unfold splitName at h ⊢
  split at h
  · cases h
  · rename_i stem _ nonempty broken
    cases h
    exact ⟨Text.eq_of_breakAtLast? broken, nonempty⟩
  · cases h

/-! ## Entries of directories -/

theorem steps_append (absolute : Bool) (segments names : List Text) :
    steps ⟨absolute, segments ++ names⟩ = steps ⟨absolute, segments⟩ ++ names.filter (! isFiller ·) :=
  List.filter_append ..

theorem steps_of_isEmpty {p : Path} (h : p.isEmpty = true) : p.absolute = false ∧ p.steps = [] := by
  obtain ⟨absolute, segments⟩ := p
  rw [isEmpty, text, List.isEmpty_iff, List.append_eq_nil_iff] at h
  obtain ⟨hlead, hsegments⟩ := h
  constructor
  · cases absolute with
    | false => rfl
    | true => cases hlead
  · cases segments with
    | nil => rfl
    | cons s rest =>
      cases rest with
      | nil =>
        rw [show s = [] from hsegments]
        rfl
      | cons t rest => simp [Text.joinWith] at hsegments

/-- A way to make the path of an entry that adds its name to the steps. -/
def Extends (step : Path → Text → Path) : Prop :=
  ∀ (directory : Path) {name : Text}, IsEntryName name →
    (step directory name).absolute = directory.absolute ∧
      (step directory name).steps = directory.steps ++ [name]

/-- Names added one after the other are added together. -/
theorem Extends.foldl {step : Path → Text → Path} (adds : Extends step) {names : List Text}
    (hnames : ∀ n ∈ names, IsEntryName n) (path : Path) :
    (names.foldl step path).absolute = path.absolute ∧
      (names.foldl step path).steps = path.steps ++ names := by
  induction names generalizing path with
  | nil => exact ⟨rfl, (List.append_nil _).symm⟩
  | cons n names ih =>
    obtain ⟨first, others⟩ := List.forall_mem_cons.mp hnames
    obtain ⟨absolute, steps⟩ := adds path first
    obtain ⟨absolute', steps'⟩ := ih others (step path n)
    refine ⟨absolute'.trans absolute, ?_⟩
    rw [List.foldl_cons, steps', steps, List.append_assoc, List.singleton_append]

/-- A segment becomes the last step, unless it is a filler. -/
theorem steps_child_filter (directory : Path) (name : Text) :
    (child directory name).absolute = directory.absolute ∧
      (child directory name).steps = directory.steps ++ [name].filter (! isFiller ·) := by
  rw [child, join, if_neg (by simp)]
  split
  · rename_i hempty
    obtain ⟨habsolute, hsteps⟩ := steps_of_isEmpty hempty
    rw [habsolute, hsteps]
    exact ⟨rfl, rfl⟩
  · split
    · rename_i last
      obtain ⟨before, hsegments⟩ := List.getLast?_eq_some_iff.mp last
      refine ⟨rfl, ?_⟩
      rw [hsegments, List.dropLast_concat, steps_append]
      simp [steps, hsegments, isFiller]
    · exact ⟨rfl, steps_append ..⟩

theorem steps_child (directory : Path) {name : Text} (h : isFiller name = false) :
    (child directory name).absolute = directory.absolute ∧
      (child directory name).steps = directory.steps ++ [name] := by
  have single : [name].filter (! isFiller ·) = [name] := by simp [h]
  rw [← single]
  exact steps_child_filter directory name

theorem extends_child : Extends child := fun directory _ h => steps_child directory h.1

theorem steps_entryPath (directory : Path) {name : Text} (h : isFiller name = false) :
    (Glob.entryPath directory name).absolute = directory.absolute ∧
      (Glob.entryPath directory name).steps = directory.steps ++ [name] := by
  rw [Glob.entryPath]
  split
  · rename_i current
    rw [beq_iff_eq] at current
    have here : directory.isCurrent = true := by simp [isCurrent, current]
    obtain ⟨habsolute, hsteps⟩ := isCurrent_iff.mp here
    rw [habsolute, hsteps]
    exact ⟨rfl, by simp [steps, h]⟩
  · exact steps_child directory h

theorem extends_entryPath : Extends Glob.entryPath := fun directory _ h =>
  steps_entryPath directory h.1

end Path

end StyleTypings
