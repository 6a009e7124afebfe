/-
Walks — what is met below a directory, and where it stands.

A walk of a proper tree meets what stands at some names below it, under a path that has
those names for its last steps (`Found.LiesBelow`).  The style sheets that it meets depend
on the directories and on the names that are names of style sheets, and on nothing else:
files of other names may come and go (`styleSheets_walk`).  Both lists of style sheets are
made up from the entries that matter, in the order of their names, so the proof compares
those and skips the others.
-/
import StyleTypings.Proofs.Files.Trees
import StyleTypings.Sources.Scan

namespace StyleTypings

open StyleTypings.Path (Extends)

/-! ## Where the entries of a walk stand -/

/-- An entry met on a walk from a tree at a path stands at some names below the tree, and
its path says so. -/
structure Found.LiesBelow (f : Found) (e : Entry) (path : Path) (names : Location) : Prop where
  there : e.at? names = some f.entry
  absolute : f.path.absolute = path.absolute
  steps : f.path.steps = path.steps ++ names

namespace Entry

variable {step : Path → Text → Path}

theorem walkAll_eq_flatMap (directory : Path) (entries : List (Text × Entry)) :
    walkAll step directory entries =
      entries.flatMap fun x => walk step (step directory x.1) x.1 x.2 := by
  induction entries with
  | nil => rfl
  | cons x rest ih => rw [walkAll, ih, List.flatMap_cons]

theorem walk_liesBelow (adds : Extends step) {e : Entry} (h : e.Proper) {path : Path}
    {name : Text} {f : Found} (hf : f ∈ e.walk step path name) :
    ∃ names, f.LiesBelow e path names := by
  induction h generalizing path name with
  | file content =>
    rw [walk, List.mem_singleton] at hf
    subst hf
    exact ⟨[], rfl, rfl, (List.append_nil _).symm⟩
  | @directory entries ordered names below ih =>
    rw [walk, List.mem_cons, walkAll_eq_flatMap, List.mem_flatMap] at hf
    rcases hf with rfl | ⟨⟨n, child⟩, hx, hf⟩
    · exact ⟨[], rfl, rfl, (List.append_nil _).symm⟩
    · obtain ⟨rest, lies⟩ := ih (n, child) hx hf
      obtain ⟨habsolute, hsteps⟩ := adds path (names (n, child) hx).entryName
      have found := (lookup_of_ordered ordered).mpr hx
      refine ⟨n :: rest, ?_, lies.absolute.trans habsolute, ?_⟩
      · rw [at?, child?, found]
        exact lies.there
      · rw [lies.steps, hsteps, List.append_assoc, List.singleton_append]

/-- So do the entries met on a walk below a directory, at one name or more. -/
theorem walkAll_liesBelow (adds : Extends step) {entries : List (Text × Entry)}
    (h : Proper (.directory entries)) {path : Path} {f : Found}
    (hf : f ∈ walkAll step path entries) :
    ∃ names, f.LiesBelow (.directory entries) path names := by
  have met : f ∈ (Entry.directory entries).walk step path [] := List.mem_cons_of_mem _ hf
  exact walk_liesBelow adds h met

/-! ## Style sheets -/

/-- Whether a name is that of a style sheet. -/
def IsSheetName (n : Text) : Prop := (Path.splitName n).2 = some ("less" : Text)

instance (n : Text) : Decidable (IsSheetName n) := inferInstanceAs (Decidable (_ = _))

theorem isStyleSheet_iff_of_fileName? {p : Path} {n : Text} (h : p.fileName? = some n) :
    p.isStyleSheet = true ↔ IsSheetName n := by
  rw [Path.isStyleSheet, beq_iff_eq, Path.extension?, h, Option.bind_some, IsSheetName]

theorem isStyleSheet_iff {p : Path} {before : List Text} {n : Text} (h : p.steps = before ++ [n])
    (hn : Path.IsEntryName n) : p.isStyleSheet = true ↔ IsSheetName n :=
  isStyleSheet_iff_of_fileName? (Path.fileName?_of_steps h hn.2)

/-- Trees with the same directories and the same style sheets, whatever these contain. -/
structure SameSheets (e e' : Entry) : Prop where
  directories : ∀ here, e.kind? here = some .directory ↔ e'.kind? here = some .directory
  sheets : ∀ here n, IsSheetName n →
    ((e.kind? (here ++ [n])).isSome ↔ (e'.kind? (here ++ [n])).isSome)

/-- What stands at some names in both trees has the same style sheets. -/
theorem SameSheets.below {e e' inner inner' : Entry} {names : Location} (h : SameSheets e e')
    (there : e.at? names = some inner) (there' : e'.at? names = some inner') :
    SameSheets inner inner' := by
  have kinds (here : Location) : inner.kind? here = e.kind? (names ++ here) := by
    rw [kind?, kind?, at?_append, there, Option.bind_some]
  have kinds' (here : Location) : inner'.kind? here = e'.kind? (names ++ here) := by
    rw [kind?, kind?, at?_append, there', Option.bind_some]
  refine ⟨fun here => ?_, fun here n hn => ?_⟩
  · rw [kinds, kinds']
    exact h.directories _
  · rw [kinds, kinds', ← List.append_assoc]
    exact h.sheets _ n hn

/-- Whether an entry of a directory can have a style sheet in it or be one. -/
def Matters (x : Text × Entry) : Prop := x.2.isDirectory = true ∨ IsSheetName x.1

instance (x : Text × Entry) : Decidable (Matters x) := inferInstanceAs (Decidable (_ ∨ _))

theorem styleSheets_of_not_matters (adds : Extends step) (path : Path) {x : Text × Entry}
    (hname : Disk.IsName x.1) (h : ¬ Matters x) :
    Scan.styleSheets (x.2.walk step (step path x.1) x.1) = [] := by
  obtain ⟨n, e⟩ := x
  rw [Matters, not_or] at h
  cases e with
  | directory entries => exact absurd rfl h.1
  | file content =>
    have hsteps := (adds path hname.entryName).2
    have none : (step path n).isStyleSheet = false := by
      simpa using mt (isStyleSheet_iff hsteps hname.entryName).mp h.2
    simp [walk, Scan.styleSheets, none]

/-- The style sheets of a directory are those of the entries that matter. -/
theorem styleSheets_walk_directory (adds : Extends step) (path : Path) (name : Text)
    {entries : List (Text × Entry)} (names : ∀ x ∈ entries, Disk.IsName x.1) :
    Scan.styleSheets (walk step path name (.directory entries)) =
      (entries.filter (decide <| Matters ·)).flatMap fun x =>
        Scan.styleSheets (x.2.walk step (step path x.1) x.1) := by
  have below : Scan.styleSheets (walk step path name (.directory entries)) =
      Scan.styleSheets (walkAll step path entries) := rfl
  rw [below]
  clear below
  induction entries with
  | nil => rfl
  | cons x rest ih =>
    obtain ⟨hx, hrest⟩ := List.forall_mem_cons.mp names
    have first : Scan.styleSheets (walkAll step path (x :: rest)) =
        Scan.styleSheets (x.2.walk step (step path x.1) x.1) ++
          Scan.styleSheets (walkAll step path rest) := by
      simp [walkAll, Scan.styleSheets]
    rw [first, ih hrest]
    by_cases matters : Matters x
    · rw [List.filter_cons_of_pos (by simpa using matters), List.flatMap_cons]
    · rw [List.filter_cons_of_neg (by simpa using matters),
        styleSheets_of_not_matters adds path hx matters, List.nil_append]

/-- Entries under the same names give the same, if those of one name do. -/
theorem flatMap_eq_of_names {α : Type} {f : Text × Entry → List α} :
    ∀ {l l' : List (Text × Entry)}, l.map (·.1) = l'.map (·.1) →
      (∀ x ∈ l, ∀ x' ∈ l', x.1 = x'.1 → f x = f x') → l.flatMap f = l'.flatMap f
  | [], [], _, _ => rfl
  | x :: l, x' :: l', names, same => by
    obtain ⟨first, rest⟩ := List.cons.inj names
    rw [List.flatMap_cons, List.flatMap_cons,
      same x List.mem_cons_self x' List.mem_cons_self first,
      flatMap_eq_of_names rest fun y hy y' hy' => same y (.tail _ hy) y' (.tail _ hy')]

/-- Trees with the same style sheets have the same entries that matter, by their names. -/
theorem SameSheets.names_eq {entries entries' : List (Text × Entry)}
    (h : SameSheets (.directory entries) (.directory entries'))
    (ordered : entries.Pairwise (·.1 < ·.1)) (ordered' : entries'.Pairwise (·.1 < ·.1)) :
    (entries.filter (decide <| Matters ·)).map (·.1) =
      (entries'.filter (decide <| Matters ·)).map (·.1) := by
  have members {l : List (Text × Entry)} (hl : l.Pairwise (·.1 < ·.1)) (n : Text) :
      n ∈ (l.filter (decide <| Matters ·)).map (·.1) ↔
        kind? (.directory l) [n] = some .directory ∨
          IsSheetName n ∧ (kind? (.directory l) [n]).isSome := by
    simp only [List.mem_map, List.mem_filter, Matters, Prod.exists,
      exists_and_right, exists_eq_right, kind?_directory_cons]
    simp only [← lookup_of_ordered hl]
    cases l.lookup n with
    | none => simp
    | some e => cases e <;> simp [isDirectory, kind]
  have sorted {l : List (Text × Entry)} (hl : l.Pairwise (·.1 < ·.1)) :
      ((l.filter (decide <| Matters ·)).map (·.1)).Pairwise (· < ·) :=
    List.pairwise_map.mpr (hl.sublist List.filter_sublist)
  refine (sorted ordered).eq_of_mem_iff (sorted ordered') fun n => ?_
  rw [members ordered, members ordered', h.directories [n]]
  exact or_congr_right (and_congr_right (h.sheets [] n))

theorem styleSheets_walk (adds : Extends step) {e e' : Entry} (h : e.Proper) (h' : e'.Proper)
    (same : SameSheets e e') (path : Path) (name : Text) :
    Scan.styleSheets (e.walk step path name) = Scan.styleSheets (e'.walk step path name) := by
  induction h generalizing e' path name with
  | file content =>
    cases h' with
    | file content' =>
      rw [walk, walk, Scan.styleSheets, Scan.styleSheets]
      cases hsheet : path.isStyleSheet <;> simp [isDirectory, hsheet]
    | directory => exact absurd ((same.directories []).mpr rfl) nofun
  | @directory entries ordered names below ih =>
    cases h' with
    | file content' => exact absurd ((same.directories []).mp rfl) nofun
    | @directory entries' ordered' names' below' =>
      rw [styleSheets_walk_directory adds path name names,
        styleSheets_walk_directory adds path name names']
      refine flatMap_eq_of_names (same.names_eq ordered ordered') fun x hx x' hx' hname => ?_
      obtain ⟨n, child⟩ := x
      obtain ⟨n', child'⟩ := x'
      obtain rfl : n = n' := hname
      have hx := (List.mem_filter.mp hx).1
      have hx' := (List.mem_filter.mp hx').1
      have there : (Entry.directory entries).at? [n] = some child := by
        simp [at?, child?, (lookup_of_ordered ordered).mpr hx]
      have there' : (Entry.directory entries').at? [n] = some child' := by
        simp [at?, child?, (lookup_of_ordered ordered').mpr hx']
      exact ih (n, child) hx (below' (n, child') hx') (same.below there there') _ _

end Entry

/-- Disks that differ where no style sheet can stand have the same style sheets. -/
theorem Disk.DiffersAt.sameSheets {d d' : Disk} {W : Location → Prop} (h : DiffersAt W d d')
    (sheetless : ∀ here n, W (here ++ [n]) → ¬ Entry.IsSheetName n) :
    Entry.SameSheets d.root d'.root where
  directories here := (h.directories here).symm
  sheets here n hn := by
    have same := h.elsewhere (here ++ [n]) fun written => sheetless here n written hn
    rw [← kind?, ← kind?, same]

end StyleTypings
