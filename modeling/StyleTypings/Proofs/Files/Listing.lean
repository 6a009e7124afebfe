/-
Listings — the files below a directory, whatever order its entries are listed in.

What is looked up in a directory depends on the names of its entries and not on their order,
as long as no name is listed twice (`Listed`).  The files of such a tree have one list of names
each that leads to them, and the list of all of these (`files`) has every one once
(`mem_files_iff`, `files_nodup`).  A walk of the tree meets these files and no others, each
under the path that its names give (`files_of_walk`).
-/
import StyleTypings.Proofs.Files
import StyleTypings.Proofs.Files.Walks

namespace StyleTypings

namespace Path

/-- The path of what some names lead to below a directory. -/
def below (directory : Path) (names : Location) : Path := names.foldl child directory

end Path

namespace Entry

/-- A tree in which every directory lists its entries in some order, each under a name of its
own that can be looked up. -/
inductive Listed : Entry → Prop where
  | file (content : Content) : Listed (.file content)
  | directory {entries : List (Text × Entry)} (distinct : (entries.map (·.1)).Nodup)
      (names : ∀ x ∈ entries, Disk.IsName x.1) (below : ∀ x ∈ entries, Listed x.2) :
      Listed (.directory entries)

/-- A tree whose entries are in the order of their names is listed in this order. -/
theorem Proper.listed {e : Entry} (h : e.Proper) : e.Listed := by
  induction h with
  | file content => exact .file content
  | directory ordered names below ih =>
    exact .directory (distinct_of_ordered ordered) names ih

/-- What stands in a listed tree is listed, and its names can be looked up. -/
theorem Listed.at? {e e' : Entry} {here : Location} (h : e.Listed) (there : e.at? here = some e') :
    (∀ n ∈ here, Disk.IsName n) ∧ e'.Listed := by
  induction here generalizing e with
  | nil =>
    cases there
    exact ⟨nofun, h⟩
  | cons name names ih =>
    obtain ⟨child, found, rest⟩ := Option.bind_eq_some_iff.mp there
    cases h with
    | file content => cases found
    | directory distinct named below =>
      have listed := (lookup_of_distinct distinct).mp found
      obtain ⟨hnames, here⟩ := ih (below _ listed) rest
      exact ⟨List.forall_mem_cons.mpr ⟨named _ listed, hnames⟩, here⟩

/-- The order in which a directory lists its entries does not matter where they are looked up. -/
theorem kind?_of_perm {entries entries' : List (Text × Entry)}
    (distinct : (entries.map (·.1)).Nodup) (perm : entries.Perm entries') (here : Location) :
    (Entry.directory entries').kind? here = (Entry.directory entries).kind? here := by
  cases here with
  | nil => rfl
  | cons name names =>
    have distinct' : (entries'.map (·.1)).Nodup := (perm.map _).nodup_iff.mp distinct
    have found : entries'.lookup name = entries.lookup name := by
      ext e
      rw [lookup_of_distinct distinct, lookup_of_distinct distinct', perm.mem_iff]
    rw [kind?_directory_cons, kind?_directory_cons, found]

/-! ## Files -/

theorem filesOf_eq_flatMap (entries : List (Text × Entry)) :
    filesOf entries = entries.flatMap fun x => (files x.2).map (x.1 :: ·) := by
  induction entries with
  | nil => rfl
  | cons x rest ih => rw [filesOf, ih, List.flatMap_cons]

/-- In a listed tree the locations of the files are those at which files are looked up. -/
theorem mem_files_iff {e : Entry} (h : e.Listed) {names : Location} :
    names ∈ e.files ↔ ∃ content, e.kind? names = some (.file content) := by
  constructor
  · intro member
    induction h generalizing names with
    | file content =>
      rw [List.mem_singleton.mp member]
      exact ⟨content, rfl⟩
    | @directory entries distinct named below ih =>
      rw [files, filesOf_eq_flatMap, List.mem_flatMap] at member
      obtain ⟨⟨name, e⟩, listed, member⟩ := member
      obtain ⟨below, inside, rfl⟩ := List.mem_map.mp member
      rw [kind?_directory_cons, (lookup_of_distinct distinct).mpr listed]
      exact ih _ listed inside
  · rintro ⟨content, file⟩
    obtain ⟨e', there, kind⟩ := Option.map_eq_some_iff.mp file
    cases e' with
    | directory entries => cases kind
    | file content' => exact mem_files there

theorem files_nodup {e : Entry} (h : e.Listed) : e.files.Nodup := by
  induction h with
  | file content => exact List.nodup_singleton _
  | @directory entries distinct named below ih =>
    rw [files, filesOf_eq_flatMap, List.nodup_flatMap]
    refine ⟨fun x hx => (ih x hx).map (List.cons_injective), ?_⟩
    refine (List.pairwise_map.mp distinct).imp fun {x y} apart => ?_
    intro names hx hy
    obtain ⟨names', _, rfl⟩ := List.mem_map.mp hx
    obtain ⟨names'', _, same⟩ := List.mem_map.mp hy
    exact apart (List.cons.inj same).1.symm

/-! ## Walks -/

mutual

/-- A walk meets the files of a tree, each under the path that its names give. -/
theorem files_of_walk (step : Path → Text → Path) (path : Path) (name : Text) :
    ∀ e : Entry, ((e.walk step path name).filter (! ·.entry.isDirectory)).map (·.path) =
      e.files.map (·.foldl step path)
  | .file content => rfl
  | .directory entries => by
    rw [walk, files, List.filter_cons_of_neg (by simp [isDirectory]), files_of_walkAll]

theorem files_of_walkAll (step : Path → Text → Path) (directory : Path) :
    ∀ entries : List (Text × Entry),
    ((walkAll step directory entries).filter (! ·.entry.isDirectory)).map (·.path) =
      (filesOf entries).map (·.foldl step directory)
  | [] => rfl
  | (name, e) :: rest => by
    rw [walkAll, filesOf, List.filter_append, List.map_append, List.map_append, files_of_walk,
      files_of_walkAll, List.map_map]
    rfl

end

end Entry

end StyleTypings
