/-
Files — all the files of a disk.

A disk is a finite tree, so the locations of its files make up a list, and every
path to a file leads to one of them.
-/
import StyleTypings.Files.Disk
import StyleTypings.Proofs.Failures

namespace StyleTypings

namespace Entry

mutual

/-- The locations of the files below an entry. -/
def files : Entry → List Location
  | .file _ => [[]]
  | .directory entries => filesOf entries

/-- The locations of the files below the entries of a directory. -/
def filesOf : List (Text × Entry) → List Location
  | [] => []
  | (name, e) :: rest => (files e).map (name :: ·) ++ filesOf rest

end

theorem mem_filesOf {name : Text} {e : Entry} {entries : List (Text × Entry)}
    (h : (name, e) ∈ entries) {names : Location} (hnames : names ∈ e.files) :
    name :: names ∈ filesOf entries := by
  induction entries with
  | nil => cases h
  | cons entry rest ih =>
    rw [filesOf, List.mem_append]
    cases h with
    | head => exact .inl (List.mem_map_of_mem hnames)
    | tail _ h => exact .inr (ih h)

/-- The location of a file is one of the locations of the files. -/
theorem mem_files {names : Location} {e : Entry} {content : Content}
    (h : e.at? names = some (.file content)) : names ∈ e.files := by
  induction names generalizing e with
  | nil =>
    cases h
    exact List.mem_singleton.mpr rfl
  | cons name names ih =>
    cases e with
    | file content => cases h
    | directory entries =>
      obtain ⟨child, hchild, hat⟩ := Option.bind_eq_some_iff.mp h
      obtain ⟨before, after, rfl, _⟩ := List.lookup_eq_some_iff.mp hchild
      exact mem_filesOf (List.mem_append_right before List.mem_cons_self) (ih hat)

end Entry

/-- A path to a file leads to the location of one. -/
theorem Disk.mem_files {d : Disk} {p : Path} {here : Location} (there : d.isFile p = true)
    (located : d.locate p = .ok here) : here ∈ d.root.files := by
  simp only [isFile, entry, located, bind, Except.bind] at there
  cases h : d.root.at? here with
  | none => simp [h] at there
  | some e =>
    cases e with
    | file content => exact Entry.mem_files h
    | directory entries => simp [h] at there

/-- A file that can be read has a location. -/
theorem Disk.locate_of_read {d : Disk} {p : Path} {t : Text} (h : d.read p = .ok t) :
    ∃ here, d.locate p = .ok here ∧ d.root.at? here = some (.file (.text t)) := by
  rw [read] at h
  obtain ⟨e, found, h⟩ := ok_of_bind h
  rw [entry] at found
  obtain ⟨here, located, found⟩ := ok_of_bind found
  refine ⟨here, located, ?_⟩
  cases there : d.root.at? here with
  | none =>
    rw [there] at found
    cases found
  | some e' =>
    rw [there] at found
    cases found
    split at h
    · cases h
      rfl
    · cases h
    · cases h

end StyleTypings
