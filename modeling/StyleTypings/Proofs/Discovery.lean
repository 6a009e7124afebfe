/-
Discovery — the settings file that a search comes to.

A search looks into the directory where it starts and into each one above it.  It ends where
there is a settings file, and otherwise where there is the mark of a repository (`find_eq`).
So it finds the file in the nearest directory that holds one, if no mark stands in a directory
that is nearer (`find_nearest`); a mark in the same directory comes too late to end it.

Where the directories are is a matter of the tree, and so is what they hold (`Disk.Holds`).
The search knows neither: it takes paths apart, puts names behind them and asks whether these
paths lead anywhere.  That comes to the same as long as the path of the file beside the start can
be followed at all, since those above it are written with less.  Where it is too long the search
goes by, also past a directory that holds the file (`not_forall_find_nearest`).
-/
import StyleTypings.Proofs.Failures
import StyleTypings.Proofs.Files.Ancestors
import StyleTypings.Proofs.Files.Fillers
import StyleTypings.Settings.Discovery

namespace StyleTypings

namespace Disk

/-- The directory at a path holds an entry of a name. -/
def Holds (d : Disk) (directory : Path) (name : Text) : Prop :=
  ∃ here, d.Leads directory here ∧ (d.kind? (here ++ [name])).isSome

variable {d : Disk} {directory : Path} {name : Text}

theorem getLast?_segments_child (directory : Path) (name : Text) :
    (directory.child name).segments.getLast? = some name := by
  rw [Path.child, Path.join, if_neg Bool.false_ne_true]
  split
  · rfl
  · split <;> exact List.getLast?_concat

/-- The path of an entry, if it can be followed, leads somewhere just if the directory holds the
entry. -/
theorem contains_child_iff (hname : IsName name)
    (spelled : misspelling? (directory.child name) = none) :
    d.contains (directory.child name) = true ↔ d.Holds directory name := by
  obtain ⟨absolute, steps⟩ := Path.steps_child directory hname.entryName.1
  have leads_iff (last : Location) : d.Leads (directory.child name) last ↔
      (d.follow directory.steps (d.start directory)).bind (d.follow [name]) = .ok last := by
    rw [Leads, steps, follow_append, start, absolute, start]
  rw [contains_iff]
  constructor
  · rintro ⟨last, located, there⟩
    have leads := (leads_iff last).mp (leads_of_locate located)
    obtain ⟨here, first, second⟩ := ok_of_bind leads
    obtain rfl := eq_append_of_follow (List.forall_mem_singleton.mpr hname.entryName) second
    exact ⟨here, first, there⟩
  · rintro ⟨here, leads, there⟩
    refine ⟨here ++ [name], locate_eq_ok.mpr ⟨spelled, follow_of_steps ?_ ?_⟩, there⟩
    · refine (leads_iff _).mpr ?_
      rw [leads]
      exact follow_names (List.forall_mem_singleton.mpr hname) there
    · intro s last filler
      obtain rfl := Option.some.inj ((getLast?_segments_child directory name).symm.trans last)
      rw [hname.entryName.1] at filler
      cases filler

end Disk

namespace Settings

/-! ## The search, directory by directory -/

/-- Going up comes to an end before the segments do. -/
theorem go_eq {n : Nat} {p : Path} (enough : p.depth ≤ n) :
    ancestors.go n p = ancestors.go p.depth p := by
  induction n generalizing p with
  | zero => rw [Nat.le_zero.mp enough]
  | succ n ih =>
    rw [ancestors.go]
    cases above : p.parent? with
    | none =>
      rw [Path.depth_of_parent?_eq_none above]
      rfl
    | some q =>
      have less := Path.depth_parent? above
      rw [less, ancestors.go, above]
      exact congrArg (p :: ·) (ih (by omega))

theorem ancestors_eq (p : Path) : ancestors p = p :: (p.parent?.map ancestors).getD [] := by
  rw [ancestors, go_eq p.depth_le]
  cases above : p.parent? with
  | none =>
    rw [Path.depth_of_parent?_eq_none above]
    rfl
  | some q =>
    rw [Path.depth_parent? above, ancestors.go, above, Option.map_some, Option.getD_some, ancestors,
      go_eq q.depth_le]

/-- A search ends where it starts, or it is a search from the directory above. -/
theorem find_eq (disk : Disk) (start : Path) :
    find disk start =
      if disk.contains (start.child fileName) then some (start.child fileName)
      else if disk.contains (start.child repositoryMark) then none
      else start.parent?.bind (find disk) := by
  rw [find, ancestors_eq, findIn]
  cases start.parent? <;> rfl

/-! ## Spellings -/

theorem isName_fileName : Disk.IsName fileName := by decide

theorem isName_repositoryMark : Disk.IsName repositoryMark := by decide

/-- Where the path of the settings file can be followed, so can that of the mark, which is
shorter. -/
theorem misspelling?_mark {directory : Path}
    (spelled : Disk.misspelling? (directory.child fileName) = none) :
    Disk.misspelling? (directory.child repositoryMark) = none := by
  obtain ⟨before, written⟩ := directory.text_child
  obtain ⟨_, clean, short⟩ := Disk.misspelling?_eq_none.mp spelled
  have shorter : Text.utf8Size repositoryMark ≤ Text.utf8Size fileName := by decide
  rw [written, List.mem_append, not_or] at clean
  rw [written, Text.utf8Size_append] at short
  rw [Disk.misspelling?_eq_none, written, List.mem_append, not_or, Text.utf8Size_append]
  exact ⟨List.append_ne_nil_of_right_ne_nil before (by decide), ⟨clean.1, by decide⟩, by omega⟩

theorem misspelling?_parent? {directory parent : Path} (above : directory.parent? = some parent)
    (spelled : Disk.misspelling? (directory.child fileName) = none) :
    Disk.misspelling? (parent.child fileName) = none := by
  refine Disk.misspelling?_of_sublist spelled (Path.text_child_parent? above fileName) ?_
  obtain ⟨before, written⟩ := parent.text_child
  rw [written]
  exact List.append_ne_nil_of_right_ne_nil before (by decide)

/-! ## The nearest settings file -/

/-- The directory so many steps above another holds a settings file, and none that is nearer
holds one or is the top of a repository. -/
structure Nearest (disk : Disk) (start : Path) (k : Nat) (directory : Path) : Prop where
  above : start.climb? k = some directory
  holds : disk.Holds directory fileName
  nearer : ∀ j < k, ∀ between, start.climb? j = some between →
    ¬ disk.Holds between fileName ∧ ¬ disk.Holds between repositoryMark

section

variable {disk : Disk} {start directory : Path}

theorem nearest_zero_iff :
    Nearest disk start 0 directory ↔ directory = start ∧ disk.Holds start fileName := by
  constructor
  · rintro ⟨above, holds, _⟩
    obtain rfl : start = directory := Option.some.inj above
    exact ⟨rfl, holds⟩
  · rintro ⟨rfl, holds⟩
    exact ⟨rfl, holds, nofun⟩

theorem nearest_succ_iff {k : Nat} :
    Nearest disk start (k + 1) directory ↔
      (¬ disk.Holds start fileName ∧ ¬ disk.Holds start repositoryMark) ∧
        ∃ parent, start.parent? = some parent ∧ Nearest disk parent k directory := by
  constructor
  · rintro ⟨above, holds, nearer⟩
    obtain ⟨parent, hparent, above⟩ := Option.bind_eq_some_iff.mp above
    refine ⟨nearer 0 k.succ_pos start rfl, parent, hparent, above, holds, fun j less between h => ?_⟩
    refine nearer (j + 1) (Nat.succ_lt_succ less) between ?_
    rw [Path.climb?, hparent]
    exact h
  · rintro ⟨here, parent, hparent, above, holds, nearer⟩
    refine ⟨by rw [Path.climb?, hparent]; exact above, holds, fun j less between h => ?_⟩
    cases j with
    | zero =>
      obtain rfl : start = between := Option.some.inj h
      exact here
    | succ j =>
      rw [Path.climb?, hparent] at h
      exact nearer j (Nat.lt_of_succ_lt_succ less) between h

/-- A search finds the file in the nearest directory, if it finds any. -/
theorem find_eq_some_iff {file : Path}
    (spelled : Disk.misspelling? (start.child fileName) = none) :
    find disk start = some file ↔ ∃ k d, Nearest disk start k d ∧ file = d.child fileName := by
  induction depth : start.depth using Nat.strong_induction_on generalizing start with
  | _ n ih =>
    have file_iff : disk.contains (start.child fileName) = true ↔ disk.Holds start fileName :=
      Disk.contains_child_iff isName_fileName spelled
    have mark_iff :
        disk.contains (start.child repositoryMark) = true ↔ disk.Holds start repositoryMark :=
      Disk.contains_child_iff isName_repositoryMark (misspelling?_mark spelled)
    rw [find_eq]
    by_cases holds : disk.Holds start fileName
    · rw [if_pos (file_iff.mpr holds)]
      constructor
      · rintro ⟨⟩
        exact ⟨0, start, nearest_zero_iff.mpr ⟨rfl, holds⟩, rfl⟩
      · rintro ⟨_ | k, d, nearest, rfl⟩
        · rw [(nearest_zero_iff.mp nearest).1]
        · exact absurd holds (nearest_succ_iff.mp nearest).1.1
    rw [if_neg (mt file_iff.mp holds)]
    by_cases mark : disk.Holds start repositoryMark
    · rw [if_pos (mark_iff.mpr mark)]
      refine iff_of_false nofun ?_
      rintro ⟨_ | k, d, nearest, _⟩
      · exact holds (nearest_zero_iff.mp nearest).2
      · exact (nearest_succ_iff.mp nearest).1.2 mark
    rw [if_neg (mt mark_iff.mp mark)]
    cases above : start.parent? with
    | none =>
      refine iff_of_false nofun ?_
      rintro ⟨_ | k, d, nearest, _⟩
      · exact holds (nearest_zero_iff.mp nearest).2
      · obtain ⟨_, parent, hparent, _⟩ := nearest_succ_iff.mp nearest
        rw [above] at hparent
        cases hparent
    | some parent =>
      have less := Path.depth_parent? above
      rw [Option.bind_some, ih parent.depth (by omega) (misspelling?_parent? above spelled) rfl]
      constructor
      · rintro ⟨k, d, nearest, rfl⟩
        exact ⟨k + 1, d, nearest_succ_iff.mpr ⟨⟨holds, mark⟩, parent, above, nearest⟩, rfl⟩
      · rintro ⟨_ | k, d, nearest, rfl⟩
        · exact absurd (nearest_zero_iff.mp nearest).2 holds
        · obtain ⟨_, parent', hparent, nearest⟩ := nearest_succ_iff.mp nearest
          obtain rfl : parent = parent' := Option.some.inj (above.symm.trans hparent)
          exact ⟨k, d, nearest, rfl⟩

end

/-- The directories above a path are its first parts, as many as there are.  A search from the
path finds the settings file in the nearest of these that holds one, the path itself among
them, unless the top of a repository is nearer; it finds nothing just if there is none; and
that the directory is the top of a repository itself does not matter.  The path of the settings
file beside the start has to be one that can be followed: shorter than 4096 bytes, and without a
null character. -/
theorem find_nearest (disk : Disk) (start : Path)
    (short : Text.utf8Size (start.child fileName).text < 4096)
    (clean : '\x00' ∉ (start.child fileName).text) :
    (∀ k, (start.climb? k).map Path.parts =
        if k ≤ start.depth then some (start.parts.rdrop k) else none) ∧
      (∀ file, find disk start = some file ↔
        ∃ k d, Nearest disk start k d ∧ file = d.child fileName) ∧
      (find disk start = none ↔ ¬ ∃ k d, Nearest disk start k d) ∧
      ∀ k d, Nearest disk start k d → disk.Holds d repositoryMark →
        find disk start = some (d.child fileName) := by
  have spelled : Disk.misspelling? (start.child fileName) = none := by
    obtain ⟨before, written⟩ := start.text_child
    refine Disk.misspelling?_eq_none.mpr ⟨?_, clean, short⟩
    rw [written]
    exact List.append_ne_nil_of_right_ne_nil before (by decide)
  refine ⟨fun k => Path.map_parts_climb? k start, fun file => find_eq_some_iff spelled, ?_, ?_⟩
  · rw [Option.eq_none_iff_forall_ne_some]
    constructor
    · rintro none ⟨k, d, nearest⟩
      exact none _ ((find_eq_some_iff spelled).mpr ⟨k, d, nearest, rfl⟩)
    · intro nowhere file found
      obtain ⟨k, d, nearest, _⟩ := (find_eq_some_iff spelled).mp found
      exact nowhere ⟨k, d, nearest⟩
  · intro k d nearest _
    exact (find_eq_some_iff spelled).mpr ⟨k, d, nearest, rfl⟩

/-- A repository with a settings file at its top, and a directory two steps below it. -/
def repository : Disk where
  root := .directory [(".git", .directory []), (".typedlessrc.json", .file (.text "\x7b\x7d")),
    ("src", .directory [("styles", .directory [])])]
  working := []

theorem nearest_repository : Nearest repository "src/styles" 2 Path.empty := by
  have absent (directory : Path) (name : Text) (hname : Disk.IsName name)
      (spelled : Disk.misspelling? (directory.child name) = none)
      (h : repository.contains (directory.child name) = false) :
      ¬ repository.Holds directory name := by
    rw [← Disk.contains_child_iff hname spelled, h]
    exact Bool.false_ne_true
  refine ⟨rfl, ⟨[], rfl, rfl⟩, fun j less between h => ?_⟩
  match j with
  | 0 =>
    obtain rfl := Option.some.inj h
    exact ⟨absent _ _ isName_fileName (by decide) (by decide),
      absent _ _ isName_repositoryMark (by decide) (by decide)⟩
  | 1 =>
    obtain rfl := Option.some.inj h
    exact ⟨absent _ _ isName_fileName (by decide) (by decide),
      absent _ _ isName_repositoryMark (by decide) (by decide)⟩

theorem find_nearest_repository :
    Nearest repository "src/styles" 2 Path.empty ∧ repository.Holds Path.empty repositoryMark ∧
      find repository "src/styles" = some (Path.empty.child fileName) := by
  have mark : repository.Holds Path.empty repositoryMark := ⟨[], rfl, rfl⟩
  obtain ⟨_, _, _, found⟩ := find_nearest repository "src/styles" (by decide) (by decide)
  exact ⟨nearest_repository, mark, found 2 Path.empty nearest_repository mark⟩

/-- The working directory, written with more points and slashes than a path can have. -/
def winding : Path := ⟨false, List.replicate 2048 ['.']⟩

/-- The settings file is in the directory where the search starts, and goes unnoticed there: what
is found has the path that is left when the search has come to no path at all. -/
theorem not_forall_find_nearest :
    ¬ ∀ (disk : Disk) (start file : Path), find disk start = some file ↔
      ∃ k d, Nearest disk start k d ∧ file = d.child fileName := by
  intro h
  have long (name : Text) (h : Disk.misspelling? (winding.child name) = some .nameTooLong) :
      ¬ repository.contains (winding.child name) = true := by
    rw [Disk.contains, Disk.entry, Disk.locate, h]
    exact Bool.false_ne_true
  have above : winding.parent? = some Path.empty := by decide +kernel
  have found : find repository winding = some (Path.empty.child fileName) := by
    rw [find_eq, if_neg (long fileName (by decide +kernel)),
      if_neg (long repositoryMark (by decide +kernel)), above]
    rfl
  have nearest : Nearest repository winding 0 winding := by
    have steps : winding.steps = [] := by
      refine List.filter_eq_nil_iff.mpr fun s hs => ?_
      rw [List.eq_of_mem_replicate hs]
      decide
    refine nearest_zero_iff.mpr ⟨rfl, [], ?_, rfl⟩
    rw [Disk.Leads, steps]
    rfl
  have there := (h repository winding (winding.child fileName)).mpr ⟨0, winding, nearest, rfl⟩
  rw [found] at there
  exact absurd there (by decide +kernel)

end Settings

end StyleTypings
