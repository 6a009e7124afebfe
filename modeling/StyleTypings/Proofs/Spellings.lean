/-
Spellings — the ways to write a directory as a source pattern.

A directory can be written with a slash behind it and with a `./` before it.  Both are fillers,
so they lead to the same directory, and a scan puts what it finds there into plain form
(`Scan.files_of_sameSteps`).

But a `./` is taken off the text before it is read as a path, and what is left of the text need
not be a path of the same directory.  Of `./` nothing is left, so the working directory cannot
be written like that: what is read is a file that has no name (`not_forall_spellings_agree`).
Of `.//a` a path from the root is left.  These are the texts that go wrong, apart from those
that the slash makes too long, and no others do (`spellings_agree_iff`).
-/
import StyleTypings.Proofs.Directories
import StyleTypings.Proofs.Files.Fillers

namespace StyleTypings

/-! ## Scans of one directory -/

namespace Path

variable {p q : Path}

theorem SameSteps.below (h : p.SameSteps q) (names : Location) :
    (p.below names).SameSteps (q.below names) := by
  induction names generalizing p q with
  | nil => exact h
  | cons n names ih => exact ih (h.child n)

theorem SameSteps.isStyleSheet_eq (h : p.SameSteps q) : p.isStyleSheet = q.isStyleSheet :=
  Bool.eq_iff_iff.mpr ⟨isStyleSheet_of_steps h.steps.symm, isStyleSheet_of_steps h.steps⟩

theorem absolute_below (p : Path) (names : Location) : (p.below names).absolute = p.absolute := by
  induction names generalizing p with
  | nil => rfl
  | cons n names ih => exact (ih (p.child n)).trans (steps_child_filter p n).1

end Path

namespace Scan

variable {d : Disk} {p q : Path}

/-- Fillers in the path of a directory make no difference to the files in it. -/
theorem files_of_sameSteps (same : p.SameSteps q) (there : d.isDirectory p = true)
    (spelled : Disk.misspelling? q = none) (ignores : IgnoreList) :
    d.isDirectory q = true ∧
      (run d (.directory q) ignores).files = (run d (.directory p) ignores).files := by
  obtain ⟨there', entry⟩ := Disk.isDirectory_of_sameSteps same there spelled
  refine ⟨there', ?_⟩
  have sheets : d.sheetsBelow q = d.sheetsBelow p := by
    simp only [Disk.sheetsBelow, entry, (same.below _).isStyleSheet_eq]
  have plain : Path.normalize ∘ q.below = Path.normalize ∘ p.below :=
    funext fun names => (same.below names).symm.normalize_eq
  have kept : (! ignores.ignores ·) ∘ q.below = (! ignores.ignores ·) ∘ p.below := by
    refine funext fun names => ?_
    simp only [Function.comp_apply, IgnoreList.ignores, (same.below names).normalize_eq]
  rw [(run_directory_eq there' ignores).1, (run_directory_eq there ignores).1, sheets,
    List.filter_map, List.filter_map, List.map_map, List.map_map, plain, kept]

/-- Files in a directory are named from the root just if the directory is. -/
theorem absolute_of_mem_run (there : d.isDirectory p = true) {ignores : IgnoreList} {file : Path}
    (h : file ∈ (run d (.directory p) ignores).files) : file.absolute = p.absolute := by
  rw [(run_directory_eq there ignores).1] at h
  obtain ⟨path, hpath, rfl⟩ := List.mem_map.mp (mem_of_mem_sorted h)
  obtain ⟨names, _, rfl⟩ := List.mem_map.mp (List.mem_of_mem_filter hpath)
  rw [Path.absolute_normalize, Path.absolute_below]

end Scan

namespace SourcePattern

/-! ## Texts of directories -/

/-- The ways to write a directory that can be written as some text. -/
def spellings (t : Text) : List Text :=
  if t = ['.'] then [t, t ++ ['/']] else [t, t ++ ['/'], '.' :: '/' :: t, '.' :: '/' :: (t ++ ['/'])]

/-- A text is read as a directory, and these are the files that a scan of it selects. -/
def Lists (disk : Disk) (ignores : IgnoreList) (t : Text) (files : List Path) : Prop :=
  ∃ path, read disk t = .ok (.directory path) ∧
    (Scan.run disk (.directory path) ignores).files = files

variable {disk : Disk} {ignores : IgnoreList} {t : Text} {files : List Path}

theorem withoutDot_cases (t : Text) :
    (∃ rest, t = '.' :: '/' :: rest ∧ withoutDot t = rest) ∨
      (∀ rest, t ≠ '.' :: '/' :: rest) ∧ withoutDot t = t := by
  by_cases dotted : ∃ rest, t = '.' :: '/' :: rest
  · obtain ⟨rest, rfl⟩ := dotted
    exact .inl ⟨rest, rfl, rfl⟩
  · have undotted (rest : Text) (h : t = '.' :: '/' :: rest) : False := dotted ⟨rest, h⟩
    exact .inr ⟨undotted, by rw [withoutDot]; exact undotted⟩

theorem withoutDot_suffix (t : Text) : withoutDot t <:+ t := by
  rcases withoutDot_cases t with ⟨rest, rfl, rest_eq⟩ | ⟨_, same⟩
  · rw [rest_eq]
    exact ⟨['.', '/'], rfl⟩
  · rw [same]

/-- A slash stays behind what is left of a text, unless it makes a `./` of it. -/
theorem withoutDot_append_slash (h : t ≠ ['.']) :
    withoutDot (t ++ ['/']) = withoutDot t ++ ['/'] := by
  rcases withoutDot_cases t with ⟨rest, rfl, rest_eq⟩ | ⟨undotted, same⟩
  · exact congrArg (· ++ ['/']) rest_eq.symm
  · rw [same, withoutDot]
    intro rest dotted
    rcases rest.eq_nil_or_concat with rfl | ⟨before, last, rfl⟩
    · have point : t ++ ['/'] = ['.'] ++ ['/'] := dotted
      exact h (List.append_inj_left' point rfl)
    · have longer : t ++ ['/'] = '.' :: '/' :: before ++ [last] := by
        rw [dotted, List.concat_eq_append, List.cons_append, List.cons_append]
      exact undotted before (List.append_inj_left' longer rfl)

/-- Texts without wildcards are read as directories just if what is left of them leads to one. -/
theorem lists_iff (tame : hasWildcard t = false) :
    Lists disk ignores t files ↔
      disk.isDirectory (Path.ofText (withoutDot t)) = true ∧
        (Scan.run disk (.directory (Path.ofText (withoutDot t))) ignores).files = files := by
  have tame' : hasWildcard (withoutDot t) = false := by
    simp only [hasWildcard, Bool.or_eq_false_iff, List.contains_eq_mem, decide_eq_false_iff_not]
      at tame ⊢
    exact ⟨mt (withoutDot_suffix t).mem tame.1, mt (withoutDot_suffix t).mem tame.2⟩
  simp only [Lists, read, tame', Bool.false_eq_true, if_false]
  by_cases there : disk.isDirectory (Path.ofText (withoutDot t)) = true
  · simp [there]
  · simp [there]

/-! ## Spellings of one directory -/

/-- A slash behind a path of a directory makes no difference, unless it makes it too long. -/
theorem files_of_slash (there : disk.isDirectory (Path.ofText t) = true) (ignores : IgnoreList) :
    (disk.isDirectory (Path.ofText (t ++ ['/'])) = true ↔ t.utf8Size + 1 < Disk.maxPath) ∧
      (disk.isDirectory (Path.ofText (t ++ ['/'])) = true →
        (Scan.run disk (.directory (Path.ofText (t ++ ['/']))) ignores).files =
          (Scan.run disk (.directory (Path.ofText t)) ignores).files) := by
  obtain ⟨nonempty, nul, _⟩ :=
    Disk.misspelling?_eq_none.mp (Disk.misspelling?_of_isDirectory there)
  rw [Path.text_ofText] at nonempty nul
  have same := (Path.ofText_slash nonempty).symm
  have spelled_iff : Disk.misspelling? (Path.ofText (t ++ ['/'])) = none ↔
      t.utf8Size + 1 < Disk.maxPath := by
    rw [Disk.misspelling?_eq_none, Path.text_ofText, Text.utf8Size_append]
    have clean : '\x00' ∉ t ++ ['/'] := by simpa using nul
    exact ⟨fun h => h.2.2, fun short => ⟨by simp, clean, short⟩⟩
  refine ⟨⟨fun h => ?_, fun short => ?_⟩, fun h => ?_⟩
  · exact spelled_iff.mp (Disk.misspelling?_of_isDirectory h)
  · exact (Scan.files_of_sameSteps same there (spelled_iff.mpr short) ignores).1
  · exact (Scan.files_of_sameSteps same there (Disk.misspelling?_of_isDirectory h) ignores).2

/-- The spellings of a directory agree if what is left of its text leads to a directory with
the same files, and if there is room for a slash. -/
theorem spellings_agree_of_ne_point (tame : hasWildcard t = false)
    (there : disk.isDirectory (Path.ofText t) = true) (h : t ≠ ['.']) :
    (∃ files, ∀ s ∈ spellings t, Lists disk ignores s files) ↔
      t.utf8Size + 1 < Disk.maxPath ∧ disk.isDirectory (Path.ofText (withoutDot t)) = true ∧
        (Scan.run disk (.directory (Path.ofText (withoutDot t))) ignores).files =
          (Scan.run disk (.directory (Path.ofText t)) ignores).files := by
  have tameSlash : hasWildcard (t ++ ['/']) = false := by simpa [hasWildcard] using tame
  have tameDot (s : Text) (tame : hasWildcard s = false) : hasWildcard ('.' :: '/' :: s) = false := by
    simpa [hasWildcard] using tame
  obtain ⟨room, slashed⟩ := files_of_slash there ignores
  rw [spellings, if_neg h]
  constructor
  · rintro ⟨files, all⟩
    obtain ⟨plain, all⟩ := List.forall_mem_cons.mp all
    obtain ⟨_, all⟩ := List.forall_mem_cons.mp all
    obtain ⟨dotted, all⟩ := List.forall_mem_cons.mp all
    have both := List.forall_mem_singleton.mp all
    obtain ⟨left, agree⟩ := (lists_iff tame).mp plain
    obtain ⟨_, agree'⟩ := (lists_iff (tameDot t tame)).mp dotted
    obtain ⟨slash, _⟩ := (lists_iff (tameDot _ tameSlash)).mp both
    exact ⟨room.mp slash, left, agree.trans agree'.symm⟩
  · rintro ⟨short, left, agree⟩
    have short' : (withoutDot t).utf8Size + 1 < Disk.maxPath := by
      obtain ⟨front, whole⟩ := withoutDot_suffix t
      rw [← whole, Text.utf8Size_append] at short
      omega
    obtain ⟨room', slashed'⟩ := files_of_slash left ignores
    refine ⟨_, List.forall_mem_cons.mpr ⟨(lists_iff tame).mpr ⟨left, agree⟩, ?_⟩⟩
    refine List.forall_mem_cons.mpr ⟨(lists_iff tameSlash).mpr ?_, ?_⟩
    · rw [withoutDot_append_slash h]
      exact ⟨room'.mpr short', (slashed' (room'.mpr short')).trans agree⟩
    refine List.forall_mem_cons.mpr ⟨(lists_iff (tameDot t tame)).mpr ⟨there, rfl⟩, ?_⟩
    refine List.forall_mem_singleton.mpr ((lists_iff (tameDot _ tameSlash)).mpr ?_)
    exact ⟨room.mpr short, slashed (room.mpr short)⟩

/-- What is left of a text leads to a directory with the same files, unless nothing is left of
it or a path from the root is, with files of its own. -/
theorem agree_withoutDot_iff (there : disk.isDirectory (Path.ofText t) = true) :
    (disk.isDirectory (Path.ofText (withoutDot t)) = true ∧
        (Scan.run disk (.directory (Path.ofText (withoutDot t))) ignores).files =
          (Scan.run disk (.directory (Path.ofText t)) ignores).files) ↔
      t ≠ ['.', '/'] ∧ ∀ rest, t = '.' :: '/' :: '/' :: rest →
        disk.isDirectory (Path.ofText ('/' :: rest)) = true ∧
          (Scan.run disk (.directory (Path.ofText ('/' :: rest))) ignores).files = [] ∧
          (Scan.run disk (.directory (Path.ofText t)) ignores).files = [] := by
  rcases withoutDot_cases t with ⟨rest, rfl, rest_eq⟩ | ⟨undotted, same⟩
  · rw [rest_eq]
    rcases rest with _ | ⟨c, rest⟩
    · -- The empty path leads nowhere.
      exact iff_of_false (fun h => Bool.false_ne_true h.1) fun h => h.1 rfl
    by_cases rooted : c = '/'
    · subst rooted
      constructor
      · rintro ⟨left, agree⟩
        refine ⟨by simp, fun rest' h => ?_⟩
        obtain rfl : rest = rest' := by simpa using h
        -- No path is in both, since those from the root are no relative paths.
        have none : (Scan.run disk (.directory (Path.ofText ('/' :: rest))) ignores).files = [] := by
          refine List.eq_nil_iff_forall_not_mem.mpr fun file hfile => ?_
          have absolute := Scan.absolute_of_mem_run left hfile
          have relative := Scan.absolute_of_mem_run there (agree ▸ hfile)
          cases absolute.symm.trans relative
        exact ⟨left, none, agree.symm.trans none⟩
      · rintro ⟨_, rooted⟩
        obtain ⟨left, none, none'⟩ := rooted rest rfl
        exact ⟨left, none.trans none'.symm⟩
    · have same := Path.ofText_dot (t := c :: rest) (by simpa using rooted)
      have spelled : Disk.misspelling? (Path.ofText (c :: rest)) = none := by
        refine Disk.misspelling?_of_sublist (Disk.misspelling?_of_isDirectory there) ?_ ?_
        · rw [Path.text_ofText, Path.text_ofText]
          exact List.sublist_append_right ['.', '/'] _
        · rw [Path.text_ofText]
          exact List.cons_ne_nil c rest
      refine iff_of_true (Scan.files_of_sameSteps same there spelled ignores) ⟨by simp, ?_⟩
      intro rest' h
      exact absurd (by simpa using h : c = '/' ∧ rest = rest').1 rooted
  · rw [same]
    refine iff_of_true ⟨there, rfl⟩ ⟨undotted [], fun rest h => absurd h (undotted _)⟩

/-- The spellings of a directory are all read as directories, and scans of them select the same
files, unless the directory is written `.` or `./`, or its text is so long that there is no room
for a slash, or it begins with `.//`: what is left then is a path from the root, and this must
be a directory, with no more to be selected in it than in the other. -/
theorem spellings_agree_iff (tame : hasWildcard t = false)
    (there : disk.isDirectory (Path.ofText t) = true) :
    (∃ files, ∀ s ∈ spellings t, Lists disk ignores s files) ↔
      t ≠ ['.'] ∧ t ≠ ['.', '/'] ∧ t.utf8Size + 1 < Disk.maxPath ∧
        ∀ rest, t = '.' :: '/' :: '/' :: rest →
          disk.isDirectory (Path.ofText ('/' :: rest)) = true ∧
            (Scan.run disk (.directory (Path.ofText ('/' :: rest))) ignores).files = [] ∧
            (Scan.run disk (.directory (Path.ofText t)) ignores).files = [] := by
  by_cases point : t = ['.']
  · subst point
    refine iff_of_false ?_ fun h => h.1 rfl
    rintro ⟨files, all⟩
    have slashed := all ['.', '/'] (by decide)
    exact Bool.false_ne_true ((lists_iff (by decide)).mp slashed).1
  · rw [spellings_agree_of_ne_point tame there point, agree_withoutDot_iff there]
    constructor
    · rintro ⟨short, nonempty, rooted⟩
      exact ⟨point, nonempty, short, rooted⟩
    · rintro ⟨_, nonempty, short, rooted⟩
      exact ⟨short, nonempty, rooted⟩

theorem spellings_agree_dotted :
    let disk : Disk := ⟨.directory Scan.sheetEntries, []⟩
    let ignores := IgnoreList.ofTexts ["vendor/**"]
    hasWildcard ("./lib" : Text) = false ∧ disk.isDirectory "./lib" = true ∧
      spellings "./lib" = ["./lib", "./lib/", "././lib", "././lib/"] ∧
      ∃ files, ∀ s ∈ spellings "./lib", Lists disk ignores s files := by
  intro disk ignores
  have there : disk.isDirectory "./lib" = true := by decide
  refine ⟨by decide, there, by decide, (spellings_agree_iff (by decide) there).mpr ?_⟩
  refine ⟨by decide, by decide, by decide, fun rest h => ?_⟩
  cases (List.cons.inj (List.cons.inj (List.cons.inj h).2).2).1

/-- The working directory is one that can be written `.` and cannot be written `./`. -/
theorem not_forall_spellings_agree : ¬ ∀ (disk : Disk) (ignores : IgnoreList) (t : Text),
    disk.Proper → hasWildcard t = false → disk.isDirectory (Path.ofText t) = true →
      ∃ files, ∀ s ∈ spellings t, Lists disk ignores s files := by
  intro h
  let disk := Disk.ofFiles [("a.less", ".a \x7b\x7d")]
  obtain ⟨files, all⟩ := h disk [] ['.'] (Disk.proper_ofFiles (by decide) (by decide)) (by decide)
    (by decide)
  obtain ⟨path, read_eq, _⟩ := all ['.', '/'] (by decide)
  have file : read disk ['.', '/'] = .ok (.file Path.empty) := rfl
  cases file.symm.trans read_eq

end SourcePattern

end StyleTypings
