/-
Watching — when a change is answered for the files that a scan selects.

A scan looks for files on the disk, name by name.  Watching compares the text of a path that
has changed with the pattern as a whole.  For one file and for a directory both come to the
same; for a glob they do if it keeps to names at that file (`KeepsToNames`): if the whole
matches the text of the path, the pieces lead to its names.  Not every glob does so.  `*.less`
matches `sub/b.less` but leads to style sheets of the working directory only, so a change of
`sub/b.less` is answered and a scan passes over it (`not_forall_selected_alike`).

A glob in which nothing can take a slash, except for a star right after `**/`, keeps to names
at every file (`keepsToNames_of_guarded`).
-/
import StyleTypings.Command.Watch
import StyleTypings.Proofs.Globs.Walking

namespace StyleTypings

open StyleTypings.Path (IsEntryName isFiller)

/-! ## Paths that lead down -/

namespace Path

/-- A path that leads down from the directory it is seen from, by one name after the other. -/
structure Descends (p : Path) : Prop where
  relative : p.absolute = false
  nonempty : p.segments ≠ []
  names : ∀ n ∈ p.segments, IsEntryName n ∧ '/' ∉ n

namespace Descends

variable {p : Path}

theorem eq (h : p.Descends) : p = ⟨false, p.segments⟩ := by
  obtain ⟨absolute, segments⟩ := p
  cases h.relative
  rfl

theorem entryNames (h : p.Descends) : ∀ n ∈ p.segments, IsEntryName n :=
  fun n hn => (h.names n hn).1

theorem isPlain (h : p.Descends) : p.IsPlain :=
  ⟨List.filter_eq_self.mpr fun n hn => by simp [(h.entryNames n hn).1], h.nonempty⟩

theorem normalize_eq (h : p.Descends) : p.normalize = p := by
  have steps := h.isPlain.steps_eq
  rw [Path.normalize_eq (steps ▸ h.nonempty), steps]

theorem leading_eq (h : p.Descends) : p.leading = [] := by
  rw [h.isPlain.leading_eq, h.relative]
  rfl

theorem text_eq (h : p.Descends) : p.text = Text.joinWith ['/'] p.segments := by
  rw [text, h.relative]
  rfl

theorem splitOn_text (h : p.Descends) : p.text.splitOn '/' = p.segments := by
  rw [h.text_eq, Text.splitOn_joinWith (fun n hn => (h.names n hn).2) h.nonempty]

end Descends

end Path

/-! ## Changes -/

namespace Path

theorem dropParts_append {names rest : List Text} (hnames : ∀ n ∈ names, IsEntryName n) :
    dropParts false names.length (names ++ rest) = dropParts false 0 rest := by
  induction names with
  | nil => rfl
  | cons n names ih =>
    obtain ⟨first, others⟩ := List.forall_mem_cons.mp hnames
    have kept : (n.isEmpty || ! false && n == ['.']) = false := first.1
    rw [List.length_cons, List.cons_append, dropParts, kept, ← ih others]
    rfl

theorem dropParts_zero {names : List Text} (hnames : ∀ n ∈ names, IsEntryName n) :
    dropParts false 0 names = names := by
  cases names with
  | nil => rfl
  | cons n names =>
    have hn := (hnames n List.mem_cons_self).1
    rw [dropParts, hn]
    rfl

theorem dropFillers_eq {names : List Text} (hnames : ∀ n ∈ names, IsEntryName n) (absolute : Bool) :
    dropFillers absolute names = names := by
  cases names with
  | nil => rfl
  | cons n names =>
    have filler := (hnames n List.mem_cons_self).1
    cases names with
    | nil =>
      rw [isFiller, Bool.or_eq_false_iff] at filler
      rw [dropFillers, filler.1, filler.2, Bool.and_false]
      rfl
    | cons m names =>
      rw [dropFillers, filler]
      · rfl
      · exact List.cons_ne_nil m names

end Path

section

variable {d : Disk} {f : Path}

theorem Disk.Proper.workingNames (hd : d.Proper) : ∀ n ∈ d.working, IsName n := by
  obtain ⟨entries, there⟩ := exists_directory hd.working
  exact (hd.tree.at? there).1

/-- A path below the working directory, from the root. -/
theorem Disk.workingPath_join (hd : d.Proper) (down : f.Descends) :
    d.workingPath.join f = ⟨true, d.working ++ f.segments⟩ := by
  rw [workingPath, pathOf, Path.join, if_neg (by simp [down.relative]), if_neg]
  · by_cases root : d.working = []
    · rw [root]
      rfl
    · rw [if_neg (by simpa using root)]
      obtain ⟨last, hlast⟩ : ∃ last, d.working.getLast? = some last :=
        Option.isSome_iff_exists.mp (by simp [root])
      have named := (hd.workingNames last (List.mem_of_getLast? hlast)).entryName.ne_nil
      simp only [hlast]
      split
      · rename_i same
        exact absurd (Option.some.inj same) named
      · rfl
  · simp [Path.isEmpty, Path.text]

/-- Seen from the working directory, it is the path again. -/
theorem Disk.stripPrefix?_workingPath (hd : d.Proper) (down : f.Descends) :
    Path.stripPrefix? (d.workingPath.join f) d.workingPath = some f := by
  have entryNames : ∀ n ∈ d.working, IsEntryName n := fun n hn => (hd.workingNames n hn).entryName
  have fillers {names : List Text} (hnames : ∀ n ∈ names, IsEntryName n) :
      names.filter (! isFiller ·) = names :=
    List.filter_eq_self.mpr fun n hn => by simp [(hnames n hn).1]
  have base : d.workingPath.parts = .root :: d.working.map Path.partOf := by
    rw [workingPath, pathOf]
    by_cases root : d.working = []
    · rw [root]
      rfl
    · rw [if_neg (by simpa using root)]
      show Path.Part.root :: Path.partsAfter _ = _
      rw [Path.partsAfter, fillers entryNames]
  have whole : (⟨true, d.working ++ f.segments⟩ : Path).parts =
      .root :: (d.working.map Path.partOf ++ f.segments.map Path.partOf) := by
    show Path.Part.root :: Path.partsAfter _ = _
    rw [Path.partsAfter, List.filter_append, fillers entryNames, fillers down.entryNames,
      List.map_append]
  have begins : Path.startsWith ⟨true, d.working ++ f.segments⟩ d.workingPath = true := by
    rw [Path.startsWith, base, whole, List.isPrefixOf_iff_prefix]
    exact ⟨_, List.cons_append⟩
  have last : ∀ n ∈ f.segments.reverse, IsEntryName n := fun n hn =>
    down.entryNames n (List.mem_reverse.mp hn)
  rw [workingPath_join hd down, Path.stripPrefix?, begins, base]
  simp only [Bool.not_true, Bool.false_eq_true, if_false, List.isEmpty_cons, if_true,
    List.length_cons, List.length_map, Nat.add_sub_cancel]
  rw [Path.dropParts_append entryNames, Path.dropParts_zero down.entryNames,
    Path.dropFillers_eq last, Path.ofReversed, if_neg (by simpa using down.nonempty),
    List.reverse_reverse, ← down.eq]

/-! ## What watching selects -/

variable {pattern : SourcePattern} {ignores : IgnoreList}

/-- A change of a file below the working directory is answered by one action, which is for this
file, just if the pattern selects the path of the file and no ignored pattern does. -/
theorem WatchAction.ofPaths_modified (hd : d.Proper) (down : f.Descends)
    (file : d.isFile (d.workingPath.join f) = true) :
    ofPaths d pattern ignores d.workingPath .modified [d.workingPath.join f] = [.generate f] ↔
      pattern.selects f = true ∧ ignores.ignores f = false := by
  have seen : selected? pattern d.workingPath (d.workingPath.join f) =
      if pattern.selects f then some f
      else if pattern.selects (d.workingPath.join f) then some (d.workingPath.join f)
      else none := by
    rw [selected?, Disk.stripPrefix?_workingPath hd down]
    rfl
  have other : d.workingPath.join f ≠ f := by
    rw [Disk.workingPath_join hd down, down.eq]
    nofun
  have single (a : Option WatchAction) : distinct ([a].filterMap id) = [.generate f] ↔
      a = some (.generate f) := by
    cases a <;> simp [distinct]
  have answer : ofPaths d pattern ignores d.workingPath .modified [d.workingPath.join f] =
      distinct ([at? d pattern ignores d.workingPath .modified
        (d.workingPath.join f)].filterMap id) := rfl
  rw [answer, single, at?, seen]
  simp only [Option.bind_eq_bind]
  by_cases selected : pattern.selects f = true
  · rw [if_pos selected, Option.bind_some]
    cases ignored : ignores.ignores f <;> simp [selected, ofChange?, file]
  · rw [if_neg selected]
    refine iff_of_false (fun h => ?_) fun h => selected h.1
    split at h
    · rw [Option.bind_some] at h
      split at h
      · cases h
      · simp only [ofChange?, file, if_true] at h
        exact other (by simpa using h)
    · cases h

/-! ## What a scan selects -/

/-- A file that a pattern leads to on a disk, before any are left out. -/
def Scan.IsCandidate (d : Disk) (pattern : SourcePattern) (p : Path) : Prop :=
  ∃ paths, candidates d pattern = .ok paths ∧ ∃ q ∈ paths, q.normalize = p

theorem Scan.mem_run_iff_isCandidate (hd : d.Proper) (down : f.Descends) :
    f ∈ (run d pattern ignores).files ↔ IsCandidate d pattern f ∧ ignores.ignores f = false := by
  have same {q : Path} (h : q.normalize = f) : ignores.ignores q = ignores.ignores f := by
    rw [IgnoreList.ignores, IgnoreList.ignores, h, down.normalize_eq]
  constructor
  · intro h
    obtain ⟨paths, q, hpaths, hq, hf, kept⟩ := exists_candidate_of_mem_run h
    exact ⟨⟨paths, hpaths, q, hq, hf.symm⟩, (same hf.symm).symm.trans kept⟩
  · rintro ⟨⟨paths, hpaths, q, hq, hf⟩, kept⟩
    exact (mem_run_iff hd hpaths).mpr ⟨q, hq, (same hf).trans kept, hf⟩

theorem Scan.isCandidate_file {path : Path} :
    IsCandidate d (.file path) f ↔ d.isFile path = true ∧ path.normalize = f := by
  rw [IsCandidate, candidates]
  split
  · rename_i file
    simp [file]
  · rename_i file
    simp [file]

/-- A file below the working directory stands at its names. -/
theorem Disk.at?_of_isFile (down : f.Descends) (file : d.isFile f = true) :
    ∃ content, d.root.at? (d.working ++ f.segments) = some (.file content) := by
  obtain ⟨here, content, located, kind⟩ := isFile_iff.mp file
  have follow := (locate_eq_ok.mp located).2
  rw [start, if_neg (by simp [down.relative])] at follow
  rw [eq_append_of_follow down.entryNames follow] at kind
  obtain ⟨e, hat, hkind⟩ := at?_of_kind? kind
  cases e with
  | file content => exact ⟨content, hat⟩
  | directory => cases hkind

/-- So does a directory, with fillers among its names or without. -/
theorem Disk.at?_of_isDirectory {p : Path} (relative : p.absolute = false)
    (names : ∀ n ∈ p.steps, IsEntryName n) (there : d.isDirectory p = true) :
    ∃ entries, d.entry p = .ok (.directory entries) ∧
      d.root.at? (d.working ++ p.steps) = some (.directory entries) := by
  rw [isDirectory] at there
  split at there
  · rename_i entries hentry
    obtain ⟨base, located, hbase⟩ := entry_eq_ok.mp hentry
    have leads := leads_of_locate located
    rw [Leads, start, if_neg (by simp [relative])] at leads
    rw [eq_append_of_follow names leads] at hbase
    exact ⟨entries, hentry, hbase⟩
  · cases there

/-- A file is a candidate under a directory just if it is a style sheet below the directory. -/
theorem Scan.isCandidate_directory (hd : d.Proper) {directory : Path}
    (there : d.isDirectory directory = true) (down : f.Descends) (file : d.isFile f = true) :
    IsCandidate d (.directory directory) f ↔
      f.isStyleSheet = true ∧ f.startsWith directory.normalize = true := by
  rw [Path.startsWith_normalize_iff down.leading_eq]
  constructor
  · rintro ⟨paths, hpaths, q, hq, rfl⟩
    obtain ⟨base, names, _, _, absolute, steps, sheet⟩ := mem_candidates_directory hd hpaths hq
    refine ⟨Path.isStyleSheet_normalize sheet, ?_, names, ?_⟩
    · rw [← absolute, ← Path.absolute_normalize, down.relative]
    · rw [Path.steps_normalize, steps]
  · rintro ⟨sheet, relative, names, steps⟩
    have hnames : ∀ n ∈ directory.steps ++ names, IsEntryName n := by
      rw [steps, down.isPlain.steps_eq]
      exact down.entryNames
    obtain ⟨entries, hentry, hbase⟩ := Disk.at?_of_isDirectory relative
      (fun n hn => hnames n (List.mem_append_left _ hn)) there
    obtain ⟨content, below⟩ := Disk.at?_of_isFile down file
    rw [← down.isPlain.steps_eq, ← steps, ← List.append_assoc, Entry.at?_append, hbase,
      Option.bind_some] at below
    obtain ⟨init, n, rfl⟩ : ∃ init n, names = init ++ [n] := by
      rcases names.eq_nil_or_concat with rfl | ⟨init, n, rfl⟩
      · cases below
      · exact ⟨init, n, List.concat_eq_append⟩
    have met : ⟨(init ++ [n]).foldl Path.child directory, n, .file content⟩ ∈
        Entry.walkAll Path.child directory entries := Entry.mem_walkAll_of_at? below directory
    have named : ∀ m ∈ init ++ [n], IsEntryName m := fun m hm =>
      hnames m (List.mem_append_right _ hm)
    obtain ⟨absolute, steps'⟩ := Path.extends_child.foldl named directory
    generalize (init ++ [n]).foldl Path.child directory = q at met absolute steps'
    have steps_eq : q.steps = f.steps := steps'.trans steps
    have candidates_eq : candidates d (.directory directory) =
        .ok (styleSheets ((Entry.directory entries).walk Path.child directory [])) := by
      rw [candidates, hentry]
    refine ⟨_, candidates_eq, q,
      List.mem_map.mpr ⟨_, List.mem_filter.mpr ⟨.tail _ met, ?_⟩, rfl⟩, ?_⟩
    · exact Path.isStyleSheet_of_steps steps_eq sheet
    · have nonempty : q.steps ≠ [] := by
        rw [steps_eq, down.isPlain.steps_eq]
        exact down.nonempty
      rw [Path.normalize_eq nonempty, absolute, steps_eq, relative, down.isPlain.steps_eq,
        ← down.eq]

/-- Whether the pieces of a relative glob lead to names. -/
def Glob.LeadsTo (g : Glob) (names : List Text) : Prop :=
  g.text.head? ≠ some '/' ∧ g.text.getLast? ≠ some '/' ∧
    ∃ ps, pieces g.text = .ok ps ∧ Leads ps names

/-- Whether every piece of a relative glob takes names. -/
def Glob.Regular (g : Glob) : Prop :=
  g.text.head? ≠ some '/' → ∀ ps, pieces g.text = .ok ps → ∀ p ∈ ps, p.Regular

theorem Glob.files_relative {g : Glob} (relative : g.text.head? ≠ some '/') : files d g =
    (pieces g.text).map fun ps =>
      if g.text.getLast? == some '/' then [] else walk d ps (pathTo []) := by
  rw [files]
  split
  rename_i begins
  split at begins
  · rename_i slash
    exact absurd (by rw [slash]; rfl) relative
  · cases begins
    rfl

theorem Glob.files_absolute {g : Glob} {rest : Text} (absolute : g.text = '/' :: rest) :
    files d g = (pieces rest).map fun ps =>
      if g.text.getLast? == some '/' then [] else walk d ps (Path.ofText ['/']) := by
  obtain ⟨text, tokens⟩ := g
  cases absolute
  rfl

/-- A file is a candidate of a glob just if the pieces of the glob lead to its names. -/
theorem Scan.isCandidate_glob (hd : d.Proper) {g : Glob} (regular : g.Regular) (down : f.Descends)
    (file : d.isFile f = true) : IsCandidate d (.glob g) f ↔ g.LeadsTo f.segments := by
  by_cases absolute : g.text.head? = some '/'
  · refine iff_of_false ?_ fun h => h.1 absolute
    obtain ⟨rest, htext⟩ := List.head?_eq_some_iff.mp absolute
    rintro ⟨paths, hpaths, q, hq, hf⟩
    rw [candidates, Glob.files_absolute htext] at hpaths
    have root : q.absolute = true := by
      cases hps : Glob.pieces rest with
      | error e => simp [hps, Except.map] at hpaths
      | ok ps =>
        simp only [hps, Except.map, Except.ok.injEq] at hpaths
        subst hpaths
        split at hq
        · cases hq
        · exact Glob.absolute_of_mem_walk hd hq
    rw [← Path.absolute_normalize, hf, down.relative] at root
    cases root
  · rw [IsCandidate, candidates, Glob.files_relative absolute]
    cases hps : Glob.pieces g.text with
    | error e =>
      refine iff_of_false ?_ ?_
      · rintro ⟨_, none, _⟩
        cases none
      · rintro ⟨_, _, ps, hps', _⟩
        rw [hps] at hps'
        cases hps'
    | ok ps =>
      simp only [Except.map, Except.ok.injEq, exists_eq_left', beq_iff_eq]
      have cut := Glob.cut_of_pieces hps
      by_cases closed : g.text.getLast? = some '/'
      · simp [closed, Glob.LeadsTo]
      rw [if_neg closed]
      constructor
      · rintro ⟨q, hq, hf⟩
        obtain ⟨_, names, steps, leads⟩ :=
          Glob.reaches_of_mem_walk hd cut (regular absolute ps hps) hq
        have segments : f.segments = names := by
          rw [← down.isPlain.steps_eq, ← hf, Path.steps_normalize, steps]
          rfl
        exact ⟨absolute, closed, ps, hps, segments ▸ leads⟩
      · rintro ⟨_, _, ps', hps', leads⟩
        obtain rfl := Except.ok.inj (hps.symm.trans hps')
        rw [down.eq] at file
        refine ⟨f, ?_, down.normalize_eq⟩
        have nonempty : ps ≠ [] := mt leads.eq_nil_iff.mpr down.nonempty
        have found : ⟨false, [] ++ f.segments⟩ ∈ Glob.walk d ps (Glob.pathTo []) :=
          Glob.mem_walk_of_leads hd down.entryNames file leads nonempty
        rwa [List.nil_append, ← down.eq] at found

/-! ## Both -/

/-- What can be followed from the root can be followed from the working directory. -/
theorem Disk.isFile_of_workingPath (hd : d.Proper) (down : f.Descends)
    (file : d.isFile (d.workingPath.join f) = true) : d.isFile f = true := by
  rw [workingPath_join hd down] at file
  obtain ⟨here, content, located, kind⟩ := isFile_iff.mp file
  obtain ⟨spelled, follow⟩ := locate_eq_ok.mp located
  refine isFile_iff.mpr ⟨here, content, locate_eq_ok.mpr ⟨?_, ?_⟩, kind⟩
  · refine misspelling?_of_sublist spelled ?_ ?_
    · rw [down.text_eq]
      have whole := (Text.joinWith_suffix ['/'] d.working down.nonempty).sublist
      exact whole.trans (List.sublist_cons_self '/' _)
    · rw [down.text_eq]
      exact Text.joinWith_ne_nil down.nonempty fun n hn => (down.entryNames n hn).ne_nil
  · have split : d.follow (d.working ++ f.segments) [] = .ok here := follow
    rw [follow_append] at split
    cases first : d.follow d.working [] with
    | error e =>
      rw [first] at split
      cases split
    | ok middle =>
      have names : ∀ n ∈ d.working, IsEntryName n := fun n hn => (hd.workingNames n hn).entryName
      rw [first, eq_append_of_follow names first, List.nil_append] at split
      rw [start, if_neg (by simp [down.relative])]
      exact split

namespace SourcePattern

/-- Whether the pieces of a pattern that is a relative glob take names. -/
def Regular : SourcePattern → Prop
  | .glob g => g.Regular
  | _ => True

/-- Whether a pattern selects a path only where it leads to the file: for a glob, if the pieces
lead to its names, and for a single file, if the pattern as it is written leads to a file. -/
def KeepsToNames (d : Disk) (p : Path) : SourcePattern → Prop
  | .file path => path.normalize = p → d.isFile path = true
  | .directory _ => True
  | .glob g => g.admitsText p.text = true → g.LeadsTo p.segments

theorem selects_file {path : Path} (down : f.Descends) :
    (SourcePattern.file path).selects f = true ↔ path.normalize = f := by
  rw [selects, down.normalize_eq]
  by_cases none : path.steps = []
  · have parts : f.parts = f.segments.map Path.partOf := by
      rw [Path.parts_eq, down.leading_eq, down.isPlain.steps_eq, List.nil_append]
    obtain ⟨n, rest, segments⟩ := List.exists_cons_of_ne_nil down.nonempty
    rw [Path.normalize_of_steps none]
    refine iff_of_false (fun same => ?_) fun same => ?_
    · rw [Path.same, beq_iff_eq, parts, segments] at same
      split at same
      · exact Path.partOf_ne_root n (List.cons.inj same).1.symm
      · cases same
    · have named := (down.entryNames [] (by rw [← same]; split <;> simp [Path.empty])).ne_nil
      exact named rfl
  · exact (Path.isPlain_normalize none).same_iff down.isPlain

theorem selects_directory {directory : Path} (down : f.Descends) :
    (SourcePattern.directory directory).selects f = true ↔
      f.isStyleSheet = true ∧ f.startsWith directory.normalize = true := by
  rw [selects, down.normalize_eq, Bool.and_eq_true, Bool.or_eq_true]
  refine and_congr_right fun _ => or_iff_right_of_imp fun here => ?_
  obtain ⟨relative, none⟩ := Path.isCurrent_iff.mp here
  exact (Path.startsWith_normalize_iff down.leading_eq).mpr ⟨relative, none ▸ List.nil_prefix⟩

theorem directory_of_read {t : Text} {path : Path} (h : read d t = .ok (.directory path)) :
    d.isDirectory path = true := by
  rw [read] at h
  split at h
  · cases hg : Glob.read (withoutDot t) <;> simp [hg, Except.map] at h
  · simp only [Except.ok.injEq] at h
    split at h
    · cases h
      assumption
    · cases h

/-- What the pieces of a glob lead to, its whole matches. -/
theorem selects_of_leadsTo {g : Glob} (hg : Glob.read g.text = .ok g) (down : f.Descends)
    (h : g.LeadsTo f.segments) : g.admitsText f.text = true := by
  obtain ⟨_, closed, ps, hps, leads⟩ := h
  rw [Glob.admitsText_iff hg hps closed, down.text_eq]
  exact Glob.matches_of_leads leads

/-- What a pattern leads to on a disk, it selects; and what it selects, it leads to, just if it
keeps to names. -/
theorem isCandidate_iff_selects {t : Text} (hd : d.Proper) (hread : read d t = .ok pattern)
    (regular : pattern.Regular) (down : f.Descends) (file : d.isFile f = true) :
    (Scan.IsCandidate d pattern f ↔ pattern.selects f = true) ↔ pattern.KeepsToNames d f := by
  cases pattern with
  | file path =>
    rw [Scan.isCandidate_file, selects_file down, KeepsToNames]
    exact ⟨fun h same => (h.mpr same).1, fun h => ⟨fun both => both.2, fun same => ⟨h same, same⟩⟩⟩
  | directory path =>
    rw [Scan.isCandidate_directory hd (directory_of_read hread) down file, selects_directory down]
    exact iff_of_true .rfl trivial
  | glob g =>
    have leads := selects_of_leadsTo (glob_of_read hread).1 down
    rw [Scan.isCandidate_glob hd regular down file, selects, down.normalize_eq, KeepsToNames]
    exact ⟨fun h => h.mpr, fun h => ⟨leads, h⟩⟩

/-- A glob in which nothing can take a slash, except for a star right after `**/`, keeps to names
at every file. -/
theorem keepsToNames_of_guarded {g : Glob} (hg : Glob.read g.text = .ok g)
    (relative : g.text.head? ≠ some '/') (closed : g.text.getLast? ≠ some '/')
    {ps : List Glob.Piece} (hps : Glob.pieces g.text = .ok ps) (guarded : Glob.Guarded ps)
    (down : f.Descends) : (SourcePattern.glob g).KeepsToNames d f := by
  intro admitted
  rw [Glob.admitsText_iff hg hps closed] at admitted
  have nonempty : ps ≠ [] := by
    rintro rfl
    have named : Text.joinWith ['/'] f.segments ≠ [] :=
      Text.joinWith_ne_nil down.nonempty fun n hn => (down.entryNames n hn).ne_nil
    rw [← down.text_eq] at named
    cases htext : f.text with
    | nil => exact named htext
    | cons c rest =>
      rw [htext] at admitted
      cases admitted
  rw [← down.splitOn_text]
  exact ⟨relative, closed, ps, hps, Glob.leads_of_matches guarded nonempty admitted⟩

end SourcePattern

/-- A scan selects a file just if a change of the file is answered for it, unless the pattern
selects its path and does not keep to names there. -/
theorem selected_alike_iff {t : Text} (hd : d.Proper) (hread : SourcePattern.read d t = .ok pattern)
    (regular : pattern.Regular) (down : f.Descends)
    (file : d.isFile (d.workingPath.join f) = true) :
    (f ∈ (Scan.run d pattern ignores).files ↔
      WatchAction.ofPaths d pattern ignores d.workingPath .modified [d.workingPath.join f] =
        [.generate f]) ↔
      ignores.ignores f = true ∨ pattern.KeepsToNames d f := by
  have here := Disk.isFile_of_workingPath hd down file
  rw [Scan.mem_run_iff_isCandidate hd down, WatchAction.ofPaths_modified hd down file,
    ← SourcePattern.isCandidate_iff_selects hd hread regular down here]
  cases ignores.ignores f <;> simp

end

/-- The disk with one style sheet, in a directory. -/
def nestedSheet : Disk :=
  ⟨.directory [("sub", .directory [("b.less", .file (.text ".a { c: d; }"))])], []⟩

theorem proper_nestedSheet : nestedSheet.Proper where
  tree := by
    refine .directory (List.pairwise_singleton ..) (by decide) ?_
    refine List.forall_mem_singleton.mpr ?_
    refine .directory (List.pairwise_singleton ..) (by decide) ?_
    exact List.forall_mem_singleton.mpr (.file _)
  working := rfl

theorem descends_sheet : Path.Descends "sub/b.less" := ⟨rfl, by decide, by decide⟩

/-- The glob for the style sheets in any directory. -/
def sheetsAnywhere : Glob :=
  ⟨"**/*.less", .anyDirectories :: .anySequence :: (".less" : Text).map .char⟩

theorem selected_alike_nestedSheet :
    SourcePattern.read nestedSheet "**/*.less" = .ok (.glob sheetsAnywhere) ∧
      (Path.ofText ("sub/b.less" : Text) ∈ (Scan.run nestedSheet (.glob sheetsAnywhere) []).files ↔
        WatchAction.ofPaths nestedSheet (.glob sheetsAnywhere) [] nestedSheet.workingPath .modified
          [nestedSheet.workingPath.join "sub/b.less"] = [.generate "sub/b.less"]) := by
  have hread : SourcePattern.read nestedSheet "**/*.less" = .ok (.glob sheetsAnywhere) := by decide
  have hps : Glob.pieces ("**/*.less" : Text) =
      .ok [.directories, .wild (.anySequence :: (".less" : Text).map .char)] := by decide
  have regular : (SourcePattern.glob sheetsAnywhere).Regular := by
    intro _ ps h
    obtain rfl := Except.ok.inj (hps.symm.trans h)
    decide
  have guarded : Glob.Guarded [.directories, .wild (.anySequence :: (".less" : Text).map .char)] :=
    ⟨by decide, by decide, trivial⟩
  have keeps : (SourcePattern.glob sheetsAnywhere).KeepsToNames nestedSheet "sub/b.less" :=
    SourcePattern.keepsToNames_of_guarded (by decide) (by decide) (by decide) hps guarded
      descends_sheet
  exact ⟨hread, (selected_alike_iff proper_nestedSheet hread regular descends_sheet
    (by decide)).mpr (.inr keeps)⟩

/-- In a change, a star takes a slash, which it does not in a scan. -/
theorem not_forall_selected_alike : ¬ ∀ (d : Disk) (t : Text) (pattern : SourcePattern)
    (ignores : IgnoreList) (f : Path), d.Proper → t.head? ≠ some '/' →
      SourcePattern.read d t = .ok pattern → f.Descends → d.isFile (d.workingPath.join f) = true →
        (f ∈ (Scan.run d pattern ignores).files ↔
          WatchAction.ofPaths d pattern ignores d.workingPath .modified [d.workingPath.join f] =
            [.generate f]) := by
  intro h
  let g : Glob := ⟨"*.less", .anySequence :: (".less" : Text).map .char⟩
  have alike := h nestedSheet "*.less" (.glob g) [] "sub/b.less" proper_nestedSheet (by decide)
    (by decide) descends_sheet (by decide)
  exact absurd (alike.mpr (by decide)) (by decide)

end StyleTypings
