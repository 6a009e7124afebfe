/-
Walking — the files that a glob leads to on a disk.

What a walk finds depends on the disk only in that it is there.  A path that is found has
behind it the names that the pieces lead to (`reaches_of_mem_walk`), and a file at such names
is found (`mem_walk_of_leads`).

This is so for pieces that take names (`Regular`).  An empty piece or `.` stays in the
directory, and `.*` does so in one of its ways, since it takes the name `.`; so the pattern
`.*/a.less` leads to `a.less` with no name for its first piece.
-/
import StyleTypings.Proofs.Files.Fillers
import StyleTypings.Proofs.Files.Scans
import StyleTypings.Proofs.Globs.Pieces

namespace StyleTypings

open StyleTypings.Path (IsEntryName Extends isFiller)

/-! ## Entries below a directory -/

namespace Entry

variable {step : Path → Text → Path}

theorem mem_walk_self (path : Path) (name : Text) (e : Entry) :
    ⟨path, name, e⟩ ∈ e.walk step path name := by
  cases e with
  | file content => exact List.mem_singleton.mpr rfl
  | directory entries => exact List.mem_cons_self

/-- An entry met on a walk has its name at the end of its path. -/
theorem walk_named (adds : Extends step) {e : Entry} (h : e.Proper) {path : Path} {name : Text}
    {f : Found} (hf : f ∈ e.walk step path name) : ∃ names, f.path.absolute = path.absolute ∧
      f.path.steps = path.steps ++ names ∧ (name :: names).getLast? = some f.name := by
  induction h generalizing path name with
  | file content =>
    rw [walk, List.mem_singleton] at hf
    subst hf
    exact ⟨[], rfl, (List.append_nil _).symm, rfl⟩
  | @directory entries ordered names below ih =>
    rw [walk, List.mem_cons, walkAll_eq_flatMap, List.mem_flatMap] at hf
    rcases hf with rfl | ⟨⟨n, child⟩, hx, hf⟩
    · exact ⟨[], rfl, (List.append_nil _).symm, rfl⟩
    · obtain ⟨rest, habsolute, hsteps, last⟩ := ih (n, child) hx hf
      obtain ⟨same, added⟩ := adds path (names (n, child) hx).entryName
      refine ⟨n :: rest, habsolute.trans same, ?_, ?_⟩
      · rw [hsteps, added, List.append_assoc, List.singleton_append]
      · rw [List.getLast?_cons_cons, last]

theorem walkAll_named (adds : Extends step) {entries : List (Text × Entry)}
    (h : Proper (.directory entries)) {path : Path} {f : Found}
    (hf : f ∈ walkAll step path entries) : ∃ above, f.path.absolute = path.absolute ∧
      f.path.steps = path.steps ++ (above ++ [f.name]) := by
  cases h with
  | directory ordered names below =>
    rw [walkAll_eq_flatMap, List.mem_flatMap] at hf
    obtain ⟨⟨n, child⟩, hx, hf⟩ := hf
    obtain ⟨rest, habsolute, hsteps, last⟩ := walk_named adds (below (n, child) hx) hf
    obtain ⟨same, added⟩ := adds path (names (n, child) hx).entryName
    obtain ⟨above, hlast⟩ := List.getLast?_eq_some_iff.mp last
    refine ⟨above, habsolute.trans same, ?_⟩
    rw [hsteps, added, List.append_assoc, ← hlast, List.singleton_append]

/-- What is met below an entry of a directory is met below the directory. -/
theorem mem_walkAll_of_lookup {entries : List (Text × Entry)} {name : Text} {e : Entry}
    (found : entries.lookup name = some e) {path : Path} {f : Found}
    (hf : f ∈ e.walk step (step path name) name) : f ∈ walkAll step path entries := by
  rw [walkAll_eq_flatMap, List.mem_flatMap]
  obtain ⟨before, after, rfl, _⟩ := List.lookup_eq_some_iff.mp found
  exact ⟨(name, e), by simp, hf⟩

/-- What stands at some names is met on a walk. -/
theorem mem_walkAll_of_at? {entries : List (Text × Entry)} {names : List Text} {n : Text}
    {e : Entry} (there : (Entry.directory entries).at? (names ++ [n]) = some e) (path : Path) :
    ⟨(names ++ [n]).foldl step path, n, e⟩ ∈ walkAll step path entries := by
  induction names generalizing entries path with
  | nil =>
    obtain ⟨child, found, here⟩ := Option.bind_eq_some_iff.mp there
    cases here
    exact mem_walkAll_of_lookup found (mem_walk_self _ _ _)
  | cons m names ih =>
    obtain ⟨child, found, below⟩ := Option.bind_eq_some_iff.mp there
    cases child with
    | file content =>
      cases names <;> cases below
    | directory entries' =>
      exact mem_walkAll_of_lookup found (.tail _ (ih below (step path m)))

end Entry

namespace Glob

variable {d : Disk}

/-- Whether a piece takes a name: one that is written out is not empty and not `.`, and one with
wildcards does not take `.`. -/
def Piece.Regular : Piece → Prop
  | .name n => isFiller n = false
  | .directories => True
  | .wild ts => admitsSpecial ts ['.'] = false

instance (p : Piece) : Decidable p.Regular := by
  cases p with
  | name n => exact inferInstanceAs (Decidable (isFiller n = false))
  | directories => exact inferInstanceAs (Decidable True)
  | wild ts => exact inferInstanceAs (Decidable (admitsSpecial ts ['.'] = false))

/-- An entry met on a walk from the directory at a path has its name at the end of its path. -/
theorem named_of_mem_walkAll (hd : d.Proper) {directory : Path} {f : Found}
    (hf : f ∈ Entry.walkAll entryPath directory (d.entriesAt directory)) :
    ∃ above, f.path.absolute = directory.absolute ∧
      f.path.steps = directory.steps ++ (above ++ [f.name]) := by
  rcases d.entriesAt_cases directory with none | ⟨base, leads, there⟩
  · rw [none] at hf
    cases hf
  · exact Entry.walkAll_named Path.extends_entryPath (hd.tree.at? there).2 hf

theorem isName_of_mem_entriesAt (hd : d.Proper) {directory : Path} {x : Text × Entry}
    (hx : x ∈ d.entriesAt directory) : Disk.IsName x.1 := by
  rcases d.entriesAt_cases directory with none | ⟨base, _, there⟩
  · rw [none] at hx
    cases hx
  · cases (hd.tree.at? there).2 with
    | directory ordered names below => exact names x hx

theorem admits_map_char (n : Text) : admits (n.map .char) n = true := by
  refine admits_of_matches (fun member => ?_) (matches_map_char n)
  simp at member

/-- What an entry adds to a walk if its name is taken: itself, if no piece is left and it is a
file, and otherwise what is found from it. -/
theorem mem_taken_iff {ts : List Token} {name : Text} {e : Entry} {rest : List Piece}
    {path p : Path} :
    p ∈ (if ! admits ts name then []
      else if rest.isEmpty then (if e.isDirectory then [] else [path])
      else walk d rest path) ↔
      admits ts name = true ∧
        (rest = [] ∧ e.isDirectory = false ∧ p = path ∨ rest ≠ [] ∧ p ∈ walk d rest path) := by
  cases rest with
  | nil => cases admits ts name <;> cases e.isDirectory <;> simp
  | cons piece rest => cases admits ts name <;> simp

/-- Of the two special names, tokens that do not take `.` can take the one that leads up. -/
theorem admits_of_mem_special {ts : List Token} {name : Text} {there : Bool}
    (stays : admitsSpecial ts ['.'] = false)
    (h : name ∈ if there then (["..", "."].map String.toList).filter (admitsSpecial ts) else []) :
    isFiller name = false ∧ admits ts name = true := by
  split at h
  · obtain ⟨special, admitted⟩ := List.mem_filter.mp h
    rw [List.map_cons, List.map_singleton, List.mem_pair] at special
    rcases special with rfl | rfl
    · rw [admitsSpecial, Bool.and_eq_true] at admitted
      exact ⟨rfl, admitted.2⟩
    · exact absurd (stays.symm.trans admitted) Bool.false_ne_true
  · cases h

/-- A path goes on from a directory by names that pieces lead to. -/
def Reaches (directory : Path) (ps : List Piece) (p : Path) : Prop :=
  p.absolute = directory.absolute ∧
    ∃ names, p.steps = directory.steps ++ names ∧ Leads ps names

namespace Reaches

variable {directory below p : Path} {piece : Piece} {rest : List Piece} {n : Text}

theorem refl (p : Path) : Reaches p [] p := ⟨rfl, [], (List.append_nil _).symm, .done⟩

theorem step (here : below.absolute = directory.absolute ∧ below.steps = directory.steps ++ [n])
    (single : .anyDirectories ∉ piece.tokens) (admitted : admits piece.tokens n = true)
    (h : Reaches below rest p) : Reaches directory (piece :: rest) p := by
  obtain ⟨absolute, names, steps, leads⟩ := h
  refine ⟨absolute.trans here.1, n :: names, ?_, .step single admitted leads⟩
  rw [steps, here.2, List.append_assoc, List.singleton_append]

theorem descend {above : List Text} (here : below.absolute = directory.absolute ∧
      below.steps = directory.steps ++ (above ++ [n]))
    (single : .anyDirectories ∉ piece.tokens) (admitted : admits piece.tokens n = true)
    (h : Reaches below rest p) : Reaches directory (.directories :: piece :: rest) p := by
  obtain ⟨absolute, names, steps, leads⟩ := h
  refine ⟨absolute.trans here.1, above ++ n :: names, ?_, .descend above single admitted leads⟩
  rw [steps, here.2, List.append_assoc, List.append_assoc, List.singleton_append]

end Reaches

/-- A path to which regular pieces lead from a directory goes on from it by names that they
lead to. -/
theorem reaches_of_mem_walk (hd : d.Proper) {ps : List Piece} {directory p : Path} (cut : Cut ps)
    (regular : ∀ p ∈ ps, p.Regular) (h : p ∈ walk d ps directory) : Reaches directory ps p := by
  fun_induction walk d ps directory with
  | case1 | case2 | case4 | case6 => cases h
  | case3 n rest directory path exists' there last file =>
    obtain rfl := List.isEmpty_iff.mp last
    obtain rfl := List.mem_singleton.mp h
    have here := Path.steps_entryPath directory (regular _ List.mem_cons_self)
    have single := cut.single (.name n) List.mem_cons_self (by simp)
    exact .step here single (admits_map_char n) (.refl _)
  | case5 n rest directory path exists' there last ih =>
    have here := Path.steps_entryPath directory (regular _ List.mem_cons_self)
    have single := cut.single (.name n) List.mem_cons_self (by simp)
    have later := ih cut.tail (fun p hp => regular p (.tail _ hp)) h
    exact .step here single (admits_map_char n) later
  | case7 piece rest directory ih =>
    obtain ⟨f, hf, found⟩ := List.mem_flatMap.mp h
    obtain ⟨above, here⟩ := named_of_mem_walkAll hd hf
    have one : piece ≠ .directories := (List.isChain_cons_cons.mp cut.apart).1 rfl
    have single := cut.single piece (by simp) one
    obtain ⟨admitted, ⟨rfl, _, rfl⟩ | ⟨_, found⟩⟩ := mem_taken_iff.mp found
    · exact .descend here single admitted (.refl _)
    · have later := ih f cut.tail.tail (fun p hp => regular p (.tail _ (.tail _ hp))) found
      exact .descend here single admitted later
  | case8 tokens rest directory found special ih' ih =>
    have single := cut.single (.wild tokens) List.mem_cons_self (by simp)
    have others : ∀ p ∈ rest, p.Regular := fun p hp => regular p (.tail _ hp)
    rcases List.mem_append.mp h with h | h
    · obtain ⟨name, hname, found⟩ := List.mem_flatMap.mp h
      have stays : admitsSpecial tokens ['.'] = false := regular (.wild tokens) List.mem_cons_self
      obtain ⟨filler, admitted⟩ := admits_of_mem_special stays hname
      have here := Path.steps_child directory filler
      exact .step here single admitted (ih name cut.tail others found)
    · obtain ⟨⟨name, e⟩, hx, under⟩ := List.mem_flatMap.mp h
      have here := Path.steps_entryPath directory (isName_of_mem_entriesAt hd hx).entryName.1
      obtain ⟨admitted, ⟨rfl, _, rfl⟩ | ⟨_, under⟩⟩ := mem_taken_iff.mp under
      · exact .step here single admitted (.refl _)
      · exact .step here single admitted (ih' name cut.tail others under)

theorem absolute_entryPath (directory : Path) (name : Text) :
    (entryPath directory name).absolute = directory.absolute := by
  rw [entryPath]
  split
  · rename_i current
    rw [beq_iff_eq] at current
    have here : directory.isCurrent = true := by simp [Path.isCurrent, current]
    exact (Path.isCurrent_iff.mp here).1.symm
  · exact (Path.steps_child_filter directory name).1

/-- Whatever the pieces are, they lead from an absolute path to absolute ones and from a
relative path to relative ones. -/
theorem absolute_of_mem_walk (hd : d.Proper) {ps : List Piece} {directory p : Path}
    (h : p ∈ walk d ps directory) : p.absolute = directory.absolute := by
  fun_induction walk d ps directory with
  | case1 | case2 | case4 | case6 => cases h
  | case3 n rest directory path =>
    rw [List.mem_singleton.mp h]
    exact absolute_entryPath directory n
  | case5 n rest directory path _ _ _ ih => exact (ih h).trans (absolute_entryPath directory n)
  | case7 piece rest directory ih =>
    obtain ⟨f, hf, found⟩ := List.mem_flatMap.mp h
    obtain ⟨_, absolute, _⟩ := named_of_mem_walkAll hd hf
    obtain ⟨_, ⟨_, _, rfl⟩ | ⟨_, found⟩⟩ := mem_taken_iff.mp found
    · exact absolute
    · exact (ih f found).trans absolute
  | case8 tokens rest directory _ special ih' ih =>
    rcases List.mem_append.mp h with h | h
    · obtain ⟨name, _, found⟩ := List.mem_flatMap.mp h
      exact (ih name found).trans ((Path.steps_child_filter directory name).1)
    · obtain ⟨⟨name, e⟩, _, found⟩ := List.mem_flatMap.mp h
      obtain ⟨_, ⟨_, _, rfl⟩ | ⟨_, found⟩⟩ := mem_taken_iff.mp found
      · exact absolute_entryPath directory name
      · exact (ih' name found).trans (absolute_entryPath directory name)

end Glob

/-! ## Paths of names -/

namespace Glob

variable {d : Disk}

/-- The path by which a walk from the working directory comes to a place below it. -/
def pathTo (above : List Text) : Path := if above = [] then Path.ofText ['.'] else ⟨false, above⟩

theorem pathTo_of_ne_nil {above : List Text} (h : above ≠ []) : pathTo above = ⟨false, above⟩ :=
  if_neg h

theorem entryPath_pathTo {above : List Text} {n : Text} (habove : ∀ m ∈ above, IsEntryName m) :
    entryPath (pathTo above) n = pathTo (above ++ [n]) := by
  have more : above ++ [n] ≠ [] := by simp
  rw [pathTo_of_ne_nil more]
  by_cases none : above = []
  · subst none
    rfl
  have steps : (⟨false, above⟩ : Path).steps = above :=
    List.filter_eq_self.mpr fun m hm => by simp [(habove m hm).1]
  have elsewhere : ¬ (⟨false, above⟩ : Path).isCurrent = true := fun current =>
    none (steps.symm.trans (Path.isCurrent_iff.mp current).2)
  rw [pathTo_of_ne_nil none, entryPath, if_neg, Path.child, Path.join, if_neg Bool.false_ne_true,
    if_neg]
  · obtain ⟨before, last, rfl⟩ : ∃ before last, above = before ++ [last] :=
      ⟨_, _, (List.dropLast_append_getLast none).symm⟩
    have named : last ≠ [] := (habove last (by simp)).ne_nil
    simp only [List.getLast?_concat]
    split
    · rename_i same
      exact absurd (Option.some.inj same) named
    · rfl
  · intro empty
    exact none (steps.symm.trans (Path.steps_of_isEmpty empty).2)
  · intro current
    refine elsewhere ?_
    rw [beq_iff_eq] at current
    simp [Path.isCurrent, current]

theorem foldl_entryPath {above names : List Text} (hnames : ∀ n ∈ above ++ names, IsEntryName n) :
    names.foldl entryPath (pathTo above) = pathTo (above ++ names) := by
  induction names generalizing above with
  | nil => rw [List.append_nil, List.foldl_nil]
  | cons n names ih =>
    have inside : above ++ n :: names = above ++ [n] ++ names := by simp
    rw [inside] at hnames ⊢
    rw [List.foldl_cons, entryPath_pathTo fun m hm => hnames m (by simp [hm]), ih hnames]

theorem eq_of_admits_map_char {m n : Text} (h : admits (m.map .char) n = true) : n = m := by
  rw [admits, beq_iff_eq] at h
  have matched := matches_of_attempt h
  rw [← List.append_nil (m.map Token.char)] at matched
  obtain ⟨rest, rfl, nothing⟩ := eq_of_matches_map_char matched
  cases nothing
  exact List.append_nil m

/-- Above a file there are directories, and the file is found from each. -/
theorem exists_entries {above names : List Text} (hd : d.Proper)
    (hnames : ∀ n ∈ above ++ names, IsEntryName n) (nonempty : names ≠ [])
    (file : d.isFile ⟨false, above ++ names⟩ = true) : ∃ entries content,
      d.entry (pathTo above) = .ok (.directory entries) ∧
        (Entry.directory entries).at? names = some (.file content) := by
  obtain ⟨here, content, located, kind⟩ := Disk.isFile_iff.mp file
  obtain ⟨spelled, follow⟩ := Disk.locate_eq_ok.mp located
  have split : d.follow (above ++ names) d.working = .ok here := follow
  obtain rfl := Disk.eq_append_of_follow hnames split
  rw [← List.append_assoc] at kind
  have directory : d.kind? (d.working ++ above) = some .directory :=
    Entry.kind?_of_append nonempty kind
  obtain ⟨entries, there⟩ := Disk.exists_directory directory
  obtain ⟨e, hat, hkind⟩ := Disk.at?_of_kind? kind
  rw [Entry.at?_append, there] at hat
  refine ⟨entries, content, Disk.entry_eq_ok.mpr ⟨d.working ++ above, ?_, there⟩, ?_⟩
  · rw [Disk.locate_eq_ok]
    by_cases none : above = []
    · subst none
      refine ⟨rfl, ?_⟩
      rw [List.append_nil]
      exact Disk.follow_cons_eq_ok.mpr ⟨hd.working, .inl ⟨rfl, rfl⟩⟩
    · rw [pathTo_of_ne_nil none]
      have named : ∀ n ∈ above, n ≠ [] := fun n hn => (hnames n (List.mem_append_left _ hn)).ne_nil
      refine ⟨Disk.misspelling?_of_sublist spelled ?_ (Text.joinWith_ne_nil none named), ?_⟩
      · have begins := Text.joinWith_prefix ['/'] above names
        exact begins.sublist
      · rw [Disk.follow_append] at split
        cases first : d.follow above d.working with
        | error e =>
          rw [first] at split
          cases split
        | ok middle =>
          have before : ∀ n ∈ above, IsEntryName n := fun n hn =>
            hnames n (List.mem_append_left _ hn)
          exact first.trans (congrArg Except.ok (Disk.eq_append_of_follow before first))
  · cases e with
    | file content' =>
      cases hkind
      exact hat
    | directory => cases hkind

theorem entriesAt_of_entry {p : Path} {entries : List (Text × Entry)}
    (h : d.entry p = .ok (.directory entries)) : d.entriesAt p = entries := by
  rw [Disk.entriesAt, h]

/-- What is on the way to a file is there. -/
theorem contains_pathTo (hd : d.Proper) {above names : List Text} (nonempty : above ≠ [])
    (hnames : ∀ n ∈ above ++ names, IsEntryName n)
    (file : d.isFile ⟨false, above ++ names⟩ = true) : d.contains (pathTo above) = true := by
  by_cases last : names = []
  · subst last
    rw [List.append_nil] at file
    obtain ⟨here, content, located, kind⟩ := Disk.isFile_iff.mp file
    obtain ⟨e, hat, _⟩ := Disk.at?_of_kind? kind
    rw [pathTo_of_ne_nil nonempty, Disk.contains, Disk.entry_eq_ok.mpr ⟨here, located, hat⟩]
    rfl
  · obtain ⟨entries, content, there, _⟩ := exists_entries hd hnames last file
    rw [Disk.contains, there]
    rfl

/-- If no piece is left, the file is reached. -/
theorem last_or_later {rest : List Piece} {above names : List Text} {e : Entry} {content : Content}
    (h : Leads rest names) (begun : above ≠ []) (deeper : e.at? names = some (.file content)) :
    rest = [] ∧ e.isDirectory = false ∧ ⟨false, above ++ names⟩ = pathTo above ∨ rest ≠ [] := by
  by_cases last : rest = []
  · obtain rfl := h.eq_nil_iff.mpr last
    cases deeper
    refine .inl ⟨last, rfl, ?_⟩
    rw [List.append_nil, pathTo_of_ne_nil begun]
  · exact .inr last

/-- A file at names that pieces lead to is found on a walk. -/
theorem mem_walk_of_leads (hd : d.Proper) {ps : List Piece} {above names : List Text}
    (hnames : ∀ n ∈ above ++ names, IsEntryName n) (file : d.isFile ⟨false, above ++ names⟩ = true)
    (h : Leads ps names) (nonempty : ps ≠ []) :
    ⟨false, above ++ names⟩ ∈ walk d ps (pathTo above) := by
  induction h generalizing above with
  | done => exact absurd rfl nonempty
  | @step p rest n names single admitted h ih =>
    obtain ⟨entries, content, there, below⟩ :=
      exists_entries hd hnames (List.cons_ne_nil n names) file
    have inside : above ++ n :: names = above ++ [n] ++ names := by simp
    rw [inside] at hnames file ⊢
    have habove : ∀ m ∈ above, IsEntryName m := fun m hm => hnames m (by simp [hm])
    have path := entryPath_pathTo (n := n) habove
    have later := ih hnames file
    cases p with
    | directories => exact absurd List.mem_cons_self single
    | name m =>
      obtain rfl := eq_of_admits_map_char admitted
      have special : Path.isSpecial n = false := by
        have hn : IsEntryName n := hnames n (by simp)
        have filler := hn.1
        rw [isFiller, Bool.or_eq_false_iff] at filler
        rw [Path.isSpecial, filler.2, beq_false_of_ne hn.2]
        rfl
      have found : d.contains (pathTo (above ++ [n])) = true :=
        contains_pathTo hd (by simp) hnames file
      rw [walk]
      simp only [path, special, found, Bool.false_eq_true, if_false, Bool.not_true,
        List.isEmpty_iff]
      split
      · rename_i last
        rw [h.eq_nil_iff.mpr last, List.append_nil] at file ⊢
        rw [pathTo_of_ne_nil (by simp), if_pos file]
        exact List.mem_singleton_self _
      · exact later ‹_›
    | wild ts =>
      obtain ⟨child, found, deeper⟩ := Option.bind_eq_some_iff.mp below
      obtain ⟨before, after, entries_eq, _⟩ := List.lookup_eq_some_iff.mp found
      rw [walk, entriesAt_of_entry there]
      refine List.mem_append_right _ (List.mem_flatMap.mpr ⟨(n, child), by simp [entries_eq], ?_⟩)
      refine mem_taken_iff.mpr ⟨admitted, ?_⟩
      rw [path]
      exact (last_or_later h (by simp) deeper).imp id fun more => ⟨more, later more⟩
  | @descend between p rest n names single admitted h ih =>
    obtain ⟨entries, content, there, below⟩ := exists_entries hd hnames (by simp) file
    have inside : above ++ (between ++ n :: names) = above ++ (between ++ [n]) ++ names := by simp
    have inside' : between ++ n :: names = between ++ [n] ++ names := by simp
    rw [inside', Entry.at?_append] at below
    obtain ⟨child, hat, deeper⟩ := Option.bind_eq_some_iff.mp below
    rw [inside] at hnames file ⊢
    have met : ⟨(between ++ [n]).foldl entryPath (pathTo above), n, child⟩ ∈
        Entry.walkAll entryPath (pathTo above) entries :=
      Entry.mem_walkAll_of_at? hat (pathTo above)
    rw [foldl_entryPath fun m hm => hnames m (List.mem_append_left _ hm)] at met
    rw [walk, entriesAt_of_entry there]
    refine List.mem_flatMap.mpr ⟨_, met, ?_⟩
    refine mem_taken_iff.mpr ⟨admitted, ?_⟩
    exact (last_or_later h (by simp) deeper).imp id fun more => ⟨more, ih hnames file more⟩

end Glob

end StyleTypings
