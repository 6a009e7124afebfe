/-
Kinds — what stands at a location, and which paths lead there.

Whatever is read from a disk is read through what stands at its locations: nothing, a
directory, or a file with its content (`kind?`).  A path is followed step by step through
directories (`follow_cons_eq_ok`), so it leads to the same location on two disks with the
same directories, provided that something stands there on both (`follow_of_directories`).

Disks that differ at most at some locations, and have the same directories, are alike
elsewhere (`DiffersAt`).  A path that leads to a file elsewhere leads there on both, and
what is read there is the same.
-/
import StyleTypings.Proofs.Files.Steps

namespace StyleTypings

/-- What stands at a location. -/
inductive Kind where
  | directory
  | file (content : Content)
deriving DecidableEq, Repr

namespace Entry

def kind : Entry → Kind
  | .file content => .file content
  | .directory _ => .directory

/-- What stands at the end of a list of names. -/
def kind? (e : Entry) (here : Location) : Option Kind := (e.at? here).map kind

@[simp] theorem kind?_nil (e : Entry) : e.kind? [] = some e.kind := rfl

@[simp] theorem kind?_file_cons (content : Content) (name : Text) (names : Location) :
    (Entry.file content).kind? (name :: names) = none := rfl

@[simp] theorem kind?_directory_cons (entries : List (Text × Entry)) (name : Text)
    (names : Location) : (Entry.directory entries).kind? (name :: names) =
      (entries.lookup name).bind (·.kind? names) := by
  rw [kind?, at?, child?]
  cases entries.lookup name <;> rfl

theorem at?_append (here names : Location) (e : Entry) :
    e.at? (here ++ names) = (e.at? here).bind (at? names) := by
  induction here generalizing e with
  | nil => rfl
  | cons name here ih =>
    rw [List.cons_append, at?, at?]
    cases e.child? name with
    | none => rfl
    | some child => exact ih child

/-- What has something below it is a directory. -/
theorem kind?_of_append {e : Entry} {here names : Location} {k : Kind} (hne : names ≠ [])
    (h : e.kind? (here ++ names) = some k) : e.kind? here = some .directory := by
  rw [kind?, at?_append] at h
  obtain ⟨name, names, rfl⟩ := List.exists_cons_of_ne_nil hne
  rw [kind?]
  cases hat : e.at? here with
  | none => simp [hat] at h
  | some inner =>
    cases inner with
    | directory entries => rfl
    | file content => simp [hat, at?, child?] at h

end Entry

namespace Disk

/-- What stands at a location. -/
def kind? (d : Disk) (here : Location) : Option Kind := d.root.kind? here

/-- Whether a text can be the name of an entry that is looked up. -/
structure IsName (n : Text) : Prop where
  entryName : Path.IsEntryName n
  short : n.utf8Size ≤ maxName

instance (n : Text) : Decidable (IsName n) :=
  decidable_of_iff (Path.IsEntryName n ∧ n.utf8Size ≤ maxName)
    ⟨fun h => ⟨h.1, h.2⟩, fun h => ⟨h.entryName, h.short⟩⟩

theorem kind?_of_at? {d : Disk} {here : Location} {e : Entry} (h : d.root.at? here = some e) :
    d.kind? here = some e.kind := by
  rw [kind?, Entry.kind?, h]
  rfl

theorem at?_of_kind? {d : Disk} {here : Location} {k : Kind} (h : d.kind? here = some k) :
    ∃ e, d.root.at? here = some e ∧ e.kind = k := Option.map_eq_some_iff.mp h

theorem exists_directory {d : Disk} {here : Location} (h : d.kind? here = some .directory) :
    ∃ entries, d.root.at? here = some (.directory entries) := by
  obtain ⟨e, hat, hkind⟩ := at?_of_kind? h
  cases e with
  | directory entries => exact ⟨entries, hat⟩
  | file content => cases hkind

/-- The entries of a directory are what stands below it. -/
theorem kind?_concat {d : Disk} {here : Location} {entries : List (Text × Entry)}
    (h : d.root.at? here = some (.directory entries)) (name : Text) :
    d.kind? (here ++ [name]) = (entries.lookup name).map Entry.kind := by
  rw [kind?, Entry.kind?, Entry.at?_append, h]
  show ((entries.lookup name).bind (Entry.at? [])).map Entry.kind = _
  cases entries.lookup name <;> rfl

/-- What is above a directory is one, or the directory itself at the root. -/
theorem kind?_dropLast {d : Disk} {here : Location} (h : d.kind? here = some .directory) :
    d.kind? here.dropLast = some .directory := by
  rcases here.eq_nil_or_concat with rfl | ⟨above, name, rfl⟩
  · exact h
  · rw [List.concat_eq_append] at h ⊢
    rw [List.dropLast_concat]
    exact Entry.kind?_of_append (by simp) h

/-! ## Following paths -/

variable {d d' : Disk}

/-- A step is taken from a directory: to the directory itself, to the one above, or to an
entry. -/
theorem follow_cons_eq_ok {s : Text} {rest : List Text} {here last : Location} :
    d.follow (s :: rest) here = .ok last ↔ d.kind? here = some .directory ∧
      (Path.isFiller s = true ∧ d.follow rest here = .ok last ∨
        s = ['.', '.'] ∧ d.follow rest here.dropLast = .ok last ∨
        IsName s ∧ (d.kind? (here ++ [s])).isSome ∧ d.follow rest (here ++ [s]) = .ok last) := by
  rw [follow]
  cases hat : d.root.at? here with
  | none => simp [kind?, Entry.kind?, hat]
  | some e =>
    rw [kind?_of_at? hat]
    cases e with
    | file content => simp [Entry.kind]
    | directory entries =>
      have found : (d.kind? (here ++ [s])).isSome = (entries.lookup s).isSome := by
        rw [kind?_concat hat, Option.isSome_map]
      simp only [Entry.kind, true_and, found]
      by_cases filler : Path.isFiller s = true
      · have hname : ¬ IsName s := fun h => by simp [h.entryName.1] at filler
        have above : s ≠ ['.', '.'] := by
          rintro rfl
          cases filler
        simp [filler, hname, above]
      by_cases above : s = ['.', '.']
      · subst above
        have hname : ¬ IsName ['.', '.'] := fun h => h.entryName.2 rfl
        simp [filler, hname]
      by_cases long : maxName < s.utf8Size
      · have hname : ¬ IsName s := fun h => absurd h.short (by omega)
        simp [filler, hname, above, long]
      · have hname : IsName s := ⟨⟨by simpa using filler, above⟩, by omega⟩
        cases entries.lookup s <;> simp [filler, above, long, hname]

theorem follow_append (first second : List Text) (here : Location) :
    d.follow (first ++ second) here = (d.follow first here).bind (d.follow second) := by
  induction first generalizing here with
  | nil => rfl
  | cons s rest ih =>
    rw [List.cons_append, follow, follow]
    split
    · split
      · exact ih here
      split
      · exact ih here.dropLast
      split
      · rfl
      split
      · exact ih (here ++ [s])
      · rfl
    · rfl
    · rfl

/-- Fillers lead nowhere. -/
theorem follow_steps {segments : List Text} {here last : Location}
    (h : d.follow segments here = .ok last) :
    d.follow (segments.filter (! Path.isFiller ·)) here = .ok last := by
  induction segments generalizing here with
  | nil => exact h
  | cons s rest ih =>
    obtain ⟨directory, step⟩ := follow_cons_eq_ok.mp h
    by_cases filler : Path.isFiller s = true
    · rw [List.filter_cons_of_neg (by simp [filler])]
      rcases step with ⟨_, h⟩ | ⟨rfl, _⟩ | ⟨hname, _⟩
      · exact ih h
      · cases filler
      · simp [hname.entryName.1] at filler
    · rw [List.filter_cons_of_pos (by simp [filler]), follow_cons_eq_ok]
      refine ⟨directory, ?_⟩
      rcases step with ⟨h, _⟩ | ⟨above, h⟩ | ⟨hname, there, h⟩
      · exact absurd h filler
      · exact .inr (.inl ⟨above, ih h⟩)
      · exact .inr (.inr ⟨hname, there, ih h⟩)

/-- Fillers can be put in, as long as a filler at the end finds a directory there. -/
theorem follow_of_steps {segments : List Text} {here last : Location}
    (h : d.follow (segments.filter (! Path.isFiller ·)) here = .ok last)
    (ends : ∀ s ∈ segments.getLast?, Path.isFiller s = true → d.kind? last = some .directory) :
    d.follow segments here = .ok last := by
  induction segments generalizing here with
  | nil => exact h
  | cons s rest ih =>
    have ends' : ∀ s ∈ rest.getLast?, Path.isFiller s = true → d.kind? last = some .directory := by
      intro t ht
      refine ends t ?_
      obtain ⟨before, rfl⟩ := List.getLast?_eq_some_iff.mp ht
      rw [← List.cons_append, List.getLast?_concat]
      rfl
    by_cases filler : Path.isFiller s = true
    · rw [List.filter_cons_of_neg (by simp [filler])] at h
      refine follow_cons_eq_ok.mpr ⟨?_, .inl ⟨filler, ih h ends'⟩⟩
      cases steps : rest.filter (! Path.isFiller ·) with
      | cons next others =>
        rw [steps] at h
        exact (follow_cons_eq_ok.mp h).1
      | nil =>
        -- Nothing but fillers comes here, so this is where the path ends.
        rw [steps] at h
        obtain rfl : here = last := Except.ok.inj h
        have fillers := List.filter_eq_nil_iff.mp steps
        rcases rest.eq_nil_or_concat with rfl | ⟨before, t, rfl⟩
        · exact ends s rfl filler
        · rw [List.concat_eq_append] at fillers ends'
          exact ends' t (by simp) (by simpa using fillers t (by simp))
    · rw [List.filter_cons_of_pos (by simp [filler])] at h
      obtain ⟨directory, step⟩ := follow_cons_eq_ok.mp h
      refine follow_cons_eq_ok.mpr ⟨directory, ?_⟩
      rcases step with ⟨h, _⟩ | ⟨above, h⟩ | ⟨hname, there, h⟩
      · exact absurd h filler
      · exact .inr (.inl ⟨above, ih h ends'⟩)
      · exact .inr (.inr ⟨hname, there, ih h ends'⟩)

/-- Names lead down to what stands there. -/
theorem follow_names {names : List Text} {here : Location} (hnames : ∀ n ∈ names, IsName n)
    (there : (d.kind? (here ++ names)).isSome) : d.follow names here = .ok (here ++ names) := by
  induction names generalizing here with
  | nil => rw [List.append_nil, follow]
  | cons n names ih =>
    obtain ⟨k, hk⟩ := Option.isSome_iff_exists.mp there
    have below : here ++ n :: names = here ++ [n] ++ names := by simp
    rw [below] at hk there ⊢
    have first : (d.kind? (here ++ [n])).isSome := by
      cases names with
      | nil => simpa using there
      | cons _ _ => simp [kind?, Entry.kind?_of_append (List.cons_ne_nil _ _) hk]
    obtain ⟨k', hk'⟩ := Option.isSome_iff_exists.mp first
    rw [follow_cons_eq_ok]
    refine ⟨Entry.kind?_of_append (List.cons_ne_nil _ _) hk', .inr (.inr ⟨?_, first, ?_⟩)⟩
    · exact hnames n List.mem_cons_self
    · exact ih (fun m hm => hnames m (.tail n hm)) there

/-- Names of entries lead down. -/
theorem eq_append_of_follow {names : List Text} {here last : Location}
    (hnames : ∀ n ∈ names, Path.IsEntryName n) (h : d.follow names here = .ok last) :
    last = here ++ names := by
  induction names generalizing here with
  | nil =>
    rw [List.append_nil]
    exact (Except.ok.inj h).symm
  | cons n names ih =>
    obtain ⟨first, others⟩ := List.forall_mem_cons.mp hnames
    obtain ⟨_, ⟨filler, _⟩ | ⟨above, _⟩ | ⟨_, _, h⟩⟩ := follow_cons_eq_ok.mp h
    · rw [first.1] at filler
      cases filler
    · exact absurd above first.2
    · rw [ih others h, List.append_assoc, List.singleton_append]

/-- The last step to a file is its name. -/
theorem follow_concat_file {segments : List Text} {s : Text} {here last : Location}
    {content : Content} (h : d.follow (segments ++ [s]) here = .ok last)
    (file : d.kind? last = some (.file content)) :
    ∃ directory, d.follow segments here = .ok directory ∧ d.kind? directory = some .directory ∧
      last = directory ++ [s] ∧ IsName s := by
  rw [follow_append] at h
  cases hfirst : d.follow segments here with
  | error e =>
    rw [hfirst] at h
    cases h
  | ok directory =>
    rw [hfirst] at h
    obtain ⟨hdirectory, step⟩ := follow_cons_eq_ok.mp h
    refine ⟨directory, rfl, hdirectory, ?_⟩
    rcases step with ⟨_, hlast⟩ | ⟨_, hlast⟩ | ⟨hname, _, hlast⟩ <;>
      obtain rfl := Except.ok.inj hlast
    · rw [hdirectory] at file
      cases file
    · rw [kind?_dropLast hdirectory] at file
      cases file
    · exact ⟨rfl, hname⟩

/-- A path leads to the same place on a disk with at least the same directories, if
something stands there. -/
theorem follow_of_directories
    (directories : ∀ here, d.kind? here = some .directory → d'.kind? here = some .directory)
    {segments : List Text} {here last : Location} (h : d.follow segments here = .ok last)
    (there : (d'.kind? last).isSome) : d'.follow segments here = .ok last := by
  induction segments generalizing here with
  | nil => exact h
  | cons s rest ih =>
    obtain ⟨directory, step⟩ := follow_cons_eq_ok.mp h
    refine follow_cons_eq_ok.mpr ⟨directories here directory, ?_⟩
    rcases step with ⟨filler, h⟩ | ⟨above, h⟩ | ⟨hname, _, h⟩
    · exact .inl ⟨filler, ih h⟩
    · exact .inr (.inl ⟨above, ih h⟩)
    · refine .inr (.inr ⟨hname, ?_, ih h⟩)
      cases rest with
      | nil =>
        obtain rfl := Except.ok.inj h
        exact there
      | cons _ _ => simp [directories _ (follow_cons_eq_ok.mp h).1]

/-- A path leads to a location, whatever its spelling. -/
def Leads (d : Disk) (p : Path) (here : Location) : Prop :=
  d.follow p.steps (d.start p) = .ok here

theorem leads_of_locate {p : Path} {here : Location} (h : d.locate p = .ok here) :
    d.Leads p here := by
  rw [locate] at h
  split at h
  · cases h
  · exact follow_steps h

/-- Only its spelling keeps a plain path from the place where it leads. -/
theorem locate_of_leads {p : Path} {here : Location} (plain : p.IsPlain) (h : d.Leads p here) :
    d.locate p = match misspelling? p with
      | some e => .error e
      | none => .ok here := by
  rw [Leads, plain.steps_eq] at h
  rw [locate]
  split <;> simp_all

/-- A plain path to a file ends in its name, after the path of a directory. -/
theorem Leads.concat {p : Path} {here : Location} {content : Content} (plain : p.IsPlain)
    (h : d.Leads p here) (file : d.kind? here = some (.file content)) :
    ∃ before n directory, p.segments = before ++ [n] ∧ IsName n ∧
      d.follow before (d.start p) = .ok directory ∧ d.kind? directory = some .directory ∧
        here = directory ++ [n] := by
  rcases p.segments.eq_nil_or_concat with hnil | ⟨before, n, hsegments⟩
  · exact absurd hnil plain.nonempty
  · rw [List.concat_eq_append] at hsegments
    rw [Leads, plain.steps_eq, hsegments] at h
    obtain ⟨directory, hfollow, hdirectory, rfl, hname⟩ := follow_concat_file h file
    exact ⟨before, n, directory, hsegments, hname, hfollow, hdirectory, rfl⟩

/-! ## Reading and writing -/

theorem entry_eq_ok {p : Path} {e : Entry} :
    d.entry p = .ok e ↔ ∃ here, d.locate p = .ok here ∧ d.root.at? here = some e := by
  simp only [entry, bind, Except.bind]
  cases d.locate p with
  | error e => simp
  | ok here => cases h : d.root.at? here <;> simp [h]

theorem isFile_iff {p : Path} : d.isFile p = true ↔
    ∃ here content, d.locate p = .ok here ∧ d.kind? here = some (.file content) := by
  rw [isFile]
  constructor
  · intro h
    split at h
    · rename_i content he
      obtain ⟨here, located, hat⟩ := entry_eq_ok.mp he
      exact ⟨here, content, located, kind?_of_at? hat⟩
    · cases h
  · rintro ⟨here, content, located, hkind⟩
    obtain ⟨e, hat, he⟩ := at?_of_kind? hkind
    cases e with
    | directory entries => cases he
    | file c => rw [entry_eq_ok.mpr ⟨here, located, hat⟩]

theorem isDirectory_iff {p : Path} : d.isDirectory p = true ↔
    ∃ here, d.locate p = .ok here ∧ d.kind? here = some .directory := by
  rw [isDirectory]
  constructor
  · intro h
    split at h
    · rename_i entries hentry
      obtain ⟨here, located, there⟩ := entry_eq_ok.mp hentry
      exact ⟨here, located, kind?_of_at? there⟩
    · cases h
  · rintro ⟨here, located, kind⟩
    obtain ⟨entries, there⟩ := exists_directory kind
    rw [entry_eq_ok.mpr ⟨here, located, there⟩]

/-- What is read at a location. -/
def Kind.read : Option Kind → Except FileError Text
  | some (.file (.text t)) => .ok t
  | some (.file (.bytes _)) => .error .notText
  | some .directory => .error .isDirectory
  | none => .error .notFound

theorem read_eq (p : Path) : d.read p = (d.locate p).bind fun here => Kind.read (d.kind? here) := by
  simp only [read, entry, bind, Except.bind]
  cases d.locate p with
  | error e => rfl
  | ok here =>
    show _ = Kind.read ((d.root.at? here).map Entry.kind)
    rcases hat : d.root.at? here with _ | ⟨_ | _⟩ | _ <;> simp [hat, Entry.kind, Kind.read]

/-- A file is put into an existing directory, in the place of no directory. -/
structure CanHold (d : Disk) (here : Location) : Prop where
  parent : ∃ directory name, here = directory ++ [name] ∧ IsName name ∧
    d.kind? directory = some .directory
  free : d.kind? here ≠ some .directory

/-- Where a path to a directory with a name behind it would create a file. -/
theorem target_of_follow {p : Path} {before : List Text} {n : Text} {directory : Location}
    (segments : p.segments = before ++ [n]) (hn : Path.IsEntryName n)
    (h : d.follow before (d.start p) = .ok directory)
    (hdirectory : d.kind? directory = some .directory) :
    d.target p = match misspelling? p with
      | some e => .error e
      | none =>
        if d.kind? (directory ++ [n]) = some .directory then .error .isDirectory
        else if maxName < n.utf8Size then .error .nameTooLong
        else .ok (directory ++ [n]) := by
  obtain ⟨entries, hat⟩ := exists_directory hdirectory
  rw [target, segments, List.getLast?_concat, List.dropLast_concat]
  cases misspelling? p with
  | some e => rfl
  | none =>
    have proper : (Path.isFiller n || n == ['.', '.']) = false := by simp [hn.1, hn.2]
    simp only [proper, Bool.false_eq_true, if_false, h, bind, Except.bind, hat, kind?_concat hat]
    rcases entries.lookup n with _ | ⟨_ | _⟩ <;> simp [Entry.kind]

theorem target_eq_ok {p : Path} {here : Location} (h : d.target p = .ok here) :
    ∃ before n directory, p.segments = before ++ [n] ∧ misspelling? p = none ∧ IsName n ∧
      d.follow before (d.start p) = .ok directory ∧ d.kind? directory = some .directory ∧
        here = directory ++ [n] ∧ d.kind? here ≠ some .directory := by
  have spelled : misspelling? p = none := by
    rw [target] at h
    split at h <;> first | cases h | assumption
  rcases p.segments.eq_nil_or_concat with hnil | ⟨before, n, hsegments⟩
  · simp [target, spelled, hnil] at h
  rw [List.concat_eq_append] at hsegments
  have hn : Path.IsEntryName n := by
    by_contra special
    rw [target, spelled, hsegments, List.getLast?_concat] at h
    rw [Path.IsEntryName, not_and_or] at special
    simp only [Bool.not_eq_false, ne_eq, not_not] at special
    simp [special] at h
  cases hfollow : d.follow before (d.start p) with
  | error e =>
    rw [target, spelled, hsegments, List.getLast?_concat, List.dropLast_concat, hfollow] at h
    simp [hn.1, hn.2, bind, Except.bind] at h
  | ok directory =>
    have hdirectory : d.kind? directory = some .directory := by
      rw [target, spelled, hsegments, List.getLast?_concat, List.dropLast_concat, hfollow] at h
      have special : (Path.isFiller n || n == ['.', '.']) = false := by simp [hn.1, hn.2]
      simp only [special, bind, Except.bind] at h
      cases hat : d.root.at? directory with
      | none => simp [hat] at h
      | some e =>
        cases e with
        | file content => simp [hat] at h
        | directory entries => exact kind?_of_at? hat
    rw [target_of_follow hsegments hn hfollow hdirectory, spelled] at h
    simp only at h
    split at h
    · cases h
    · split at h
      · cases h
      · cases h
        exact ⟨before, n, directory, hsegments, spelled, ⟨hn, by omega⟩, hfollow, hdirectory, rfl,
          ‹_›⟩

theorem canHold_of_target {p : Path} {here : Location} (h : d.target p = .ok here) :
    d.CanHold here := by
  obtain ⟨_, n, directory, _, _, hname, _, hdirectory, rfl, free⟩ := target_eq_ok h
  exact ⟨⟨directory, n, rfl, hname, hdirectory⟩, free⟩

/-- A file that a path creates is read back by it. -/
theorem read_of_target {p : Path} {here : Location} {t : Text} (h : d.target p = .ok here)
    (file : d.kind? here = some (.file (.text t))) : d.read p = .ok t := by
  obtain ⟨before, n, directory, hsegments, spelled, hname, hfollow, hdirectory, rfl, _⟩ :=
    target_eq_ok h
  have located : d.locate p = .ok (directory ++ [n]) := by
    rw [locate, spelled, hsegments]
    show d.follow _ _ = _
    rw [follow_append, hfollow]
    exact follow_cons_eq_ok.mpr ⟨hdirectory, .inr (.inr ⟨hname, by simp [file], rfl⟩)⟩
  rw [read_eq, located]
  show Kind.read (d.kind? _) = _
  rw [file, Kind.read]

/-! ## Disks that differ at some locations -/

/-- Disks with the same directories that differ at most at some locations. -/
structure DiffersAt (W : Location → Prop) (d d' : Disk) : Prop where
  working : d'.working = d.working
  directories : ∀ here, d'.kind? here = some .directory ↔ d.kind? here = some .directory
  elsewhere : ∀ here, ¬ W here → d'.kind? here = d.kind? here

namespace DiffersAt

variable {W : Location → Prop}

theorem refl (W : Location → Prop) (d : Disk) : DiffersAt W d d :=
  ⟨rfl, fun _ => .rfl, fun _ _ => rfl⟩

theorem symm (h : DiffersAt W d d') : DiffersAt W d' d :=
  ⟨h.working.symm, fun here => (h.directories here).symm, fun here out => (h.elsewhere here out).symm⟩

theorem trans {d'' : Disk} (h : DiffersAt W d d') (h' : DiffersAt W d' d'') : DiffersAt W d d'' :=
  ⟨h'.working.trans h.working, fun here => (h'.directories here).trans (h.directories here),
    fun here out => (h'.elsewhere here out).trans (h.elsewhere here out)⟩

theorem mono {W' : Location → Prop} (h : DiffersAt W d d') (le : ∀ here, W here → W' here) :
    DiffersAt W' d d' :=
  ⟨h.working, h.directories, fun here out => h.elsewhere here fun inside => out (le here inside)⟩

variable (h : DiffersAt W d d')

include h

theorem start_eq (p : Path) : d'.start p = d.start p := by
  rw [start, start, h.working]

/-- Where something stands at the same locations, a path leads to the same, or fails for the
same reason. -/
theorem follow_eq (there : ∀ here, (d'.kind? here).isSome = (d.kind? here).isSome)
    (segments : List Text) (here : Location) : d'.follow segments here = d.follow segments here := by
  induction segments generalizing here with
  | nil => rfl
  | cons s rest ih =>
    rw [follow, follow]
    cases hat : d.root.at? here with
    | none =>
      have none : d'.root.at? here = none := by
        simpa [kind?, Entry.kind?, hat] using there here
      rw [none]
    | some e =>
      obtain ⟨e', hat'⟩ : ∃ e', d'.root.at? here = some e' := by
        rw [← Option.isSome_iff_exists]
        simpa [kind?, Entry.kind?, hat] using there here
      have directory := h.directories here
      rw [kind?_of_at? hat, kind?_of_at? hat'] at directory
      rw [hat']
      cases e with
      | file content =>
        cases e' with
        | file content' => rfl
        | directory entries' => cases directory.mp rfl
      | directory entries =>
        cases e' with
        | file content' => cases directory.mpr rfl
        | directory entries' =>
          have found := there (here ++ [s])
          rw [kind?_concat hat, kind?_concat hat', Option.isSome_map, Option.isSome_map] at found
          simp only [found, ih]

theorem locate_eq (there : ∀ here, (d'.kind? here).isSome = (d.kind? here).isSome) (p : Path) :
    d'.locate p = d.locate p := by
  rw [locate, locate, h.start_eq, h.follow_eq there]

theorem follow_directory {segments : List Text} {here last : Location}
    (hfollow : d.follow segments here = .ok last) (directory : d.kind? last = some .directory) :
    d'.follow segments here = .ok last :=
  follow_of_directories (fun _ => (h.directories _).mpr) hfollow (by
    rw [(h.directories last).mpr directory]
    rfl)

theorem locate_of_locate {p : Path} {here : Location} (located : d.locate p = .ok here)
    (there : (d'.kind? here).isSome) : d'.locate p = .ok here := by
  rw [locate] at located ⊢
  split at located
  · cases located
  · rw [h.start_eq]
    exact follow_of_directories (fun _ => (h.directories _).mpr) located there

/-- A path that leads to a file elsewhere leads there on both disks. -/
theorem isFile_of_isFile {p : Path} (file : d.isFile p = true)
    (out : ∀ here, d.locate p = .ok here → ¬ W here) :
    d'.isFile p = true ∧ d'.locate p = d.locate p ∧ d'.read p = d.read p := by
  obtain ⟨here, content, located, hkind⟩ := isFile_iff.mp file
  have same := h.elsewhere here (out here located)
  have located' := h.locate_of_locate located (by simp [same, hkind])
  refine ⟨isFile_iff.mpr ⟨here, content, located', same.trans hkind⟩, located'.trans located.symm, ?_⟩
  rw [read_eq, read_eq, located, located']
  exact congrArg Kind.read same

/-- What a path would create in a directory is the same on both disks. -/
theorem target_eq {p : Path} {before : List Text} {n : Text} {directory : Location}
    (segments : p.segments = before ++ [n]) (hn : Path.IsEntryName n)
    (hfollow : d.follow before (d.start p) = .ok directory)
    (hdirectory : d.kind? directory = some .directory) : d'.target p = d.target p := by
  have hfollow' : d'.follow before (d'.start p) = .ok directory := by
    rw [h.start_eq]
    exact h.follow_directory hfollow hdirectory
  rw [target_of_follow segments hn hfollow hdirectory,
    target_of_follow segments hn hfollow' ((h.directories _).mpr hdirectory)]
  simp only [h.directories]

end DiffersAt

end Disk

end StyleTypings
