/-
Unread files — loading does not depend on files that no import can name.

An `@import` names a style sheet or a file that ends in `.css`: the resolved path of every
directive has a name that ends in `ss` (`Directive.endsInSS_of_resolve`).  So files of other
names can be written while style sheets are loaded.  What a directive asks for stays the
same (`Directive.wanted_eq`), and with it what is loaded, provided that the first file, whose
name is up to the caller, is not among those that are written (`load_eq`, `extract_eq`).
-/
import StyleTypings.Classes.Extract
import StyleTypings.Proofs.Imports
import StyleTypings.Proofs.Files.Scans

namespace StyleTypings

namespace Less

/-- Whether a text ends as the names of all files do that can be imported. -/
def EndsInSS (n : Text) : Prop := ['s', 's'] <:+ n

instance (n : Text) : Decidable (EndsInSS n) := inferInstanceAs (Decidable (_ <:+ _))

theorem endsInSS_of_extension {n extension : Text} (h : (Path.splitName n).2 = some extension)
    (hss : EndsInSS extension) : EndsInSS n := by
  rw [(Path.eq_of_splitName h).1]
  exact hss.trans ((List.suffix_cons _ _).trans (List.suffix_append _ _))

/-- The name of what a directive resolves to has one of the two extensions. -/
theorem Directive.endsInSS_of_resolve {importer : Path} {specifier n : Text}
    (h : (resolve importer specifier).fileName? = some n) : EndsInSS n := by
  rw [resolve] at h
  generalize (importer.parent?.getD Path.empty).join (Path.ofText specifier) = joined at h
  have of_joined {extension : Text} (hx : joined.extension? = some extension)
      (hn : joined.fileName? = some n) (hss : EndsInSS extension) : EndsInSS n := by
    rw [Path.extension?, hn, Option.bind_some] at hx
    exact endsInSS_of_extension hx hss
  split at h
  · exact of_joined ‹_› h (by decide)
  · exact of_joined ‹_› h (by decide)
  · obtain ⟨stem, name⟩ := joined.fileName?_append (t := ".less") (by decide)
    rw [Option.some.inj (h.symm.trans name)]
    exact List.IsSuffix.trans (by decide) (List.suffix_append stem _)

theorem Directive.eq_resolve_of_wanted {disk : Disk} {importer path : Path} {loaded : List Location}
    {d : Directive} {file : Location} (h : d.wanted disk importer loaded = .ok (some (path, file))) :
    path = resolve importer d.specifier := by
  unfold Directive.wanted at h
  split at h
  · cases h
  simp only at h
  split at h
  · split at h
    · cases h
    · cases h
      rfl
  · split at h <;> cases h

/-! ## Disks that differ where nothing is imported -/

/-- Two proper disks that differ at most at locations whose names no import can have. -/
structure DiffersUnread (W : Location → Prop) (d d' : Disk) : Prop where
  differs : d.DiffersAt W d'
  unread : ∀ here n, W (here ++ [n]) → ¬ EndsInSS n
  proper : d.Proper
  proper' : d'.Proper

/-- A path that leads to the same on both disks. -/
structure ReadsAlike (d d' : Disk) (path : Path) : Prop where
  locate : d'.locate path = d.locate path
  read : d'.read path = d.read path

namespace DiffersUnread

variable {W : Location → Prop} {d d' : Disk} (h : DiffersUnread W d d')

theorem symm (h : DiffersUnread W d d') : DiffersUnread W d' d :=
  ⟨h.differs.symm, h.unread, h.proper', h.proper⟩

include h

/-- What a directive resolves to is not at a location that may differ. -/
theorem not_differs {importer : Path} {specifier : Text} {here : Location}
    (file : d.isFile (Directive.resolve importer specifier) = true)
    (located : d.locate (Directive.resolve importer specifier) = .ok here) : ¬ W here := by
  obtain ⟨here', content, located', hkind⟩ := Disk.isFile_iff.mp file
  cases located.symm.trans located'
  have fileAt : d.FileAt _ here := ⟨Disk.leads_of_locate located, content, hkind⟩
  obtain ⟨directory, n, rfl, name⟩ := fileAt.fileName? h.proper
  exact fun written => h.unread directory n written (Directive.endsInSS_of_resolve name)

theorem isFile_of_isFile {importer : Path} {specifier : Text}
    (file : d.isFile (Directive.resolve importer specifier) = true) :
    d'.isFile (Directive.resolve importer specifier) = true ∧
      ReadsAlike d d' (Directive.resolve importer specifier) := by
  obtain ⟨file', located, read⟩ := h.differs.isFile_of_isFile file fun here => h.not_differs file
  exact ⟨file', located, read⟩

theorem isFile_eq (importer : Path) (specifier : Text) :
    d'.isFile (Directive.resolve importer specifier) =
      d.isFile (Directive.resolve importer specifier) :=
  Bool.eq_iff_iff.mpr ⟨fun file => (h.symm.isFile_of_isFile file).1,
    fun file => (h.isFile_of_isFile file).1⟩

/-- A directive asks for the same on both disks. -/
theorem wanted_eq (importer : Path) (loaded : List Location) (directive : Directive) :
    directive.wanted d' importer loaded = directive.wanted d importer loaded := by
  rw [Directive.wanted, Directive.wanted]
  simp only [h.isFile_eq]
  cases file : d.isFile (Directive.resolve importer directive.specifier) with
  | true => rw [(h.isFile_of_isFile file).2.locate]
  | false => rfl

end DiffersUnread

theorem ReadsAlike.recordPath_eq {d d' : Disk} {path : Path} (h : ReadsAlike d d' path) :
    recordPath d' path = recordPath d path := by
  funext loaded
  rw [recordPath, recordPath, h.locate]

section Loading

variable {W : Location → Prop} {d d' : Disk} {load load' : Path → Loader (List (Node Nat))}

theorem importNodes_eq (h : DiffersUnread W d d')
    (same : ∀ path, ReadsAlike d d' path → load' path = load path) (importer : Path)
    (directive : Directive) :
    importNodes d' load' importer directive = importNodes d load importer directive := by
  rw [importNodes, importNodes]
  refine congrArg _ (funext fun loaded => ?_)
  rw [h.wanted_eq]
  split
  · rfl
  · rfl
  · rename_i path file wanted
    have resolved := Directive.eq_resolve_of_wanted wanted
    have isFile := (Directive.wanted_eq_some wanted).1
    rw [resolved] at isFile ⊢
    rw [same _ (h.isFile_of_isFile isFile).2]

end Loading

namespace DiffersUnread

variable {W : Location → Prop} {d d' : Disk} (h : DiffersUnread W d d')

include h

/-- What is loaded from a path that leads to the same is the same. -/
theorem load_eq (depth : Nat) {path : Path} (alike : ReadsAlike d d' path) :
    load d' depth path = load d depth path := by
  induction depth generalizing path with
  | zero => rfl
  | succ depth ih =>
    rw [load, load, alike.read]
    split
    · rfl
    · rw [loadText, loadText, alike.recordPath_eq]
      refine congrArg _ (funext fun _ => ?_)
      split
      · rfl
      · exact importsOfNodes_congr (importNodes_eq h (fun _ alike => ih alike) path) _

/-- A plain path to a file that is not among those that differ leads to the same. -/
theorem readsAlike {path : Path} {here : Location} (plain : path.IsPlain)
    (fileAt : d.FileAt path here) (out : ¬ W here) : ReadsAlike d d' path := by
  obtain ⟨content, file⟩ := fileAt.file
  have file' : d'.kind? here = some (.file content) := (h.differs.elsewhere here out).trans file
  have leads' : d'.Leads path here := by
    rw [Disk.Leads, h.differs.start_eq]
    exact Disk.follow_of_directories (fun _ => (h.differs.directories _).mpr) fileAt.leads
      (by simp [file'])
  have located : d'.locate path = d.locate path := by
    rw [Disk.locate_of_leads plain leads', Disk.locate_of_leads plain fileAt.leads]
  refine ⟨located, ?_⟩
  rw [Disk.read_eq, Disk.read_eq, located, Disk.locate_of_leads plain fileAt.leads]
  split
  · rfl
  · exact congrArg Disk.Kind.read (file'.trans file.symm)

/-- So the class names of a style sheet are the same. -/
theorem extract_eq (f : NameFormat) {path : Path} (alike : ReadsAlike d d' path) :
    extract d' f path = extract d f path := by
  rw [extract, extract, compile, compile, loadFile, loadFile, h.load_eq importDepth alike]

end DiffersUnread

end Less

end StyleTypings
