/-
Processing — style sheets one after the other, in any order.

A run writes what its style sheets make it write (`written?`), and nothing that it writes is
read on the way: declarations have names that no import can have, and no file that a run
works on stands where the declarations for one of them are put (`Batch`).  So each file is
reported as if it were alone, and the disk ends with all that has been written
(`Batch.processFiles_eq`), whatever the order.

Where two files write to one place, the later one wins.  Under a directory this needs
`..less` and `...less` beside each other and declarations with values, and then the order is
seen from the disk (`processFiles_order`).
-/
import StyleTypings.Command.Generate
import StyleTypings.Proofs.Outputs
import StyleTypings.Proofs.Unread

namespace StyleTypings

open Typings (definitionPath outputName Beside BesidePath Dotted)
open Less (DiffersUnread ReadsAlike EndsInSS)

/-! ## Names of declarations -/

namespace Typings

variable {e : ExportType} {n : Text}

/-- No import can have the name of a file of declarations. -/
theorem not_endsInSS_outputName (e : ExportType) (n : Text) : ¬ EndsInSS (outputName e n) := by
  have ending : ['t', 's'] <:+ outputName e n :=
    List.IsSuffix.trans (by cases e <;> decide) (List.suffix_append _ (outputEnding e))
  intro h
  have same := List.suffix_of_suffix_length_le h ending (by decide)
  exact absurd same (by decide)

theorem endsInSS_of_isSheetName (h : Entry.IsSheetName n) : EndsInSS n :=
  Less.endsInSS_of_extension h (by decide)

/-- The declarations for a file do not take its name. -/
theorem outputName_ne (e : ExportType) (n : Text) : outputName e n ≠ n := by
  intro h
  by_cases sheet : Entry.IsSheetName n
  · have ending := endsInSS_of_isSheetName sheet
    rw [← h] at ending
    exact not_endsInSS_outputName e n ending
  · rw [outputName, outputStem_of_not_sheet sheet] at h
    have none : outputEnding e = [] := List.append_right_eq_self.mp h
    cases e <;> cases none

/-- The declarations with values for `..less` and `...less` in one directory have one path. -/
theorem definitionPath_eq_of_dotted {p q : Path} (hp : p.IsPlain) (hq : q.IsPlain)
    (beside : BesidePath Dotted p q) : definitionPath .values p = definitionPath .values q := by
  obtain ⟨absolute, before, n, m, segments, segments', dotted⟩ := beside
  have names : Path.IsEntryName n ∧ Path.IsEntryName m := by
    rcases dotted with ⟨rfl, rfl⟩ | ⟨rfl, rfl⟩ <;> decide
  have same : outputName .values n = outputName .values m :=
    outputName_eq_iff.mpr ((outputStem_eq_iff names.1 names.2).mpr (.inr ⟨rfl, .inr dotted⟩))
  rw [definitionPath_eq hp segments names.1, definitionPath_eq hq segments' names.2, absolute, same]

end Typings

namespace Generation

variable {g : Generation} {d d' : Disk} {f : Path}

/-! ## What a style sheet makes a run write -/

/-- The declarations for a style sheet, if it has any. -/
def definitions? (g : Generation) (d : Disk) (f : Path) : Option Text :=
  match extract d g.nameFormat f with
  | .ok cs => (Typings.render g.exportType g.lineEnding cs).definitions
  | .error _ => none

/-- The declarations that are written for a style sheet, and the place where they are put. -/
def written? (g : Generation) (d : Disk) (f : Path) : Option (Location × Text) :=
  if g.listDifferent then none
  else
    match g.definitions? d f, d.target (definitionPath g.exportType f) with
    | some t, .ok place => some (place, t)
    | _, _ => none

theorem written?_eq_some {place : Location} {t : Text} :
    g.written? d f = some (place, t) ↔ g.listDifferent = false ∧ g.definitions? d f = some t ∧
      d.target (definitionPath g.exportType f) = .ok place := by
  rw [written?]
  cases g.listDifferent with
  | true => simp
  | false =>
    cases g.definitions? d f with
    | none => simp
    | some t' => cases d.target (definitionPath g.exportType f) <;> simp [and_comm]

/-- A style sheet changes the disk by what it makes a run write. -/
theorem processFile_snd (g : Generation) (d : Disk) (f : Path) :
    (g.processFile d f).2 = d.storeAll (g.written? d f).toList := by
  simp only [processFile, written?, definitions?]
  cases extract d g.nameFormat f with
  | error h => cases g.listDifferent <;> rfl
  | ok cs =>
    simp only
    cases (Typings.render g.exportType g.lineEnding cs).definitions with
    | none => cases g.listDifferent <;> rfl
    | some t =>
      simp only [deliver, Disk.write_eq]
      cases g.listDifferent with
      | true => rfl
      | false => cases d.target (definitionPath g.exportType f) <;> rfl

/-- A disk on which a style sheet reads the same and has the same place for its declarations
changes in the same way, and the report is the same. -/
theorem processFile_of_differs (writes : g.listDifferent = false)
    (extracts : extract d' g.nameFormat f = extract d g.nameFormat f)
    (target : d'.target (definitionPath g.exportType f) = d.target (definitionPath g.exportType f)) :
    (g.processFile d' f).1 = (g.processFile d f).1 ∧ g.written? d' f = g.written? d f := by
  constructor
  · rw [processFile, processFile, extracts]
    split
    · rfl
    · simp only
      split
      · rfl
      · rw [deliver, deliver, writes, Disk.write_eq, Disk.write_eq, target]
        cases d.target (definitionPath g.exportType f) <;> rfl
  · rw [written?, written?, definitions?, definitions?, extracts, target]

/-! ## Files that do not stand where declarations are put -/

/-- Plain paths to files of which none stands where the declarations for one are put. -/
structure Batch (g : Generation) (d : Disk) (files : List Path) : Prop where
  proper : d.Proper
  plain : ∀ f ∈ files, f.IsPlain
  there : ∀ f ∈ files, ∃ here, d.FileAt f here
  apart : ∀ f ∈ files, ∀ f' ∈ files, ∀ here t, d.FileAt f here → g.written? d f' ≠ some (here, t)

/-- Everything that files make a run write, in their order. -/
def writtenAll (g : Generation) (d : Disk) (files : List Path) : List (Location × Text) :=
  files.filterMap (g.written? d)

theorem mem_writtenAll {files : List Path} {place : Location} {t : Text} :
    (place, t) ∈ g.writtenAll d files ↔ ∃ f ∈ files, g.written? d f = some (place, t) :=
  List.mem_filterMap

theorem canHold_of_mem_writtenAll {files : List Path} {w : Location × Text}
    (hw : w ∈ g.writtenAll d files) : d.CanHold w.1 := by
  obtain ⟨f, _, written⟩ := mem_writtenAll.mp hw
  exact Disk.canHold_of_target (written?_eq_some.mp written).2.2

namespace Batch

variable {files : List Path} (h : Batch g d files)

include h

/-- Declarations are put beside a file. -/
theorem written_beside (hf : f ∈ files) {place : Location} {t : Text}
    (written : g.written? d f = some (place, t)) :
    ∃ directory n, d.FileAt f (directory ++ [n]) ∧ Disk.IsName n ∧
      place = directory ++ [outputName g.exportType n] := by
  obtain ⟨here, fileAt⟩ := h.there f hf
  obtain ⟨_, _, target⟩ := written?_eq_some.mp written
  obtain ⟨_, n, directory, _, hn, rfl, _, _, at_place⟩ :=
    Typings.target_definitionPath (h.plain f hf) fileAt
  exact ⟨directory, n, fileAt, hn, at_place place target⟩

/-- What has been written so far is not read. -/
theorem differs {ws : List (Location × Text)} (hws : ws ⊆ g.writtenAll d files) :
    DiffersUnread (fun here => ∃ t, (here, t) ∈ g.writtenAll d files) d (d.storeAll ws) where
  differs := (Disk.differsAt_storeAll fun w hw => canHold_of_mem_writtenAll (hws hw)).mono
    fun _ ⟨t, ht⟩ => ⟨t, hws ht⟩
  unread here n written := by
    obtain ⟨t, ht⟩ := written
    obtain ⟨f, hf, written⟩ := mem_writtenAll.mp ht
    obtain ⟨directory, m, _, _, place⟩ := h.written_beside hf written
    rw [(List.append_singleton_inj.mp place).2]
    exact Typings.not_endsInSS_outputName _ _
  proper := h.proper
  proper' := h.proper.storeAll fun w hw => canHold_of_mem_writtenAll (hws hw)

variable {ws : List (Location × Text)}

theorem readsAlike (hf : f ∈ files) (hws : ws ⊆ g.writtenAll d files) :
    ReadsAlike d (d.storeAll ws) f := by
  obtain ⟨here, fileAt⟩ := h.there f hf
  refine (h.differs hws).readsAlike (h.plain f hf) fileAt fun ⟨t, ht⟩ => ?_
  obtain ⟨f', hf', written⟩ := mem_writtenAll.mp ht
  exact h.apart f hf f' hf' here t fileAt written

theorem target_eq (hf : f ∈ files) (hws : ws ⊆ g.writtenAll d files) :
    (d.storeAll ws).target (definitionPath g.exportType f) =
      d.target (definitionPath g.exportType f) := by
  obtain ⟨here, fileAt⟩ := h.there f hf
  obtain ⟨before, n, directory, segments, hn, rfl, hdirectory, follow, _⟩ :=
    Typings.target_definitionPath (e := g.exportType) (h.plain f hf) fileAt
  rw [Typings.definitionPath_eq (h.plain f hf) segments hn.entryName]
  exact (h.differs hws).differs.target_eq rfl (Typings.isEntryName_outputName _ _) follow hdirectory

/-- A file is reported as if it were alone, and adds what it makes a run write. -/
theorem processFile_eq (hf : f ∈ files) (hws : ws ⊆ g.writtenAll d files) :
    g.processFile (d.storeAll ws) f =
      ((g.processFile d f).1, d.storeAll (ws ++ (g.written? d f).toList)) := by
  have added : d.storeAll (ws ++ (g.written? d f).toList) =
      (d.storeAll ws).storeAll (g.written? d f).toList := List.foldl_append
  rw [added]
  by_cases writes : g.listDifferent = false
  · have extracts := (h.differs hws).extract_eq g.nameFormat (h.readsAlike hf hws)
    obtain ⟨report, written⟩ := processFile_of_differs writes extracts (h.target_eq hf hws)
    rw [← report, ← written, ← processFile_snd]
  · have nothing : ws = [] := by
      refine List.eq_nil_of_subset_nil fun w hw => ?_
      obtain ⟨f', _, written⟩ := mem_writtenAll.mp (hws hw)
      exact absurd (written?_eq_some.mp written).1 writes
    rw [nothing]
    exact Prod.ext rfl (processFile_snd g d f)

/-- Files are reported as if each were alone, and the disk ends with all that they make a run
write. -/
theorem processFiles_from {order : List Path} (ho : order ⊆ files)
    (hws : ws ⊆ g.writtenAll d files) :
    g.processFiles (d.storeAll ws) order =
      (order.map fun f => (g.processFile d f).1, d.storeAll (ws ++ g.writtenAll d order)) := by
  induction order generalizing ws with
  | nil => rw [processFiles, writtenAll, List.filterMap_nil, List.append_nil, List.map_nil]
  | cons f order ih =>
    obtain ⟨hf, ho⟩ := List.cons_subset.mp ho
    have more : ws ++ (g.written? d f).toList ⊆ g.writtenAll d files := by
      refine List.append_subset.mpr ⟨hws, fun w hw => ?_⟩
      exact mem_writtenAll.mpr ⟨f, hf, Option.mem_toList.mp hw⟩
    rw [processFiles, h.processFile_eq hf hws]
    simp only
    rw [ih ho more]
    simp only [writtenAll, List.map_cons, List.append_assoc, List.filterMap_cons]
    cases g.written? d f <;> rfl

theorem processFiles_eq {order : List Path} (ho : order ⊆ files) :
    g.processFiles d order =
      (order.map fun f => (g.processFile d f).1, d.storeAll (g.writtenAll d order)) :=
  (h.processFiles_from ho (List.nil_subset (g.writtenAll d files)) :)

/-- Of the files that write to a place the last one is read there. -/
theorem kind?_of_last (hf : f ∈ files) {place : Location} {t : Text}
    (written : g.written? d f = some (place, t)) :
    ∃ order, order.Perm files ∧
      (g.processFiles d order).2.kind? place = some (.file (.text t)) := by
  have perm : (files.erase f ++ [f]).Perm files :=
    (List.perm_append_singleton f _).trans (List.perm_cons_erase hf).symm
  have ends : g.writtenAll d (files.erase f ++ [f]) =
      g.writtenAll d (files.erase f) ++ [(place, t)] := by
    rw [writtenAll, List.filterMap_append]
    simp [writtenAll, written]
  refine ⟨_, perm, ?_⟩
  rw [h.processFiles_eq perm.subset, Disk.kind?_storeAll fun w hw => canHold_of_mem_writtenAll hw,
    ends, List.reverse_append]
  simp

end Batch

/-- What a scan of a file or a directory selects makes up a batch. -/
theorem batch_of_scan (hd : d.Proper) (scanned : ∀ glob, g.pattern ≠ .glob glob) :
    Batch g d (g.scan d).files where
  proper := hd
  plain f hf := (Scan.exists_fileAt_of_mem_run hd hf).1
  there f hf := (Scan.exists_fileAt_of_mem_run hd hf).2
  apart f hf f' hf' here t fileAt written := by
    obtain ⟨plain', here', fileAt'⟩ := Scan.exists_fileAt_of_mem_run hd hf'
    obtain ⟨_, m, directory, _, _, rfl, _, _, at_place⟩ :=
      Typings.target_definitionPath (e := g.exportType) plain' fileAt'
    obtain rfl := at_place here (written?_eq_some.mp written).2.2
    rw [scan] at hf hf'
    cases hpattern : g.pattern with
    | file path =>
      rw [hpattern] at hf hf'
      obtain rfl := (Scan.eq_of_mem_run_file hf).trans (Scan.eq_of_mem_run_file hf').symm
      have name := (List.append_singleton_inj.mp (fileAt.unique fileAt')).2
      exact Typings.outputName_ne _ _ name
    | directory path =>
      rw [hpattern] at hf
      have sheet := Scan.isSheetName_of_mem_run_directory hd hf fileAt
      exact Typings.not_endsInSS_outputName _ _ (Typings.endsInSS_of_isSheetName sheet)
    | glob glob => exact scanned glob hpattern

/-! ## Orders -/

/-- Two style sheets of one directory, `..less` and `...less`, for which different
declarations with values are written. -/
def Clash (g : Generation) (d : Disk) (p q : Path) : Prop :=
  g.exportType = .values ∧ BesidePath Dotted p q ∧ ∃ place t place' t',
    g.written? d p = some (place, t) ∧ g.written? d q = some (place', t') ∧ t ≠ t'

section Directory

variable {directory : Path} (hd : d.Proper) (hg : g.pattern = .directory directory)

include hd hg

/-- Paths that are selected under a directory stand beside each other if the files do. -/
theorem beside_of_directory {p q : Path} (hp : p ∈ (g.scan d).files) (hq : q ∈ (g.scan d).files)
    {here : Location} {n m : Text} (fileAt : d.FileAt p (here ++ [n]))
    (fileAt' : d.FileAt q (here ++ [m])) :
    p.absolute = q.absolute ∧
      ∃ before, p.segments = before ++ [n] ∧ q.segments = before ++ [m] := by
  rw [scan, hg] at hp hq
  obtain ⟨base, names, leads, there, plain, absolute, steps, _⟩ := Scan.mem_run_directory hd hp
  obtain ⟨base', names', leads', there', plain', absolute', steps', _⟩ :=
    Scan.mem_run_directory hd hq
  obtain rfl : base = base' := Except.ok.inj (leads.symm.trans leads')
  have place : here ++ [n] = base ++ names := Except.ok.inj (fileAt.leads.symm.trans there.leads)
  have place' : here ++ [m] = base ++ names' := Except.ok.inj (fileAt'.leads.symm.trans there'.leads)
  rw [plain.steps_eq] at steps
  rw [plain'.steps_eq] at steps'
  refine ⟨absolute.trans absolute'.symm, ?_⟩
  have lengths : names.length = names'.length := by
    have := congrArg List.length place
    have := congrArg List.length place'
    simp only [List.length_append, List.length_singleton] at *
    omega
  rcases names.eq_nil_or_concat with rfl | ⟨ns, x, rfl⟩ <;>
    rcases names'.eq_nil_or_concat with rfl | ⟨ns', x', rfl⟩
  · -- The path of the directory is that of the file itself.
    rw [List.append_nil] at *
    obtain ⟨content, file⟩ := fileAt.file
    obtain ⟨before, x, _, segments, _, _, _, last⟩ := fileAt.leads.concat plain file
    obtain rfl := (List.append_singleton_inj.mp last).2
    obtain rfl := (List.append_singleton_inj.mp (place.trans place'.symm)).2
    exact ⟨before, segments, steps'.trans (steps.symm.trans segments)⟩
  · simp at lengths
  · simp at lengths
  · simp only [List.concat_eq_append, ← List.append_assoc, List.append_singleton_inj] at *
    obtain ⟨rfl, rfl⟩ := place
    obtain ⟨same, rfl⟩ := place'
    obtain rfl := List.append_cancel_left same
    exact ⟨_, steps, steps'⟩

/-- Style sheets under a directory for which declarations are written to one place are
`..less` and `...less`, unless they are one. -/
theorem dotted_of_place {p q : Path} (hp : p ∈ (g.scan d).files) (hq : q ∈ (g.scan d).files)
    (ne : p ≠ q) {place : Location} {t t' : Text} (written : g.written? d p = some (place, t))
    (written' : g.written? d q = some (place, t')) :
    g.exportType = .values ∧ BesidePath Dotted p q := by
  have scanned : ∀ glob, g.pattern ≠ .glob glob := fun glob h => by cases hg.symm.trans h
  have batch : Batch g d (g.scan d).files := batch_of_scan hd scanned
  obtain ⟨here, n, fileAt, hn, place_eq⟩ := batch.written_beside hp written
  obtain ⟨there, m, fileAt', hm, place_eq'⟩ := batch.written_beside hq written'
  obtain ⟨rfl, name⟩ := List.append_singleton_inj.mp (place_eq.symm.trans place_eq')
  rw [Typings.outputName_eq_iff, Typings.outputStem_eq_iff hn.entryName hm.entryName] at name
  obtain ⟨absolute, before, segments, segments'⟩ := beside_of_directory hd hg hp hq fileAt fileAt'
  rcases name with rfl | ⟨values, related | dotted⟩
  · have same : Path.mk p.absolute p.segments = ⟨q.absolute, q.segments⟩ := by
      rw [absolute, segments, segments']
    exact absurd same ne
  · rw [scan, hg] at hp hq
    rcases related with ⟨plain, _⟩ | ⟨plain, _⟩
    · exact absurd (Scan.isSheetName_of_mem_run_directory hd hp fileAt) plain
    · exact absurd (Scan.isSheetName_of_mem_run_directory hd hq fileAt') plain
  · exact ⟨values, absolute, before, n, m, segments, segments', dotted⟩

end Directory

/-- Style sheets clash if different declarations are written for them to one place. -/
theorem clash_iff (hd : d.Proper) (scanned : ∀ glob, g.pattern ≠ .glob glob) {p q : Path}
    (hp : p ∈ (g.scan d).files) (hq : q ∈ (g.scan d).files) :
    Clash g d p q ↔ ∃ place t t', g.written? d p = some (place, t) ∧
      g.written? d q = some (place, t') ∧ t ≠ t' := by
  have batch : Batch g d (g.scan d).files := batch_of_scan hd scanned
  constructor
  · rintro ⟨values, beside, place, t, place', t', written, written', different⟩
    have target := (written?_eq_some.mp written).2.2
    have target' := (written?_eq_some.mp written').2.2
    rw [values, Typings.definitionPath_eq_of_dotted (batch.plain p hp) (batch.plain q hq) beside,
      ← values, target'] at target
    obtain rfl := Except.ok.inj target
    exact ⟨place', t, t', written, written', different⟩
  · rintro ⟨place, t, t', written, written', different⟩
    have ne : p ≠ q := by
      rintro rfl
      cases written.symm.trans written'
      exact different rfl
    cases hpattern : g.pattern with
    | file path =>
      rw [scan, hpattern] at hp hq
      exact absurd ((Scan.eq_of_mem_run_file hp).trans (Scan.eq_of_mem_run_file hq).symm) ne
    | glob glob => exact absurd hpattern (scanned glob)
    | directory path =>
      obtain ⟨values, beside⟩ := dotted_of_place hd hpattern hp hq ne written written'
      exact ⟨values, beside, place, t, place, t', written, written', different⟩

/-- If no style sheets clash, no place gets two texts. -/
theorem single_of_not_clash (hd : d.Proper) (scanned : ∀ glob, g.pattern ≠ .glob glob)
    (apart : ∀ p ∈ (g.scan d).files, ∀ q ∈ (g.scan d).files, ¬ Clash g d p q)
    {order : List Path} (perm : order.Perm (g.scan d).files) :
    ∀ w ∈ g.writtenAll d order, ∀ w' ∈ g.writtenAll d order, w.1 = w'.1 → w = w' := by
  rintro ⟨place, t⟩ hw ⟨place', t'⟩ hw' rfl
  obtain ⟨p, hp, written⟩ := mem_writtenAll.mp hw
  obtain ⟨q, hq, written'⟩ := mem_writtenAll.mp hw'
  by_contra different
  refine apart p (perm.subset hp) q (perm.subset hq) ((clash_iff hd scanned (perm.subset hp)
    (perm.subset hq)).mpr ⟨place, t, t', written, written', ?_⟩)
  rintro rfl
  exact different rfl

/-- Under a directory every order gives each file the report that it gets alone, and all
orders end in the same disk unless two style sheets clash. -/
theorem processFiles_order (hd : d.Proper) {directory : Path} (hg : g.pattern = .directory directory) :
    (∀ order : List Path, order.Perm (g.scan d).files →
      (g.processFiles d order).1 = order.map fun f => (g.processFile d f).1) ∧
    ((∀ order order' : List Path, order.Perm (g.scan d).files → order'.Perm (g.scan d).files →
      (g.processFiles d order).2 = (g.processFiles d order').2) ↔
        ∀ p ∈ (g.scan d).files, ∀ q ∈ (g.scan d).files, ¬ Clash g d p q) := by
  have scanned : ∀ glob, g.pattern ≠ .glob glob := fun glob h => by cases hg.symm.trans h
  have batch : Batch g d (g.scan d).files := batch_of_scan hd scanned
  have ran {order : List Path} (perm : order.Perm (g.scan d).files) :=
    batch.processFiles_eq perm.subset
  refine ⟨fun order perm => by rw [ran perm], ?_⟩
  constructor
  · intro same p hp q hq clash
    obtain ⟨place, t, t', written, written', different⟩ := (clash_iff hd scanned hp hq).mp clash
    obtain ⟨order, perm, last⟩ := batch.kind?_of_last hp written
    obtain ⟨order', perm', last'⟩ := batch.kind?_of_last hq written'
    rw [same order order' perm perm', last'] at last
    cases last
    exact different rfl
  · intro apart order order' perm perm'
    rw [ran perm, ran perm']
    exact Disk.storeAll_perm hd (fun w hw => canHold_of_mem_writtenAll hw)
      (single_of_not_clash hd scanned apart perm) ((perm.trans perm'.symm).filterMap _)

/-! ## Two style sheets that clash -/

/-- A directory with `..less` and `...less`. -/
def dotSheets : Disk :=
  .ofFiles [("...less", ".a \x7b b: c; \x7d"), ("..less", ".d \x7b e: f; \x7d")]

theorem proper_dotSheets : dotSheets.Proper := Disk.proper_ofFiles (by decide) (by decide)

/-- A run on the working directory with declarations of a shape. -/
def onWorking (e : ExportType) : Generation where
  pattern := .directory "."
  patternText := "."
  nameFormat := .none
  exportType := e
  lineEnding := .lf
  listDifferent := false
  aliases := ⟨[], []⟩
  ignores := []
  verbose := false

/-- Declarations without values stand apart, so the order is not seen. -/
theorem processFiles_order_dotSheets :
    ((onWorking .named).processFiles dotSheets ["..less", "...less"]).2 =
      ((onWorking .named).processFiles dotSheets ["...less", "..less"]).2 :=
  (processFiles_order (g := onWorking .named) proper_dotSheets rfl).2.mpr
    (fun _ _ _ _ clash => nomatch clash.1) _ _ (by decide) (by decide)

/-- With values the later style sheet wins. -/
theorem not_forall_orders_agree : ¬ ∀ (g : Generation) (d : Disk) (directory : Path), d.Proper →
    g.pattern = .directory directory →
    ∀ order order' : List Path, order.Perm (g.scan d).files → order'.Perm (g.scan d).files →
      (g.processFiles d order).1 = (order.map fun f => (g.processFile d f).1) ∧
        (g.processFiles d order).2 = (g.processFiles d order').2 := by
  intro agree
  have same := (agree (onWorking .values) dotSheets "." proper_dotSheets rfl ["..less", "...less"]
    ["...less", "..less"] (by decide) (by decide)).2
  have kinds := congrArg (·.kind? ["...const.ts"]) same
  exact absurd kinds (by decide +kernel)

end Generation

end StyleTypings
