/-
Checking — a check right after a run.

The check selects the same files, since nothing that a run writes is a style sheet, and it
finds the declarations that the run has written: for each file it compares the declarations
with what stands at their place, and that is the text that was written there last
(`checked`).  So it finds everything up to date, unless two style sheets clash, and then it
finds a difference (`check_after_run`).
-/
import StyleTypings.Proofs.Processing

namespace StyleTypings

open Typings (definitionPath)
open Less (ReadsAlike)

namespace Generation

variable {g : Generation} {d : Disk} {f : Path}

/-- The same run as a check. -/
def checking (g : Generation) : Generation := { g with listDifferent := true }

/-- A check reports on each file as it stands, and leaves the disk as it is. -/
theorem processFiles_checking (g : Generation) (d : Disk) (files : List Path) :
    g.checking.processFiles d files = (files.map fun f => (g.checking.processFile d f).1, d) := by
  induction files with
  | nil => rfl
  | cons f files ih =>
    have kept : (g.checking.processFile d f).2 = d := processFile_snd g.checking d f
    rw [processFiles]
    simp only [kept, ih, List.map_cons]

/-- A report is about its file. -/
theorem file_processFile (g : Generation) (d : Disk) (f : Path) {device : Device} :
    (g.processFile d f device).1.file = f := by
  rw [processFile]
  split
  · rfl
  · simp only
    split <;> rfl

/-! ## What a check finds of a file -/

/-- What a run on some files, which does not fail, has done with one of them, and what a check
after it finds. -/
inductive Checked (g : Generation) (d : Disk) (order : List Path) (f : Path) : Prop where
  | nothing (written : g.written? d f = none)
      (run : (g.processFile d f).1.outcome = .noClassNames)
      (check : (g.checking.processFile (d.storeAll (g.writtenAll d order)) f).1.outcome =
        .noClassNames)
  | compared {place : Location} {t t' : Text} (written : g.written? d f = some (place, t))
      (stands : (place, t') ∈ g.writtenAll d order)
      (run : (g.processFile d f).1.outcome = .generated (definitionPath g.exportType f))
      (check : (g.checking.processFile (d.storeAll (g.writtenAll d order)) f).1.outcome =
        if t' = t then .upToDate (definitionPath g.exportType f)
        else .different (definitionPath g.exportType f))
      (last : (d.storeAll (g.writtenAll d order)).kind? place = some (.file (.text t')))

namespace Checked

variable {order : List Path}

/-- A check does not fail. -/
theorem not_isFailure (h : Checked g d order f) :
    (g.checking.processFile (d.storeAll (g.writtenAll d order)) f).1.isFailure = false := by
  rw [FileReport.isFailure]
  cases h with
  | nothing _ _ check => rw [check]
  | @compared _ t t' _ _ _ check _ =>
    rw [check]
    by_cases ht : t' = t <;> simp [ht]

/-- If a check finds no difference, what has been written for a file stands in its place. -/
theorem kind?_of_not_isDifferent (h : Checked g d order f) {place : Location} {t : Text}
    (written : g.written? d f = some (place, t))
    (same : (g.checking.processFile (d.storeAll (g.writtenAll d order)) f).1.isDifferent = false) :
    (d.storeAll (g.writtenAll d order)).kind? place = some (.file (.text t)) := by
  cases h with
  | nothing none _ _ => cases none.symm.trans written
  | @compared _ _ t' written' _ _ check last =>
    cases written.symm.trans written'
    rw [FileReport.isDifferent, check] at same
    by_cases ht : t' = t
    · rwa [← ht]
    · simp [ht] at same

/-- If no place gets two texts, a check finds up to date what has been generated. -/
theorem agree (h : Checked g d order f) (hf : f ∈ order)
    (single : ∀ w ∈ g.writtenAll d order, ∀ w' ∈ g.writtenAll d order, w.1 = w'.1 → w = w') :
    (g.checking.processFile (d.storeAll (g.writtenAll d order)) f).1.isDifferent = false ∧
      ∀ output, (g.checking.processFile (d.storeAll (g.writtenAll d order)) f).1.outcome =
        .upToDate output ↔ (g.processFile d f).1.outcome = .generated output := by
  rw [FileReport.isDifferent]
  cases h with
  | nothing _ run check => simp [run, check]
  | compared written stands run check _ =>
    cases single _ stands _ (mem_writtenAll.mpr ⟨f, hf, written⟩) rfl
    simp [run, check]

end Checked

theorem Batch.checked {files order : List Path} (h : Batch g d files)
    (writes : g.listDifferent = false) (ho : order ⊆ files) (hf : f ∈ order)
    (unfailed : (g.processFile d f).1.isFailure = false) : Checked g d order f := by
  have hws : g.writtenAll d order ⊆ g.writtenAll d files := fun w hw => by
    obtain ⟨f', hf', written⟩ := mem_writtenAll.mp hw
    exact mem_writtenAll.mpr ⟨f', ho hf', written⟩
  have extracts := (h.differs hws).extract_eq g.nameFormat (h.readsAlike (ho hf) hws)
  have target := h.target_eq (ho hf) hws
  cases hcs : extract d g.nameFormat f with
  | error halt => simp [processFile, hcs, FileReport.isFailure] at unfailed
  | ok cs =>
    rw [hcs] at extracts
    cases hdefinitions : (Typings.render g.exportType g.lineEnding cs).definitions with
    | none =>
      refine .nothing ?_ ?_ ?_
      · simp [written?, definitions?, hcs, hdefinitions]
      · simp [processFile, hcs, hdefinitions]
      · simp [processFile, checking, extracts, hdefinitions]
    | some t =>
      cases hplace : d.target (definitionPath g.exportType f) with
      | error e =>
        simp [processFile, hcs, hdefinitions, deliver, writes, Disk.write_eq, hplace,
          FileReport.isFailure] at unfailed
      | ok place =>
        have written : g.written? d f = some (place, t) :=
          written?_eq_some.mpr ⟨writes, by simp [definitions?, hcs, hdefinitions], hplace⟩
        obtain ⟨t', stands, last⟩ := Disk.exists_kind?_storeAll
          (fun w hw => canHold_of_mem_writtenAll hw) (mem_writtenAll.mpr ⟨f, hf, written⟩)
        have read := Disk.read_of_target (target.trans hplace) last
        refine .compared written stands ?_ ?_ last
        · simp [processFile, hcs, hdefinitions, deliver, writes, Disk.write_eq, hplace]
        · simp [processFile, checking, extracts, hdefinitions, deliver, read, Except.toOption]

/-! ## A check after a run -/

/-- A check selects the files that the run before it has selected. -/
theorem scan_checking (hd : d.Proper) (scanned : ∀ glob, g.pattern ≠ .glob glob)
    {order : List Path} (perm : order.Perm (g.scan d).files) :
    g.checking.scan (d.storeAll (g.writtenAll d order)) = g.scan d := by
  have batch : Batch g d (g.scan d).files := batch_of_scan hd scanned
  show Scan.run _ g.pattern g.ignores = Scan.run d g.pattern g.ignores
  cases found : Scan.candidates d g.pattern with
  | error notice =>
    have none : (g.scan d).files = [] := by simp [scan, Scan.run, found]
    rw [none] at perm
    rw [perm.eq_nil]
    rfl
  | ok paths =>
    have hws : g.writtenAll d order ⊆ g.writtenAll d (g.scan d).files := (perm.filterMap _).subset
    have differs := batch.differs hws
    have found' := Scan.candidates_of_differsAt hd differs.proper' differs.differs
      (fun here => Disk.isSome_kind?_storeAll fun w hw => canHold_of_mem_writtenAll hw)
      (fun here n written sheet =>
        differs.unread here n written (Typings.endsInSS_of_isSheetName sheet)) scanned found
    rw [Scan.run, Scan.run, found, found']

section AfterRun

variable (hd : d.Proper) (scanned : ∀ glob, g.pattern ≠ .glob glob) {order : List Path}
  (perm : order.Perm (g.scan d).files)

include hd scanned perm

/-- A check looks again at the files of the run before it, and leaves the disk as it is. -/
theorem run_checking :
    g.checking.run (d.storeAll (g.writtenAll d order)) =
      (⟨g.patternText, (g.scan d).files.map fun f =>
          (g.checking.processFile (d.storeAll (g.writtenAll d order)) f).1,
        (g.scan d).ignored, (g.scan d).skipped, true⟩, d.storeAll (g.writtenAll d order)) := by
  rw [run, scan_checking hd scanned perm]
  simp only [processFiles_checking]
  rfl

/-- After a run without failures every file that it selected is checked. -/
theorem checked_of_run (writes : g.listDifferent = false)
    (unfailed : ∀ r ∈ (g.processFiles d order).1, r.isFailure = false)
    (hf : f ∈ (g.scan d).files) : Checked g d order f := by
  have batch : Batch g d (g.scan d).files := batch_of_scan hd scanned
  have hf' := perm.mem_iff.mpr hf
  refine batch.checked writes perm.subset hf' (unfailed _ ?_)
  rw [batch.processFiles_eq perm.subset]
  exact List.mem_map_of_mem hf'

end AfterRun

/-- Where a check finds no difference, no style sheets clash. -/
theorem not_clash_of_same (hd : d.Proper) (scanned : ∀ glob, g.pattern ≠ .glob glob)
    {order : List Path} (checked : ∀ f ∈ (g.scan d).files, Checked g d order f)
    (same : ∀ f ∈ (g.scan d).files,
      (g.checking.processFile (d.storeAll (g.writtenAll d order)) f).1.isDifferent = false)
    {p q : Path} (hp : p ∈ (g.scan d).files) (hq : q ∈ (g.scan d).files) : ¬ Clash g d p q := by
  intro clash
  obtain ⟨place, t, t', written, written', different⟩ := (clash_iff hd scanned hp hq).mp clash
  have last := (checked p hp).kind?_of_not_isDifferent written (same p hp)
  have last' := (checked q hq).kind?_of_not_isDifferent written' (same q hq)
  cases last.symm.trans last'
  exact different rfl

/-- A check right after a run without failures leaves the disk as it is and has no failures.
It finds up to date what the run has generated, and no difference, exactly if no two style
sheets clash. -/
theorem check_after_run (hd : d.Proper) (scanned : ∀ glob, g.pattern ≠ .glob glob)
    (writes : g.listDifferent = false) {order : List Path} (perm : order.Perm (g.scan d).files)
    (unfailed : ∀ r ∈ (g.processFiles d order).1, r.isFailure = false) :
    let after := (g.processFiles d order).2
    let check := g.checking.run after
    check.2 = after ∧ check.1.failures = 0 ∧
      ((check.1.differences = 0 ∧ check.1.succeeds = true ∧
          ∀ file output, (∃ r ∈ check.1.files, r.file = file ∧ r.outcome = .upToDate output) ↔
            ∃ r ∈ (g.processFiles d order).1, r.file = file ∧ r.outcome = .generated output) ↔
        ∀ p ∈ (g.scan d).files, ∀ q ∈ (g.scan d).files, ¬ Clash g d p q) := by
  have ran := (batch_of_scan hd scanned).processFiles_eq perm.subset
  have checked (f : Path) (hf : f ∈ (g.scan d).files) : Checked g d order f :=
    checked_of_run hd scanned perm writes unfailed hf
  intro after check
  have hafter : after = d.storeAll (g.writtenAll d order) := congrArg Prod.snd ran
  have hcheck : check = _ := (congrArg g.checking.run hafter).trans (run_checking hd scanned perm)
  have unfailed' : check.1.failures = 0 := by
    rw [hcheck, Summary.failures, List.countP_eq_zero]
    simpa using fun f hf => (checked f hf).not_isFailure
  have differences : check.1.differences = 0 ↔ ∀ f ∈ (g.scan d).files,
      (g.checking.processFile (d.storeAll (g.writtenAll d order)) f).1.isDifferent = false := by
    rw [hcheck, Summary.differences, List.countP_eq_zero]
    simp
  refine ⟨by rw [hcheck, hafter], unfailed', ?_, ?_⟩
  · rintro ⟨same, _, _⟩ p hp q hq
    exact not_clash_of_same hd scanned checked (differences.mp same) hp hq
  · intro apart
    have single := single_of_not_clash hd scanned apart perm
    have agree (f : Path) (hf : f ∈ (g.scan d).files) :=
      (checked f hf).agree (perm.mem_iff.mpr hf) single
    have same : check.1.differences = 0 := differences.mpr fun f hf => (agree f hf).1
    refine ⟨same, by simp [Summary.succeeds, unfailed', same], fun file output => ?_⟩
    rw [ran, hcheck]
    simp only [List.mem_map, exists_exists_and_eq_and, file_processFile]
    constructor
    · rintro ⟨f, hf, rfl, outcome⟩
      exact ⟨f, perm.mem_iff.mpr hf, rfl, ((agree f hf).2 output).mp outcome⟩
    · rintro ⟨f, hf, rfl, outcome⟩
      have hf := perm.mem_iff.mp hf
      exact ⟨f, hf, rfl, ((agree f hf).2 output).mpr outcome⟩

/-- Declarations without values are up to date after they have been generated. -/
theorem check_after_run_dotSheets :
    ((onWorking .named).checking.run
      ((onWorking .named).processFiles dotSheets ["...less", "..less"]).2).1.succeeds = true := by
  have perm : List.Perm (["...less", "..less"] : List Path)
      ((onWorking .named).scan dotSheets).files := by decide
  have scanned : ∀ glob, (onWorking .named).pattern ≠ .glob glob := fun _ => nofun
  have apart := (check_after_run proper_dotSheets scanned rfl perm (by decide +kernel)).2.2
  exact (apart.mpr fun _ _ _ _ clash => nomatch clash.1).2.1

/-- With values one of the two style sheets is not. -/
theorem not_forall_checks_agree : ¬ ∀ (g : Generation) (d : Disk), d.Proper →
    (∀ glob, g.pattern ≠ .glob glob) → g.listDifferent = false → (g.run d).1.failures = 0 →
      (g.checking.run (g.run d).2).1.succeeds = true := by
  intro agree
  have clean : ((onWorking .values).run dotSheets).1.failures = 0 := by decide +kernel
  have succeeds := agree (onWorking .values) dotSheets proper_dotSheets (fun _ => nofun) rfl clean
  exact absurd succeeds (by decide +kernel)

end Generation

end StyleTypings
