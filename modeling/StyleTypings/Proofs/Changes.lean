/-
Changes — what a command leaves as it was.

A disk is looked at through its paths: what stands where a path leads (`stands?`).  Processing
a style sheet puts its declarations where they go, and reports that it has, or it puts a part of
them there, and reports that the device has broken off, or it puts nothing anywhere
(`processFile_cases`).  So each step of a run differs from the disk before it at most where
declarations go that the step reports on (`processFile_differs`), and a run at most where one of
its reports says so (`processFiles_differs`).  Where a path leads somewhere else afterwards, or to
something else, there is a report for it.

A command that cannot begin, and a check, write nothing at all (`run_changes_reported`); only the
settings file that is to be made may be left in part.

There are no links on a disk, so that nothing is changed through another name.  All of this
goes by places, not by spellings: one place may be reported under another path than
the one that is looked at (`not_forall_outputs_kept`).
-/
import StyleTypings.Command.Run
import StyleTypings.Proofs.Checking

namespace StyleTypings

open Typings (definitionPath)

/-! ## What stands where a path leads -/

namespace Disk

variable {d d' : Disk} {W : Location → Prop} {p : Path} {here : Location}

/-- What stands where a path leads: a file with its content, a directory, or nothing. -/
def stands? (d : Disk) (p : Path) : Option Kind := (d.locate p).toOption.bind d.kind?

/-- Two paths that lead to one place. -/
def Meet (d : Disk) (p q : Path) : Prop := ∃ here, d.locate p = .ok here ∧ d.locate q = .ok here

instance (d : Disk) (p q : Path) : Decidable (d.Meet p q) :=
  have both : (d.locate p).toOption.isSome ∧ (d.locate p).toOption = (d.locate q).toOption ↔
      d.Meet p q := by
    rw [Meet]
    cases d.locate p <;> cases d.locate q <;> simp [Except.toOption, eq_comm]
  decidable_of_iff _ both

theorem stands?_eq_some {k : Kind} :
    d.stands? p = some k ↔ ∃ here, d.locate p = .ok here ∧ d.kind? here = some k := by
  rw [stands?]
  cases d.locate p <;> simp [Except.toOption]

/-- Where a path would create a file, it leads to what has been put there. -/
theorem DiffersAt.locate_of_target (h : DiffersAt W d d') (target : d.target p = .ok here)
    (there : (d'.kind? here).isSome) : d'.locate p = .ok here := by
  obtain ⟨before, n, directory, segments, spelled, hn, follow, hdirectory, rfl, _⟩ :=
    target_eq_ok target
  rw [locate, spelled, segments, h.start_eq]
  show d'.follow _ _ = _
  rw [follow_append, h.follow_directory follow hdirectory]
  exact follow_cons_eq_ok.mpr
    ⟨(h.directories directory).mpr hdirectory, .inr (.inr ⟨hn, there, rfl⟩)⟩

/-- A path would create a file at the same place on both disks. -/
theorem DiffersAt.target_of_target (h : DiffersAt W d d') (target : d.target p = .ok here) :
    d'.target p = .ok here := by
  obtain ⟨before, n, directory, segments, _, hn, follow, hdirectory, _⟩ := target_eq_ok target
  rw [h.target_eq segments hn.entryName follow hdirectory, target]

/-- If nothing has been lost, a path that leads to something else now leads to a place that may
differ. -/
theorem DiffersAt.exists_of_stands?_ne (h : DiffersAt W d d')
    (kept : ∀ here, (d.kind? here).isSome → (d'.kind? here).isSome)
    (ne : d'.stands? p ≠ d.stands? p) :
    ∃ here, d'.locate p = .ok here ∧ (d'.kind? here).isSome ∧ W here := by
  cases after : d'.stands? p with
  | some k =>
    obtain ⟨here, located, hkind⟩ := stands?_eq_some.mp after
    refine ⟨here, located, by simp [hkind], ?_⟩
    by_contra out
    have same := h.elsewhere here out
    refine ne (after.trans (stands?_eq_some.mpr ⟨here, ?_, same ▸ hkind⟩).symm)
    exact h.symm.locate_of_locate located (by simp [← same, hkind])
  | none =>
    cases before : d.stands? p with
    | none => exact absurd (after.trans before.symm) ne
    | some k =>
      obtain ⟨here, located, hkind⟩ := stands?_eq_some.mp before
      obtain ⟨k', hkind'⟩ := Option.isSome_iff_exists.mp (kept here (by simp [hkind]))
      have located' := h.locate_of_locate located (by simp [hkind'])
      cases after.symm.trans (stands?_eq_some.mpr ⟨here, located', hkind'⟩)

end Disk

/-! ## What a run changes -/

namespace Generation

variable {g : Generation} {d : Disk} {device : Device}

/-- A report says that declarations have been written for its file. -/
def Reports (g : Generation) (r : FileReport) : Prop :=
  r.outcome = .generated (definitionPath g.exportType r.file)

instance (g : Generation) (r : FileReport) : Decidable (g.Reports r) :=
  inferInstanceAs (Decidable (_ = _))

/-- A report says that declarations could not be written for its file, and it was the device that
broke off, where they go. -/
def BrokenOff (g : Generation) (device : Device) (r : FileReport) : Prop :=
  ∃ d here t part e, d.target (definitionPath g.exportType r.file) = .ok here ∧
    device d here t = some (part, e) ∧
    r.outcome = .failed (Failure.unwritten (definitionPath g.exportType r.file) e).message

theorem not_brokenOff_whole (g : Generation) (r : FileReport) : ¬ g.BrokenOff .whole r := by
  rintro ⟨_, _, _, _, _, _, broken, _⟩
  cases broken

/-- Where the declarations go that some reports speak of, written or in part. -/
def Reported (g : Generation) (device : Device) (d : Disk) (reports : List FileReport)
    (here : Location) : Prop :=
  ∃ r ∈ reports, (g.Reports r ∨ g.BrokenOff device r) ∧
    d.target (definitionPath g.exportType r.file) = .ok here

/-- Declarations are put where they go, all of them or the part that the device comes to, and what
is said of them tells which; or nothing is put anywhere. -/
theorem deliver_cases (g : Generation) (device : Device) (d : Disk) (f : Path) (t : Text) :
    (g.deliver d f t device).2 = d ∨
      ∃ here c, d.target (definitionPath g.exportType f) = .ok here ∧
        (g.deliver d f t device).2 = d.put here c ∧
        ((g.deliver d f t device).1 = .generated (definitionPath g.exportType f) ∨
          ∃ e, device d here t = some (c, e) ∧ (g.deliver d f t device).1 =
            .failed (Failure.unwritten (definitionPath g.exportType f) e).message) := by
  rw [deliver]
  split
  · exact .inl rfl
  cases target : d.target (definitionPath g.exportType f) with
  | error e =>
    simp only [Disk.write, target]
    exact .inl trivial
  | ok here =>
    right
    cases broken : device d here t with
    | none =>
      simp only [Disk.write, target, broken]
      exact ⟨here, _, rfl, rfl, .inl trivial⟩
    | some stop =>
      obtain ⟨part, e⟩ := stop
      simp only [Disk.write, target, broken]
      exact ⟨here, part, rfl, rfl, .inr ⟨e, broken, rfl⟩⟩

/-- Processing a style sheet leaves the disk as it is, or puts something where the declarations go
and says so. -/
theorem processFile_cases (g : Generation) (device : Device) (d : Disk) (f : Path) :
    (g.processFile d f device).2 = d ∨
      ∃ here c, d.target (definitionPath g.exportType f) = .ok here ∧
        (g.processFile d f device).2 = d.put here c ∧
        (g.Reports (g.processFile d f device).1 ∨ g.BrokenOff device (g.processFile d f device).1)
        := by
  rw [processFile]
  split
  · exact .inl rfl
  simp only
  split
  · exact .inl rfl
  · rename_i t _
    rcases g.deliver_cases device d f t with same | ⟨here, c, target, put, outcome⟩
    · exact .inl same
    · refine .inr ⟨here, c, target, put, outcome.imp id ?_⟩
      rintro ⟨e, broken, failed⟩
      exact ⟨d, here, t, c, e, target, broken, failed⟩

/-- Processing a style sheet changes at most what its report speaks of. -/
theorem processFile_differs (g : Generation) (device : Device) (d : Disk) (f : Path) :
    d.DiffersAt (g.Reported device d [(g.processFile d f device).1])
      (g.processFile d f device).2 := by
  rcases g.processFile_cases device d f with same | ⟨here, c, target, put, reported⟩
  · rw [same]
    exact .refl _ d
  · rw [put]
    refine (Disk.differsAt_put c (Disk.canHold_of_target target)).mono ?_
    rintro _ rfl
    refine ⟨_, List.mem_singleton_self _, reported, ?_⟩
    rw [file_processFile]
    exact target

/-- So a run on some files, in their order, changes at most what its reports speak of. -/
theorem processFiles_differs (g : Generation) (device : Device) (d : Disk) (files : List Path) :
    d.DiffersAt (g.Reported device d (g.processFiles d files device).1)
      (g.processFiles d files device).2 := by
  induction files generalizing d with
  | nil => exact .refl _ d
  | cons f files ih =>
    have first := g.processFile_differs device d f
    have rest := ih (g.processFile d f device).2
    refine (first.mono ?_).trans (rest.mono ?_)
    · rintro here ⟨r, hr, reported, target⟩
      obtain rfl := List.mem_singleton.mp hr
      exact ⟨_, List.mem_cons_self, reported, target⟩
    · rintro here ⟨r, hr, reported, target⟩
      exact ⟨r, .tail _ hr, reported, first.symm.target_of_target target⟩

/-- A run loses nothing, as far as it is only asked whether anything stands somewhere. -/
theorem processFiles_keeps (g : Generation) (device : Device) (d : Disk) (files : List Path)
    {here : Location} (there : (d.kind? here).isSome) :
    ((g.processFiles d files device).2.kind? here).isSome := by
  induction files generalizing d with
  | nil => exact there
  | cons f files ih =>
    refine ih (g.processFile d f device).2 ?_
    rcases g.processFile_cases device d f with same | ⟨place, c, target, put, _⟩
    · rwa [same]
    · rw [put, Disk.kind?_put c (Disk.canHold_of_target target)]
      split
      · rfl
      · exact there

/-- A path that leads to something else after a run leads to declarations that are reported. -/
theorem exists_report_of_stands?_ne {files : List Path} {p : Path}
    (ne : (g.processFiles d files device).2.stands? p ≠ d.stands? p) :
    ∃ r ∈ (g.processFiles d files device).1, (g.Reports r ∨ g.BrokenOff device r) ∧
      (g.processFiles d files device).2.Meet p (definitionPath g.exportType r.file) := by
  have differs := g.processFiles_differs device d files
  obtain ⟨here, located, there, r, hr, reported, target⟩ :=
    differs.exists_of_stands?_ne (fun _ => g.processFiles_keeps device d files) ne
  exact ⟨r, hr, reported, here, located, differs.locate_of_target target there⟩

/-- A check leaves the disk as it is, whatever the device. -/
theorem processFiles_of_listDifferent (checks : g.listDifferent = true) (files : List Path) :
    (g.processFiles d files device).2 = d := by
  have kept (f : Path) : (g.processFile d f device).2 = d := by
    rw [processFile]
    split
    · rfl
    · simp only [deliver, checks, if_true]
      split <;> rfl
  induction files with
  | nil => rfl
  | cons f files ih =>
    rw [processFiles]
    simp only [kept, ih]

end Generation

/-! ## What a command changes -/

namespace Effect

variable {color : Bool} {d : Disk} {device : Device}

theorem generate_of_error {a : GenerateArguments} {e : SetupError}
    (h : Generation.ofArguments d a = .error e) : (generate color d a device).disk = d := by
  rw [generate, h]
  rfl

theorem generate_of_ok {a : GenerateArguments} {g : Generation}
    (h : Generation.ofArguments d a = .ok g) :
    (generate color d a device).disk = (g.run d device).2 ∧
      (generate color d a device).status ≠ .error := by
  rw [generate, h]
  refine ⟨rfl, ?_⟩
  show (if _ then ExitStatus.success else .failure) ≠ .error
  split <;> nofun

/-- Settings that are not made leave the disk as it is, unless the device has broken off. -/
theorem init_of_error (h : (init color d device).status = .error) :
    (init color d device).disk = d ∨
      ∃ here part e, d.target ⟨false, [Settings.fileName]⟩ = .ok here ∧
        device d here Settings.default.print = some (part, e) ∧
        (init color d device).disk = d.put here part := by
  rw [init] at h ⊢
  split
  · exact .inl rfl
  rename_i missing
  rw [if_neg missing] at h
  cases target : d.target ⟨false, [Settings.fileName]⟩ with
  | error e =>
    simp only [Disk.write, target]
    exact .inl rfl
  | ok here =>
    cases broken : device d here Settings.default.print with
    | none =>
      simp only [Disk.write, target, broken] at h
      cases h
    | some stop =>
      obtain ⟨part, e⟩ := stop
      simp only [Disk.write, target, broken]
      exact .inr ⟨here, part, e, rfl, broken, rfl⟩

end Effect

/-- The settings of a run say whether it is a check as the command line does. -/
theorem Generation.listDifferent_of_ofArguments {d : Disk} {a : GenerateArguments} {g : Generation}
    (h : ofArguments d a = .ok g) : g.listDifferent = a.listDifferent := by
  rw [ofArguments] at h
  obtain ⟨settings, _, h⟩ := ok_of_bind h
  rw [ofSettings] at h
  obtain ⟨pattern, _, h⟩ := ok_of_bind h
  cases h
  rfl

/-- What a run leaves behind, given its reports.  A path that leads to something else than
before leads to declarations that are reported as written, or on which the device has broken off.
So the declarations for a file that failed, or has no classes, stand as they stood, unless such
ones go there. -/
structure Generation.ChangesReported (g : Generation) (device : Device) (d after : Disk)
    (reports : List FileReport) : Prop where
  changed : ∀ p, after.stands? p ≠ d.stands? p →
    ∃ r ∈ reports, (g.Reports r ∨ g.BrokenOff device r) ∧
      after.Meet p (definitionPath g.exportType r.file)
  kept : ∀ r ∈ reports, r.isFailure = true ∨ r.outcome = .noClassNames →
    (∀ r' ∈ reports, g.Reports r' ∨ g.BrokenOff device r' →
      ¬ after.Meet (definitionPath g.exportType r.file) (definitionPath g.exportType r'.file)) →
    after.stands? (definitionPath g.exportType r.file) =
      d.stands? (definitionPath g.exportType r.file)

theorem Generation.changesReported (g : Generation) (device : Device) (d : Disk)
    (files : List Path) :
    g.ChangesReported device d (g.processFiles d files device).2
      (g.processFiles d files device).1 where
  changed _ ne := exists_report_of_stands?_ne ne
  kept r _ _ apart := by
    by_contra ne
    obtain ⟨r', hr', reported, meet⟩ := exists_report_of_stands?_ne ne
    exact apart r' hr' reported meet

/-- A run that ends with an error leaves the disk as it is, and so does a check; only where a
settings file is to be made, the device may break off and leave a part of it.  Any other run, in
whatever order it processes whatever files, changes what its reports say and nothing else: where
declarations go that are reported as written, or on which the device has broken off, which it
never does if it is whole. -/
theorem run_changes_reported (color : Bool) (d : Disk) (command : Option Command)
    (device : Device) :
    ((Command.run color d command device).status = .error →
      (Command.run color d command device).disk = d ∨
      command = some .init ∧ ∃ here part e,
        d.target ⟨false, [Settings.fileName]⟩ = .ok here ∧
        device d here Settings.default.print = some (part, e) ∧
        (Command.run color d command device).disk = d.put here part) ∧
    (∀ a, command = some (.generate a) →
      (a.listDifferent = true → (Command.run color d command device).disk = d) ∧
      ∀ g, Generation.ofArguments d a = .ok g →
        g.ChangesReported device d (Command.run color d command device).disk
          (g.run d device).1.files ∧
        ∀ files : List Path,
          g.ChangesReported device d (g.processFiles d files device).2
            (g.processFiles d files device).1) ∧
    ∀ (g : Generation) (r : FileReport), ¬ g.BrokenOff .whole r := by
  refine ⟨fun failed => ?_, ?_, Generation.not_brokenOff_whole⟩
  · match command with
    | none => cases failed
    | some .init => exact (Effect.init_of_error failed).imp_right fun broken => ⟨rfl, broken⟩
    | some (.generate a) =>
      cases hg : Generation.ofArguments d a with
      | error e => exact .inl (Effect.generate_of_error hg)
      | ok g => exact absurd failed (Effect.generate_of_ok hg).2
  · rintro a rfl
    constructor
    · intro checks
      cases hg : Generation.ofArguments d a with
      | error e => exact Effect.generate_of_error hg
      | ok g =>
        have checks' := (Generation.listDifferent_of_ofArguments hg).trans checks
        exact (Effect.generate_of_ok hg).1.trans (Generation.processFiles_of_listDifferent checks' _)
    · intro g hg
      refine ⟨?_, g.changesReported device d⟩
      show g.ChangesReported device d (Effect.generate color d a device).disk _
      rw [(Effect.generate_of_ok hg).1]
      exact g.changesReported device d (g.scan d).files

/-- A style sheet beside a broken one, which has declarations from before. -/
def besideBroken : Disk :=
  .ofFiles [("a.less", ".b \x7b c: d; \x7d"), ("e.less", ".f \x7b"), ("e.less.d.ts", "old")]

/-- The command line that asks for everything below the working directory. -/
def everything : GenerateArguments where
  pattern := "."
  nameFormat := none
  exportType := none
  lineEnding := none
  listDifferent := false
  watch := false
  ignoreInitial := false
  aliases := []
  aliasPrefixes := []
  verbose := false

/-- What was generated for the broken style sheet stays, while the other one gets its
declarations. -/
theorem run_changes_reported_besideBroken :
    let after := (Command.run false besideBroken (some (.generate everything))).disk
    after.stands? "a.less.d.ts" = some (.file (.text "export const b: string;\n")) ∧
      after.stands? "e.less.d.ts" = some (.file (.text "old")) := by
  let g : Generation := { Generation.onWorking .named with
    nameFormat := .camel
    ignores := .ofTexts Settings.default.ignores }
  have hg : Generation.ofArguments besideBroken everything = .ok g := by decide +kernel
  have reported :=
    ((run_changes_reported false besideBroken (some (.generate everything)) .whole).2.1 _ rfl).2 g
      hg
  have failed : ∃ r ∈ (g.run besideBroken).1.files, r.isFailure = true ∧ r.file = "e.less" := by
    decide +kernel
  obtain ⟨r, hr, failed, file⟩ := failed
  refine ⟨by decide +kernel, ?_⟩
  have kept := reported.1.kept r hr (.inl failed)
  rw [file] at kept
  have apart : ∀ r' ∈ (g.run besideBroken).1.files, g.Reports r' →
      ¬ (Command.run false besideBroken (some (.generate everything))).disk.Meet
        (definitionPath g.exportType "e.less") (definitionPath g.exportType r'.file) := by
    decide +kernel
  refine (kept fun r' hr' reported => ?_).trans (by decide +kernel)
  exact apart r' hr' (reported.resolve_right (g.not_brokenOff_whole r'))

/-! ### What fails and is changed all the same -/

/-- Two directories from which the way leads back to a broken style sheet and to one that is fine.
The settings have the broken one ignored on one of the ways, and the other one on the other. -/
def roundabout : Disk where
  root := .directory [
    (".typedlessrc.json", .file (.text ("\x7b\"exportType\": \"values\", ".toList ++
      "\"ignores\": [\"s/../a.less\", \"t/../a\"]\x7d".toList))),
    ("a", .file (.text ".x \x7b")), ("a.less", .file (.text ".y \x7b z: w; \x7d")),
    ("s", .directory []), ("t", .directory [])]
  working := []

/-- A device that is full, so that a file to be written is left empty. -/
def Device.full : Device := fun _ _ _ => some (.text [], .noSpace)

/-- Declarations for a file that failed do not stand as they stood wherever no other path is
reported as written: the other path may lead to the same place.  Nor do they wherever no other
place is, since the device may have broken off. -/
theorem not_forall_outputs_kept :
    (¬ ∀ (d : Disk) (a : GenerateArguments) (g : Generation),
      Generation.ofArguments d a = .ok g → ∀ r ∈ (g.run d).1.files, r.isFailure = true →
        (∀ r' ∈ (g.run d).1.files, g.Reports r' →
          definitionPath g.exportType r.file ≠ definitionPath g.exportType r'.file) →
        (Command.run false d (some (.generate a))).disk.stands?
            (definitionPath g.exportType r.file) =
          d.stands? (definitionPath g.exportType r.file)) ∧
    ¬ ∀ (device : Device) (d : Disk) (a : GenerateArguments) (g : Generation),
      Generation.ofArguments d a = .ok g → ∀ r ∈ (g.run d device).1.files, r.isFailure = true →
        (∀ r' ∈ (g.run d device).1.files, g.Reports r' →
          ¬ (Command.run false d (some (.generate a)) device).disk.Meet
            (definitionPath g.exportType r.file) (definitionPath g.exportType r'.file)) →
        (Command.run false d (some (.generate a)) device).disk.stands?
            (definitionPath g.exportType r.file) =
          d.stands? (definitionPath g.exportType r.file) := by
  constructor
  · intro h
    let g : Generation := { Generation.onWorking .values with
      pattern := .glob ⟨"*/../a*", [.anySequence, .char '/', .char '.', .char '.', .char '/',
        .char 'a', .anySequence]⟩
      patternText := "*/../a*"
      nameFormat := .camel
      ignores := .ofTexts ["s/../a.less", "t/../a"] }
    have hg : Generation.ofArguments roundabout { everything with pattern := "*/../a*" } = .ok g := by
      decide +kernel
    have failed : ∃ r ∈ (g.run roundabout).1.files, r.isFailure = true ∧ r.file = "s/../a" := by
      decide +kernel
    have apart : ∀ r' ∈ (g.run roundabout).1.files, g.Reports r' →
        definitionPath g.exportType "s/../a" ≠ definitionPath g.exportType r'.file := by
      decide +kernel
    obtain ⟨r, hr, failed, file⟩ := failed
    have kept := h roundabout _ g hg r hr failed
    rw [file] at kept
    exact absurd (kept apart) (by decide +kernel)
  · intro h
    let g : Generation := { Generation.onWorking .named with
      nameFormat := .camel
      ignores := .ofTexts Settings.default.ignores }
    have hg : Generation.ofArguments besideBroken everything = .ok g := by decide +kernel
    have failed : ∃ r ∈ (g.run besideBroken .full).1.files,
        r.isFailure = true ∧ r.file = "a.less" := by decide +kernel
    have unreported : ∀ r' ∈ (g.run besideBroken .full).1.files, ¬ g.Reports r' := by
      decide +kernel
    obtain ⟨r, hr, failed, file⟩ := failed
    have kept := h .full besideBroken everything g hg r hr failed fun r' hr' reports =>
      absurd reports (unreported r' hr')
    rw [file] at kept
    exact absurd kept (by decide +kernel)

end StyleTypings
