/-
Outputs — which files share the file of their declarations.

The declarations for a file stand beside it, under a name that is a stem and an ending.
The stem is the whole name, except that the declarations with values leave out the extension
of a style sheet.  So two names of one directory have one stem in two cases only, and both
are among declarations with values (`outputStem_eq_iff`):

  `WithAndWithout`   `a` and `a.less`: both have the stem `a`
  `Dotted`           `..less` and `...less`: what is left of `..less` is a point, to which a
                     second one is added because a point is no name

From this it follows which of the files that a scan selects get the same path for their
declarations, and which of them write to the same place on the disk (`outputs_distinct`).
The second holds because a disk has no links: a link beside a style sheet, where its
declarations go, would lead them elsewhere.
-/
import StyleTypings.Proofs.Files.Scans
import StyleTypings.Typings.Render

namespace StyleTypings

open StyleTypings.Path (IsEntryName)
open Entry (IsSheetName)

/-! ## Names of style sheets -/

/-- The extension of a style sheet with the point before it. -/
def Path.sheetExtension : Text := (".less" : Text)

namespace Path

theorem splitName_sheet {stem : Text} (h : stem ≠ []) :
    splitName (stem ++ sheetExtension) = (stem, some ("less" : Text)) := by
  have broken : Text.breakAtLast? '.' (stem ++ sheetExtension) = some (stem, ("less" : Text)) := by
    simp [Text.breakAtLast?, sheetExtension, Text.breakAt?]
  rw [splitName, broken]
  split
  · simp_all
  · simp_all
  · simp_all

/-- The name of a style sheet is a stem and the extension. -/
theorem isSheetName_iff {n : Text} : IsSheetName n ↔ ∃ stem ≠ [], n = stem ++ sheetExtension := by
  constructor
  · intro h
    obtain ⟨name, nonempty⟩ := eq_of_splitName h
    exact ⟨_, nonempty, name⟩
  · rintro ⟨stem, nonempty, rfl⟩
    rw [IsSheetName, splitName_sheet nonempty]

end Path

namespace Typings

variable {e : ExportType} {n m : Text}

/-- What stands before the ending in the name of the declarations for a file. -/
def outputStem (e : ExportType) (n : Text) : Text :=
  if e = .values ∧ IsSheetName n then
    if (Path.splitName n).1 = ['.'] then ['.', '.'] else (Path.splitName n).1
  else n

/-- What ends the name of a file of declarations. -/
def outputEnding : ExportType → Text
  | .values => (".const.ts" : Text)
  | _ => (".d.ts" : Text)

def outputName (e : ExportType) (n : Text) : Text := outputStem e n ++ outputEnding e

/-! ## Names that share a stem -/

/-- Names that differ in the extension of a style sheet, which one has and the other has
not. -/
def WithAndWithout (n m : Text) : Prop :=
  ¬ IsSheetName n ∧ m = n ++ Path.sheetExtension ∨ ¬ IsSheetName m ∧ n = m ++ Path.sheetExtension

/-- The names of style sheets of which one or two points are left without the extension. -/
def Dotted (n m : Text) : Prop :=
  n = ("..less" : Text) ∧ m = ("...less" : Text) ∨ n = ("...less" : Text) ∧ m = ("..less" : Text)

instance : Decidable (WithAndWithout n m) := inferInstanceAs (Decidable (_ ∨ _))

instance : Decidable (Dotted n m) := inferInstanceAs (Decidable (_ ∨ _))

theorem outputStem_of_ne (h : e ≠ .values) : outputStem e n = n := if_neg fun h' => h h'.1

theorem outputStem_of_not_sheet (h : ¬ IsSheetName n) : outputStem e n = n :=
  if_neg fun h' => h h'.2

theorem outputStem_values_sheet {stem : Text} (h : stem ≠ []) :
    outputStem .values (stem ++ Path.sheetExtension) =
      if stem = ['.'] then ['.', '.'] else stem := by
  rw [outputStem, if_pos ⟨rfl, Path.isSheetName_iff.mpr ⟨stem, h, rfl⟩⟩, Path.splitName_sheet h]

/-- A name without the extension of a style sheet shares its stem with the name that has it
besides, and with no other. -/
theorem outputStem_values_eq_iff_of_not_sheet (hn : IsEntryName n) (plain : ¬ IsSheetName n)
    (sheet : IsSheetName m) :
    outputStem .values n = outputStem .values m ↔ m = n ++ Path.sheetExtension := by
  obtain ⟨stem, nonempty, rfl⟩ := Path.isSheetName_iff.mp sheet
  rw [outputStem_of_not_sheet plain, outputStem_values_sheet nonempty, List.append_left_inj]
  split
  · rename_i point
    subst point
    refine iff_of_false hn.2 fun h => ?_
    subst h
    cases hn.1
  · exact eq_comm

theorem outputStem_values_eq_iff_of_sheet (hn : IsSheetName n) (hm : IsSheetName m) :
    outputStem .values n = outputStem .values m ↔ n = m ∨ Dotted n m := by
  obtain ⟨stem, nonempty, rfl⟩ := Path.isSheetName_iff.mp hn
  obtain ⟨stem', nonempty', rfl⟩ := Path.isSheetName_iff.mp hm
  have point : ("..less" : Text) = ['.'] ++ Path.sheetExtension := rfl
  have points : ("...less" : Text) = ['.', '.'] ++ Path.sheetExtension := rfl
  rw [outputStem_values_sheet nonempty, outputStem_values_sheet nonempty', Dotted, point, points]
  simp only [List.append_left_inj]
  split <;> split <;> simp_all [eq_comm]

/-- Two names have one stem in two cases only. -/
theorem outputStem_eq_iff (hn : IsEntryName n) (hm : IsEntryName m) :
    outputStem e n = outputStem e m ↔
      n = m ∨ e = .values ∧ (WithAndWithout n m ∨ Dotted n m) := by
  by_cases values : e = .values
  · subst values
    have dotted_sheets (h : Dotted n m) : IsSheetName n ∧ IsSheetName m := by
      rcases h with ⟨rfl, rfl⟩ | ⟨rfl, rfl⟩ <;> decide
    have extended_sheet {s : Text} (hs : IsEntryName s) : IsSheetName (s ++ Path.sheetExtension) :=
      Path.isSheetName_iff.mpr ⟨s, hs.ne_nil, rfl⟩
    by_cases sheet : IsSheetName n <;> by_cases sheet' : IsSheetName m
    · rw [outputStem_values_eq_iff_of_sheet sheet sheet']
      simp [WithAndWithout, sheet, sheet']
    · have ne : n ≠ m := fun h => sheet' (h ▸ sheet)
      have undotted : ¬ Dotted n m := fun h => sheet' (dotted_sheets h).2
      rw [eq_comm, outputStem_values_eq_iff_of_not_sheet hm sheet' sheet]
      simp [WithAndWithout, sheet, sheet', ne, undotted]
    · have ne : n ≠ m := fun h => sheet (h ▸ sheet')
      have undotted : ¬ Dotted n m := fun h => sheet (dotted_sheets h).1
      rw [outputStem_values_eq_iff_of_not_sheet hn sheet sheet']
      simp [WithAndWithout, sheet, sheet', ne, undotted]
    · have undotted : ¬ Dotted n m := fun h => sheet (dotted_sheets h).1
      have unextended : m ≠ n ++ Path.sheetExtension := fun h => sheet' (h ▸ extended_sheet hn)
      have unextended' : n ≠ m ++ Path.sheetExtension := fun h => sheet (h ▸ extended_sheet hm)
      rw [outputStem_of_not_sheet sheet, outputStem_of_not_sheet sheet']
      simp [WithAndWithout, undotted, unextended, unextended']
  · rw [outputStem_of_ne values, outputStem_of_ne values]
    simp [values]

theorem outputName_eq_iff : outputName e n = outputName e m ↔ outputStem e n = outputStem e m :=
  List.append_left_inj _

/-- The name of a file of declarations is longer than the names that mean a directory. -/
theorem isEntryName_outputName (e : ExportType) (n : Text) : IsEntryName (outputName e n) := by
  have ending : 5 ≤ (outputEnding e).length := by cases e <;> decide
  refine Path.isEntryName_of_length ?_
  rw [outputName, List.length_append]
  omega

/-! ## Paths that share an output -/

/-- Names of one directory that are related, as lists that end in them. -/
def Beside (R : Text → Text → Prop) (l l' : List Text) : Prop :=
  ∃ before n m, l = before ++ [n] ∧ l' = before ++ [m] ∧ R n m

theorem beside_concat {R : Text → Text → Prop} {before before' : List Text} :
    Beside R (before ++ [n]) (before' ++ [m]) ↔ before = before' ∧ R n m := by
  constructor
  · rintro ⟨_, _, _, h, h', related⟩
    obtain ⟨rfl, rfl⟩ := List.append_singleton_inj.mp h
    obtain ⟨rfl, rfl⟩ := List.append_singleton_inj.mp h'
    exact ⟨rfl, related⟩
  · rintro ⟨rfl, related⟩
    exact ⟨_, _, _, rfl, rfl, related⟩

section Paths

variable {p q : Path}

/-- Without its extension a plain path has the stem of its name, with a second point where
that is a point. -/
theorem withoutExtension_eq (plain : p.IsPlain) {before : List Text}
    (segments : p.segments = before ++ [n]) (hn : IsEntryName n) :
    p.withoutExtension = ⟨p.absolute, before ++
      [if (Path.splitName n).1 = ['.'] then ['.', '.'] else (Path.splitName n).1]⟩ := by
  have name : p.fileName? = some n := Path.fileName?_of_steps (plain.steps_eq.trans segments) hn.2
  have last : p.segments.getLast? = some n := by rw [segments, List.getLast?_concat]
  have reversed : Path.dropFillers p.absolute p.segments.reverse = n :: before.reverse := by
    have point : n ≠ ['.'] := fun h => by simp [h, IsEntryName, Path.isFiller] at hn
    rw [segments, List.reverse_concat]
    cases before.reverse <;> simp [Path.dropFillers, hn.ne_nil, hn.1, point]
  simp [Path.withoutExtension, name, last, reversed, Path.ofReversed]

theorem append_eq (absolute : Bool) (before : List Text) (stem ending : Text) :
    Path.append ⟨absolute, before ++ [stem]⟩ ending = ⟨absolute, before ++ [stem ++ ending]⟩ := by
  simp [Path.append]

/-- The declarations for a file stand beside it. -/
theorem definitionPath_eq (plain : p.IsPlain) {before : List Text}
    (segments : p.segments = before ++ [n]) (hn : IsEntryName n) :
    definitionPath e p = ⟨p.absolute, before ++ [outputName e n]⟩ := by
  have path : p = ⟨p.absolute, before ++ [n]⟩ := by rw [← segments]
  have whole (ending : Text) : p.append ending = ⟨p.absolute, before ++ [n ++ ending]⟩ :=
    (congrArg (Path.append · ending) path).trans (append_eq ..)
  by_cases values : e = .values
  · subst values
    have sheet : (p.extension? == some ("less" : Text)) = true ↔ IsSheetName n :=
      Entry.isStyleSheet_iff (plain.steps_eq.trans segments) hn
    rw [definitionPath, outputName, outputStem]
    by_cases h : IsSheetName n
    · rw [if_pos (sheet.mpr h), if_pos ⟨rfl, h⟩, withoutExtension_eq plain segments hn, append_eq]
      rfl
    · rw [if_neg (mt sheet.mp h), if_neg fun h' => h h'.2, whole]
      rfl
  · rw [outputName, outputStem_of_ne values]
    cases e <;> first | exact whole _ | contradiction

theorem isPlain_definitionPath (plain : p.IsPlain) {before : List Text}
    (segments : p.segments = before ++ [n]) (hn : IsEntryName n) :
    (definitionPath e p).IsPlain := by
  rw [definitionPath_eq plain segments hn]
  refine ⟨List.filter_eq_self.mpr fun s hs => ?_, by simp⟩
  rcases List.mem_append.mp hs with hs | hs
  · refine List.filter_eq_self.mp plain.steps_eq s ?_
    rw [segments]
    exact List.mem_append_left _ hs
  · rw [List.mem_singleton.mp hs, (isEntryName_outputName e n).1]
    rfl

/-- Two files of one directory whose names are related. -/
def BesidePath (R : Text → Text → Prop) (p q : Path) : Prop :=
  p.absolute = q.absolute ∧ Beside R p.segments q.segments

/-- The declarations of two files get one path if the files stand in one directory and
their names have one stem. -/
theorem same_definitionPath_iff (plain : p.IsPlain) (plain' : q.IsPlain) {before before' : List Text}
    (segments : p.segments = before ++ [n]) (segments' : q.segments = before' ++ [m])
    (hn : IsEntryName n) (hm : IsEntryName m) :
    (definitionPath e p).same (definitionPath e q) = true ↔
      p.absolute = q.absolute ∧ before = before' ∧ outputStem e n = outputStem e m := by
  rw [(isPlain_definitionPath plain segments hn).same_iff
    (isPlain_definitionPath plain' segments' hm), definitionPath_eq plain segments hn,
    definitionPath_eq plain' segments' hm, Path.mk.injEq, List.append_singleton_inj,
    outputName_eq_iff]

variable {d : Disk} {here : Location}

/-- A file stands in the directory in which its declarations are to be put, and so they are
put beside it. -/
theorem target_definitionPath (plain : p.IsPlain) (fileAt : d.FileAt p here) :
    ∃ before n directory, p.segments = before ++ [n] ∧ Disk.IsName n ∧
      here = directory ++ [n] ∧ d.kind? directory = some .directory ∧
      d.follow before (d.start p) = .ok directory ∧
      ∀ place, d.target (definitionPath e p) = .ok place → place = directory ++ [outputName e n] := by
  obtain ⟨content, file⟩ := fileAt.file
  obtain ⟨before, n, directory, segments, hname, follow, hdirectory, rfl⟩ :=
    fileAt.leads.concat plain file
  refine ⟨before, n, directory, segments, hname, rfl, hdirectory, follow, fun place h => ?_⟩
  rw [definitionPath_eq plain segments hname.entryName] at h
  rw [Disk.target_of_follow (p := ⟨p.absolute, before ++ [outputName e n]⟩) rfl
    (isEntryName_outputName e n) follow hdirectory] at h
  split at h
  · cases h
  split at h
  · cases h
  split at h
  · cases h
  · exact (Except.ok.inj h).symm

end Paths

/-- Two files that a scan selects get different paths for their declarations, and write to
different places unless they are one file; except that under declarations with values a name
without the extension of a style sheet goes together with the name that has it besides.
(Nothing is said here about `..less` and `...less` in one directory.) -/
theorem outputs_distinct {d : Disk} (hd : d.Proper) (pattern : SourcePattern) (ignores : IgnoreList)
    (e : ExportType) {p q : Path} (hp : p ∈ (Scan.run d pattern ignores).files)
    (hq : q ∈ (Scan.run d pattern ignores).files) (ne : p ≠ q) :
    (¬ (e = .values ∧ BesidePath Dotted p q) →
      ((definitionPath e p).same (definitionPath e q) = true ↔
        e = .values ∧ BesidePath WithAndWithout p q)) ∧
    ∀ here there place, d.FileAt p here → d.FileAt q there → here ≠ there →
      ¬ (e = .values ∧ Beside Dotted here there) →
      d.target (definitionPath e p) = .ok place → d.target (definitionPath e q) = .ok place →
        e = .values ∧ Beside WithAndWithout here there := by
  obtain ⟨plain, here, fileAt⟩ := Scan.exists_fileAt_of_mem_run hd hp
  obtain ⟨plain', there, fileAt'⟩ := Scan.exists_fileAt_of_mem_run hd hq
  constructor
  · obtain ⟨before, n, _, segments, hn, _⟩ := target_definitionPath (e := e) plain fileAt
    obtain ⟨before', m, _, segments', hm, _⟩ := target_definitionPath (e := e) plain' fileAt'
    rw [same_definitionPath_iff plain plain' segments segments' hn.entryName hm.entryName,
      outputStem_eq_iff hn.entryName hm.entryName, BesidePath, BesidePath, segments, segments',
      beside_concat, beside_concat]
    intro undotted
    constructor
    · rintro ⟨absolute, directory, name | ⟨values, related | related⟩⟩
      · refine absurd (?_ : Path.mk p.absolute p.segments = ⟨q.absolute, q.segments⟩) ne
        rw [segments, segments', absolute, directory, name]
      · exact ⟨values, absolute, directory, related⟩
      · exact absurd ⟨values, absolute, directory, related⟩ undotted
    · rintro ⟨values, absolute, directory, related⟩
      exact ⟨absolute, directory, .inr ⟨values, .inl related⟩⟩
  · intro here there place fileAt fileAt' apart undotted target target'
    obtain ⟨_, n, directory, _, hn, rfl, _, _, at_place⟩ := target_definitionPath plain fileAt
    obtain ⟨_, m, directory', _, hm, rfl, _, _, at_place'⟩ := target_definitionPath plain' fileAt'
    obtain ⟨rfl, names⟩ := List.append_singleton_inj.mp
      ((at_place place target).symm.trans (at_place' place target'))
    rw [outputName_eq_iff, outputStem_eq_iff hn.entryName hm.entryName] at names
    rw [beside_concat] at undotted ⊢
    rcases names with rfl | ⟨values, related | related⟩
    · exact absurd rfl apart
    · exact ⟨values, rfl, related⟩
    · exact absurd ⟨values, rfl, related⟩ undotted

/-- A style sheet, and a file of the same name without the extension. -/
def withAndWithout : Disk :=
  .ofFiles [("a", ".b \x7b c: d; \x7d"), ("a.less", ".e \x7b f: g; \x7d")]

theorem proper_withAndWithout : withAndWithout.Proper :=
  Disk.proper_ofFiles (by decide) (by decide)

/-- The files that begin with an `a`. -/
def beginningWithA : SourcePattern := .glob ⟨"a*", [.char 'a', .anySequence]⟩

/-- Both files are selected, and the declarations with values of both have one path. -/
theorem outputs_distinct_withAndWithout :
    (Scan.run withAndWithout beginningWithA []).files = ["a", "a.less"] ∧
      (definitionPath .values "a").same (definitionPath .values "a.less") = true := by
  refine ⟨by decide, ?_⟩
  have names : ¬ Dotted ("a" : Text) ("a.less" : Text) := by decide
  have undotted : ¬ (ExportType.values = .values ∧ BesidePath Dotted "a" "a.less") := by
    rintro ⟨_, _, related⟩
    have related : Beside Dotted ([] ++ [("a" : Text)]) ([] ++ [("a.less" : Text)]) := related
    exact names (beside_concat.mp related).2
  have same := (outputs_distinct proper_withAndWithout beginningWithA [] .values (p := "a")
    (q := "a.less") (by decide) (by decide) (by decide)).1 undotted
  exact same.mpr ⟨rfl, rfl, [], "a", "a.less", rfl, rfl, by decide⟩

/-- So not all files that a scan selects have declarations of their own. -/
theorem not_forall_outputs_apart : ¬ ∀ (d : Disk), d.Proper →
    ∀ (pattern : SourcePattern) (ignores : IgnoreList) (e : ExportType),
      (Scan.run d pattern ignores).files.Pairwise fun p q =>
        (definitionPath e p).same (definitionPath e q) = false := fun apart =>
  absurd (apart withAndWithout proper_withAndWithout beginningWithA [] .values) (by decide)

end Typings

end StyleTypings
