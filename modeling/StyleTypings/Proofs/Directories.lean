/-
Directories — exactly which style sheets a scan of a directory selects.

The style sheets below a directory are known by the names that lead down to them
(`Disk.SheetBelow`), and a scan goes through all of them, each once (`mem_sheetsBelow_iff`,
`sheetsBelow_nodup`).  It puts their paths in the strict order of their parts
(`inOrder_sorted`), so what it selects is known from which paths these are, whatever the order
in which the walk comes to them (`InOrder.eq_of_mem_iff`).

Files are left out by their paths as the walk makes them, and selected in plain form.  Both
questions, whether a path is ignored and whether a pattern selects it, are asked of the plain
form, which is its own plain form, so the answers agree for every spelling of the directory
(`ignores_normalize`, `selects_of_sheetBelow`).
-/
import StyleTypings.Proofs.Files.Listing
import StyleTypings.Proofs.Files.Scans
import Mathlib.Data.Prod.Lex
import Mathlib.Data.Set.Card

namespace StyleTypings

/-! ## The order of paths -/

namespace Path

/-- What a part is compared by: first its kind, then its name. -/
def Part.key (p : Part) : ℕ ×ₗ Text := toLex (p.rank, p.text)

/-- What a path is compared by. -/
def key (p : Path) : List (ℕ ×ₗ Text) := p.parts.map Part.key

theorem Part.key_injective : Function.Injective Part.key := by
  intro a b h
  have same : (a.rank, a.text) = (b.rank, b.text) := toLex.injective h
  obtain ⟨ranks, texts⟩ := Prod.mk.inj same
  cases a <;> cases b <;> first | rfl | exact congrArg Part.name texts | cases ranks

theorem Part.le_iff {a b : Part} : a.le b = true ↔ a.key ≤ b.key := by
  rw [Part.key, Part.key, Prod.Lex.toLex_le_toLex]
  cases a <;> cases b <;> simp [Part.le, Part.rank, Part.text, textLe_iff]

theorem partsLe_iff {s t : List Part} : partsLe s t = true ↔ s.map Part.key ≤ t.map Part.key := by
  rw [← not_lt]
  induction s generalizing t with
  | nil => simp [partsLe]
  | cons a s ih =>
    cases t with
    | nil => simp [partsLe]
    | cons b t =>
      rw [partsLe, List.map_cons, List.map_cons, List.cons_lt_cons_iff]
      split
      · rename_i h
        subst h
        simp [ih]
      · rename_i h
        have other : b.key ≠ a.key := fun same => h (Part.key_injective same).symm
        rw [Part.le_iff, not_or, not_lt, not_and]
        exact ⟨fun le => ⟨le, fun same => absurd same other⟩, And.left⟩

theorem le_iff {p q : Path} : p.le q = true ↔ p.key ≤ q.key := partsLe_iff

theorem same_iff_key {p q : Path} : p.same q = true ↔ p.key = q.key := by
  rw [same, beq_iff_eq, key, key, (List.map_injective_iff.mpr Part.key_injective).eq_iff]

end Path

namespace Scan

/-- Paths that are in order, with none of them twice. -/
def InOrder (ps : List Path) : Prop := ps.Pairwise (·.key < ·.key)

theorem InOrder.insert {ps : List Path} (h : InOrder ps) (p : Path) : InOrder (insert p ps) := by
  induction ps with
  | nil => exact List.pairwise_singleton ..
  | cons q rest ih =>
    obtain ⟨first, ordered⟩ := List.pairwise_cons.mp h
    rw [Scan.insert]
    split
    · exact h
    rename_i other
    rw [Path.same_iff_key] at other
    split
    · rename_i le
      have before : p.key < q.key := lt_of_le_of_ne (Path.le_iff.mp le) other
      refine List.pairwise_cons.mpr ⟨?_, h⟩
      exact List.forall_mem_cons.mpr ⟨before, fun r hr => before.trans (first r hr)⟩
    · rename_i le
      refine List.pairwise_cons.mpr ⟨fun r hr => ?_, ih ordered⟩
      rcases mem_insert hr with rfl | hr
      · exact not_le.mp fun h => le (Path.le_iff.mpr h)
      · exact first r hr

theorem inOrder_sorted (ps : List Path) : InOrder (sorted ps) := by
  induction ps with
  | nil => exact List.Pairwise.nil
  | cons p rest ih => exact ih.insert p

/-- Paths in order are known from which paths they are. -/
theorem InOrder.eq_of_mem_iff {ps qs : List Path} (hp : InOrder ps) (hq : InOrder qs)
    (same : ∀ p, p ∈ ps ↔ p ∈ qs) : ps = qs := by
  have : Std.Antisymm fun p q : Path => p.key < q.key :=
    ⟨fun p q hpq hqp => absurd (hpq.trans hqp) (lt_irrefl _)⟩
  have : Std.Irrefl fun p q : Path => p.key < q.key := ⟨fun p => lt_irrefl p.key⟩
  exact List.Pairwise.eq_of_mem_iff hp hq same

end Scan

/-! ## Style sheets below a directory -/

namespace Disk

/-- Some names that lead from a directory down to a file with the extension of style sheets. -/
def SheetBelow (d : Disk) (directory : Path) (names : Location) : Prop :=
  ∃ here content, d.locate directory = .ok here ∧ d.kind? (here ++ names) = some (.file content) ∧
    (directory.below names).extension? = some ("less" : Text)

/-- All such names. -/
def sheetsBelow (d : Disk) (directory : Path) : List Location :=
  match d.entry directory with
  | .ok e => e.files.filter fun names => (directory.below names).isStyleSheet
  | .error _ => []

variable {d : Disk} {directory : Path} {names : Location}

theorem mem_sheetsBelow_iff (listed : d.root.Listed) :
    names ∈ d.sheetsBelow directory ↔ d.SheetBelow directory names := by
  have sheet : (directory.below names).isStyleSheet = true ↔
      (directory.below names).extension? = some ("less" : Text) := by
    rw [Path.isStyleSheet, beq_iff_eq]
  rw [sheetsBelow, SheetBelow]
  cases hentry : d.entry directory with
  | error e =>
    refine iff_of_false List.not_mem_nil ?_
    rintro ⟨here, content, located, kind, -⟩
    obtain ⟨inner, there⟩ : ∃ inner, d.root.at? here = some inner := by
      cases hat : d.root.at? here with
      | none => simp [kind?, Entry.kind?, Entry.at?_append, hat] at kind
      | some inner => exact ⟨inner, rfl⟩
    rw [entry_eq_ok.mpr ⟨here, located, there⟩] at hentry
    cases hentry
  | ok e =>
    obtain ⟨here, located, there⟩ := entry_eq_ok.mp hentry
    have kinds : d.kind? (here ++ names) = e.kind? names := by
      rw [kind?, Entry.kind?, Entry.kind?, Entry.at?_append, there, Option.bind_some]
    rw [List.mem_filter, Entry.mem_files_iff (listed.at? there).2, sheet, ← kinds]
    constructor
    · rintro ⟨⟨content, kind⟩, extension⟩
      exact ⟨here, content, located, kind, extension⟩
    · rintro ⟨place, content, located', kind, extension⟩
      cases located.symm.trans located'
      exact ⟨⟨content, kind⟩, extension⟩

theorem sheetsBelow_nodup (listed : d.root.Listed) : (d.sheetsBelow directory).Nodup := by
  rw [sheetsBelow]
  cases hentry : d.entry directory with
  | error e => exact List.nodup_nil
  | ok e =>
    obtain ⟨here, located, there⟩ := entry_eq_ok.mp hentry
    exact (Entry.files_nodup (listed.at? there).2).filter _

theorem candidates_directory (there : d.isDirectory directory = true) :
    Scan.candidates d (.directory directory) =
      .ok ((d.sheetsBelow directory).map directory.below) := by
  rw [isDirectory] at there
  split at there
  · rename_i entries hentry
    have sheets (found : List Found) : Scan.styleSheets found =
        ((found.filter (! ·.entry.isDirectory)).map (·.path)).filter (·.isStyleSheet) := by
      rw [Scan.styleSheets, List.filter_map, List.filter_filter]
      simp [Bool.and_comm]
    simp only [Scan.candidates, sheetsBelow, hentry]
    rw [sheets, Entry.files_of_walk, List.filter_map]
    rfl
  · cases there

/-- A style sheet below a directory has a path with the names for its last steps. -/
theorem SheetBelow.steps (listed : d.root.Listed) (h : d.SheetBelow directory names) :
    (directory.below names).isStyleSheet = true ∧
      (directory.below names).absolute = directory.absolute ∧
        (directory.below names).steps = directory.steps ++ names := by
  obtain ⟨here, content, _, kind, extension⟩ := h
  obtain ⟨e, there, _⟩ := at?_of_kind? kind
  have entryNames (n : Text) (hn : n ∈ names) : Path.IsEntryName n :=
    ((listed.at? there).1 n (List.mem_append_right here hn)).entryName
  exact ⟨beq_iff_eq.mpr extension, Path.extends_child.foldl entryNames directory⟩

/-! ## Other listings -/

/-- The same disk, with the entries of its directories listed in any order. -/
structure Relisted (d d' : Disk) : Prop where
  listed : d'.root.Listed
  working : d'.working = d.working
  kinds : ∀ here, d'.kind? here = d.kind? here

namespace Relisted

variable {d' : Disk} (h : d.Relisted d')

include h

theorem locate_eq (p : Path) : d'.locate p = d.locate p := by
  have differs : DiffersAt (fun _ => False) d d' :=
    ⟨h.working, fun here => by rw [h.kinds], fun here _ => h.kinds here⟩
  exact differs.locate_eq (fun here => by rw [h.kinds]) p

theorem isDirectory (there : d.isDirectory directory = true) : d'.isDirectory directory = true := by
  obtain ⟨here, located, kind⟩ := isDirectory_iff.mp there
  exact isDirectory_iff.mpr ⟨here, by rw [h.locate_eq, located], by rw [h.kinds, kind]⟩

theorem sheetBelow_iff : d'.SheetBelow directory names ↔ d.SheetBelow directory names := by
  simp only [SheetBelow, h.locate_eq, h.kinds]

end Relisted

end Disk

/-! ## Scans of directories -/

namespace Scan

open StyleTypings.Disk (SheetBelow)

variable {d : Disk} {directory : Path}

/-- A scan of a directory goes through the style sheets below it. -/
theorem run_directory_eq (there : d.isDirectory directory = true) (ignores : IgnoreList) :
    let paths := (d.sheetsBelow directory).map directory.below
    (run d (.directory directory) ignores).files =
        sorted ((paths.filter (! ignores.ignores ·)).map Path.normalize) ∧
      (run d (.directory directory) ignores).ignored = (paths.filter (ignores.ignores ·)).length ∧
      (run d (.directory directory) ignores).skipped = 0 := by
  rw [run, Disk.candidates_directory there]
  simp only [List.partition_eq_filter_filter, and_self, and_true]
  rfl

theorem mem_run_directory_iff (listed : d.root.Listed) (there : d.isDirectory directory = true)
    {ignores : IgnoreList} {p : Path} :
    p ∈ (run d (.directory directory) ignores).files ↔
      ∃ names, d.SheetBelow directory names ∧ ignores.ignores (directory.below names) = false ∧
        (directory.below names).normalize = p := by
  rw [(run_directory_eq there ignores).1, mem_sorted_iff]
  · simp [List.mem_filter, Disk.mem_sheetsBelow_iff listed, and_assoc]
  · intro p hp
    simp only [List.mem_map, List.mem_filter, Disk.mem_sheetsBelow_iff listed] at hp
    obtain ⟨_, ⟨⟨names, below, rfl⟩, _⟩, rfl⟩ := hp
    exact Path.isPlain_normalize (Path.steps_ne_nil_of_isStyleSheet (below.steps listed).1)

theorem ignored_run_directory (listed : d.root.Listed) (there : d.isDirectory directory = true)
    (ignores : IgnoreList) :
    ((run d (.directory directory) ignores).ignored : ℕ∞) =
      {names | d.SheetBelow directory names ∧
        ignores.ignores (directory.below names) = true}.encard := by
  -- A walk meets every file once, so those left out are as many as the names that lead to them.
  let out := (d.sheetsBelow directory).filter fun names => ignores.ignores (directory.below names)
  have members : {names | d.SheetBelow directory names ∧
      ignores.ignores (directory.below names) = true} = (out.toFinset : Set Location) := by
    ext names
    simp [out, Disk.mem_sheetsBelow_iff listed]
  have count : (run d (.directory directory) ignores).ignored = out.length := by
    rw [(run_directory_eq there ignores).2.1, List.filter_map, List.length_map]
    rfl
  rw [members, Set.encard_coe_eq_coe_finsetCard,
    List.toFinset_card_of_nodup ((Disk.sheetsBelow_nodup listed).filter _), count]

/-- A path in plain form is ignored as the path itself is. -/
theorem ignores_normalize (ignores : IgnoreList) (p : Path) :
    ignores.ignores p.normalize = ignores.ignores p := by
  rw [IgnoreList.ignores, IgnoreList.ignores, Path.normalize_normalize]

/-- The pattern of a directory selects the style sheets below it. -/
theorem selects_of_sheetBelow (listed : d.root.Listed) {names : Location}
    (h : d.SheetBelow directory names) :
    (SourcePattern.directory directory).selects (directory.below names).normalize = true := by
  obtain ⟨sheet, absolute, steps⟩ := h.steps listed
  have begins : (directory.below names).normalize.startsWith directory.normalize = true := by
    rw [Path.startsWith, List.isPrefixOf_iff_prefix, Path.parts_normalize, Path.parts_normalize,
      absolute, steps, List.map_append, ← List.append_assoc]
    exact List.prefix_append ..
  simp [SourcePattern.selects, Path.normalize_normalize, Path.isStyleSheet_normalize sheet, begins]

/-- A scan of a directory selects the style sheets below it, in plain form and in order, but
for those that are to be left out, which it counts.  How the directories on the disk list their
entries makes no difference. -/
theorem run_directory (listed : d.root.Listed) (there : d.isDirectory directory = true)
    (ignores : IgnoreList) :
    (∀ p, p ∈ (run d (.directory directory) ignores).files ↔
        ∃ names, d.SheetBelow directory names ∧ ignores.ignores (directory.below names) = false ∧
          (directory.below names).normalize = p) ∧
      InOrder (run d (.directory directory) ignores).files ∧
      ((run d (.directory directory) ignores).ignored : ℕ∞) =
        {names | d.SheetBelow directory names ∧
          ignores.ignores (directory.below names) = true}.encard ∧
      (∀ p ∈ (run d (.directory directory) ignores).files,
        ignores.ignores p = false ∧ (SourcePattern.directory directory).selects p = true) ∧
      (run d (.directory directory) ignores).skipped = 0 ∧
      ∀ d', d.Relisted d' →
        (run d' (.directory directory) ignores).files =
            (run d (.directory directory) ignores).files ∧
          (run d' (.directory directory) ignores).ignored =
            (run d (.directory directory) ignores).ignored ∧
          (run d' (.directory directory) ignores).skipped = 0 := by
  have files := @mem_run_directory_iff d directory listed there ignores
  have order (d : Disk) (there : d.isDirectory directory = true) :
      InOrder (run d (.directory directory) ignores).files := by
    rw [(run_directory_eq there ignores).1]
    exact inOrder_sorted _
  refine ⟨@files, order d there, ignored_run_directory listed there ignores, fun p hp => ?_,
    (run_directory_eq there ignores).2.2, fun d' relisted => ?_⟩
  · obtain ⟨names, below, kept, rfl⟩ := files.mp hp
    exact ⟨by rw [ignores_normalize, kept], selects_of_sheetBelow listed below⟩
  · have there' := relisted.isDirectory there
    refine ⟨(order d' there').eq_of_mem_iff (order d there) fun p => ?_, ?_,
      (run_directory_eq there' ignores).2.2⟩
    -- Both lists are in order, so it is enough that the same paths are in them.
    · simp only [mem_run_directory_iff relisted.listed there', files, relisted.sheetBelow_iff]
    · have count := ignored_run_directory relisted.listed there' ignores
      simp only [relisted.sheetBelow_iff] at count
      rw [← ignored_run_directory listed there ignores] at count
      exact_mod_cast count

/-! ### An example -/

/-- Style sheets in two directories, of which one is that of a vendor. -/
def sheetEntries : List (Text × Entry) :=
  [("lib", .directory [("b.css", .file (.bytes [])), ("b.less", .file (.text ".b \x7b\x7d"))]),
    ("vendor", .directory [("c.less", .file (.text ".c \x7b\x7d"))])]

theorem proper_sheetEntries : Entry.Proper (.directory sheetEntries) := by
  refine .directory (by decide) (by decide) ?_
  refine List.forall_mem_cons.mpr ⟨.directory (by decide) (by decide) ?_, ?_⟩
  · exact List.forall_mem_cons.mpr ⟨.file _, List.forall_mem_singleton.mpr (.file _)⟩
  · refine List.forall_mem_singleton.mpr (.directory (by decide) (by decide) ?_)
    exact List.forall_mem_singleton.mpr (.file _)

theorem relisted_sheetEntries : Disk.Relisted ⟨.directory sheetEntries, []⟩
    ⟨.directory sheetEntries.reverse, []⟩ where
  listed := by
    cases proper_sheetEntries.listed with
    | directory distinct names below =>
      refine .directory ?_ ?_ ?_
      · rwa [List.map_reverse, List.nodup_reverse]
      · simpa only [List.mem_reverse] using names
      · simpa only [List.mem_reverse] using below
  working := rfl
  kinds := by
    cases proper_sheetEntries.listed with
    | directory distinct names below =>
      exact Entry.kind?_of_perm distinct sheetEntries.reverse_perm.symm

/-- The working directory can be spelled with a slash. -/
theorem run_directory_sheetEntries :
    let ignores := IgnoreList.ofTexts ["vendor/**"]
    let here : SourcePattern := .directory "./"
    let disk : Disk := ⟨.directory sheetEntries, []⟩
    disk.isDirectory "./" = true ∧
      Path.ofText ("lib/b.less" : Text) ∈ (run disk here ignores).files ∧
      (run disk here ignores).ignored = 1 ∧
      (run ⟨.directory sheetEntries.reverse, []⟩ here ignores).files =
        (run disk here ignores).files := by
  intro ignores here disk
  have there : disk.isDirectory "./" = true := by decide
  obtain ⟨files, _, _, _, _, same⟩ := run_directory proper_sheetEntries.listed there ignores
  refine ⟨there, (files _).mpr ⟨["lib", "b.less"], ?_, by decide, by decide⟩, by decide, ?_⟩
  · exact ⟨[], .text ".b \x7b\x7d", rfl, rfl, by decide⟩
  · exact (same _ relisted_sheetEntries).1

end Scan

end StyleTypings
