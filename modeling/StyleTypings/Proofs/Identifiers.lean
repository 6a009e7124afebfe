/-
Identifiers — which identifiers the declarations for a style sheet declare.

A class of a style sheet is declared at most once, since it counts where it first
appears.  Its identifier depends on the class alone, and two classes may have the
same one.  So no identifier is declared twice exactly when the name format keeps apart
all classes that are declared (`identifiers_nodup_iff`), as the format that changes
nothing does (`identifiers_nodup_none`).
-/
import StyleTypings.Typings.Render
import Mathlib.Data.List.Nodup

namespace StyleTypings

/-! ## First appearances -/

theorem mem_firstSeen {t : Text} (seen l : List Text) :
    t ∈ firstSeen seen l ↔ t ∈ l ∧ t ∉ seen := by
  induction l generalizing seen with
  | nil => simp [firstSeen]
  | cons u rest ih =>
    rw [firstSeen]
    by_cases hu : u ∈ seen
    · rw [if_pos (by simpa using hu), ih]
      constructor
      · rintro ⟨hrest, hseen⟩
        exact ⟨.tail u hrest, hseen⟩
      · rintro ⟨_ | hrest, hseen⟩
        · exact absurd hu hseen
        · exact ⟨‹_›, hseen⟩
    · rw [if_neg (by simpa using hu), List.mem_cons, ih, List.mem_cons, List.mem_cons]
      by_cases htu : t = u
      · simp [htu, hu]
      · simp [htu]

/-- Every text is kept once. -/
theorem firstSeen_nodup (seen l : List Text) : (firstSeen seen l).Nodup := by
  induction l generalizing seen with
  | nil => exact List.nodup_nil
  | cons u rest ih =>
    rw [firstSeen]
    split
    · exact ih seen
    · refine List.nodup_cons.mpr ⟨?_, ih (u :: seen)⟩
      rw [mem_firstSeen]
      exact fun h => h.2 List.mem_cons_self

/-! ## Classes -/

/-- The classes that the selectors of a style sheet mention. -/
def Less.Stylesheet.classes (s : Less.Stylesheet) : List Text :=
  s.selectors.flatMap Classes.ofSelector

theorem mem_classNames {f : NameFormat} {s : Less.Stylesheet} {c : ClassName} :
    c ∈ classNames f s ↔ c.name ∈ s.classes ∧ c.identifier = f.apply c.name := by
  rw [classNames, List.mem_map]
  constructor
  · rintro ⟨t, ht, rfl⟩
    exact ⟨((mem_firstSeen [] _).mp ht).1, rfl⟩
  · rintro ⟨hname, hidentifier⟩
    refine ⟨c.name, (mem_firstSeen [] _).mpr ⟨hname, List.not_mem_nil⟩, ?_⟩
    rw [← hidentifier]

/-- A class of a style sheet is known by its name. -/
theorem eq_of_name_eq {f : NameFormat} {s : Less.Stylesheet} {c d : ClassName}
    (hc : c ∈ classNames f s) (hd : d ∈ classNames f s) (h : c.name = d.name) : c = d := by
  obtain ⟨_, hci⟩ := mem_classNames.mp hc
  obtain ⟨_, hdi⟩ := mem_classNames.mp hd
  cases c
  cases d
  simp_all

/-- No class is listed twice. -/
theorem classNames_nodup (f : NameFormat) (s : Less.Stylesheet) : (classNames f s).Nodup := by
  refine List.Nodup.map ?_ (firstSeen_nodup [] _)
  intro t u h
  exact congrArg ClassName.name h

/-! ## Declarations -/

namespace Typings

/-- The identifiers that declarations declare, in order: the names of the constants, or
the keys of the interface. -/
def identifiers (e : ExportType) (cs : List ClassName) : List Text :=
  (declared e cs).map (·.identifier)

/-- Whether declarations of a shape can declare an identifier. -/
def Declarable (e : ExportType) (identifier : Text) : Prop :=
  e = .default ∨ Identifier.refusal? identifier = none

theorem mem_declared {e : ExportType} {cs : List ClassName} {c : ClassName} :
    c ∈ declared e cs ↔ c ∈ cs ∧ Declarable e c.identifier := by
  cases e <;> simp [declared, Declarable, isBindable]

theorem declared_sublist (e : ExportType) (cs : List ClassName) : (declared e cs).Sublist cs := by
  cases e with
  | default => exact List.Sublist.refl cs
  | named => exact List.filter_sublist
  | values => exact List.filter_sublist

theorem declared_nodup (e : ExportType) (f : NameFormat) (s : Less.Stylesheet) :
    (declared e (classNames f s)).Nodup :=
  (classNames_nodup f s).sublist (declared_sublist e _)

/-- No identifier is declared twice exactly when no two classes of the style sheet get
one and the same identifier that is declared. -/
theorem identifiers_nodup_iff (e : ExportType) (f : NameFormat) (s : Less.Stylesheet) :
    (identifiers e (classNames f s)).Nodup ↔
      ∀ a ∈ s.classes, ∀ b ∈ s.classes, f.apply a = f.apply b → Declarable e (f.apply a) → a = b := by
  rw [identifiers, List.nodup_map_iff_inj_on (declared_nodup e f s)]
  constructor
  · intro inj a ha b hb hab hdecl
    have ma : (⟨f.apply a, a⟩ : ClassName) ∈ declared e (classNames f s) :=
      mem_declared.mpr ⟨mem_classNames.mpr ⟨ha, rfl⟩, hdecl⟩
    have mb : (⟨f.apply b, b⟩ : ClassName) ∈ declared e (classNames f s) :=
      mem_declared.mpr ⟨mem_classNames.mpr ⟨hb, rfl⟩, hab ▸ hdecl⟩
    exact congrArg ClassName.name (inj _ ma _ mb hab)
  · intro apart c hc d hd hcd
    obtain ⟨mc, hdecl⟩ := mem_declared.mp hc
    obtain ⟨md, _⟩ := mem_declared.mp hd
    obtain ⟨hcn, hci⟩ := mem_classNames.mp mc
    obtain ⟨hdn, hdi⟩ := mem_classNames.mp md
    have hname : c.name = d.name :=
      apart _ hcn _ hdn (by rw [← hci, ← hdi, hcd]) (hci ▸ hdecl)
    exact eq_of_name_eq mc md hname

/-- The format that changes nothing merges no classes. -/
theorem identifiers_nodup_none (e : ExportType) (s : Less.Stylesheet) :
    (identifiers e (classNames .none s)).Nodup := by
  refine (List.nodup_map_iff_inj_on (declared_nodup e .none s)).mpr fun c hc d hd hcd => ?_
  obtain ⟨mc, _⟩ := mem_declared.mp hc
  obtain ⟨md, _⟩ := mem_declared.mp hd
  obtain ⟨_, hci⟩ := mem_classNames.mp mc
  obtain ⟨_, hdi⟩ := mem_classNames.mp md
  have hname : c.name = d.name := hci.symm.trans (hcd.trans hdi)
  exact eq_of_name_eq mc md hname

/-- Camel case merges `a-b` and `aB`. -/
theorem not_forall_identifiers_nodup :
    ¬ ∀ (e : ExportType) (f : NameFormat) (s : Less.Stylesheet),
      (identifiers e (classNames f s)).Nodup := by
  intro h
  have twice : identifiers .named (classNames .camel [⟨[".a-b"]⟩, ⟨[".aB"]⟩]) = ["aB", "aB"] := by
    decide +kernel
  have := h .named .camel [⟨[".a-b"]⟩, ⟨[".aB"]⟩]
  rw [twice] at this
  simp at this

end Typings

end StyleTypings
