/-
Constants — which names the declarations for a style sheet give to constants.

A class whose identifier is refused has no constant but a warning, and every other class
has a constant (`constants_iff`, second part).  Only reserved words and names with a
hyphen are refused, so the names of the constants are identifiers exactly when no other
class of the style sheet is spelled, in what the format keeps of it, as identifiers are
not (first part).
-/
import StyleTypings.Proofs.Identifiers
import StyleTypings.Proofs.NameFormats

namespace StyleTypings

open Identifier

/-! ## Refusals -/

/-- An identifier that is not refused is no reserved word and has no hyphen. -/
theorem Identifier.refusal?_eq_none {name : Text} :
    refusal? name = none ↔ isReserved name = false ∧ '-' ∉ name := by
  unfold refusal?
  cases isReserved name with
  | true => simp
  | false => by_cases h : '-' ∈ name <;> simp [h]

namespace Typings

/-! ## Warnings -/

/-- The warnings are about the classes that are not declared, and about all of them. -/
theorem mem_warnings {e : ExportType} (he : e ≠ .default) (ending : LineEnding)
    {cs : List ClassName} {w : Text} :
    w ∈ (render e ending cs).warnings ↔
      ∃ c ∈ cs, ∃ r, refusal? c.identifier = some r ∧ r.warning c.identifier = w := by
  have hrender : (render e ending cs).warnings = cs.filterMap warning? := by
    cases cs with
    | nil => rfl
    | cons c cs =>
      cases e with
      | default => exact absurd rfl he
      | named => rfl
      | values => rfl
  rw [hrender, List.mem_filterMap]
  simp only [warning?, Option.map_eq_some_iff]

/-! ## Constants -/

theorem mem_identifiers {e : ExportType} (he : e ≠ .default) {f : NameFormat}
    {s : Less.Stylesheet} {x : Text} :
    x ∈ identifiers e (classNames f s) ↔ ∃ t ∈ s.classes, f.apply t = x ∧ refusal? x = none := by
  rw [identifiers, List.mem_map]
  constructor
  · rintro ⟨c, hc, rfl⟩
    obtain ⟨hmem, hdeclarable⟩ := mem_declared.mp hc
    obtain ⟨hname, hidentifier⟩ := mem_classNames.mp hmem
    exact ⟨c.name, hname, hidentifier.symm, hdeclarable.resolve_left he⟩
  · rintro ⟨t, ht, rfl, hrefusal⟩
    exact ⟨⟨f.apply t, t⟩, mem_declared.mpr ⟨mem_classNames.mpr ⟨ht, rfl⟩, .inr hrefusal⟩, rfl⟩

/-- All constants have names that are identifiers and no reserved words exactly when
every class that is not refused is spelled as an identifier in what the format keeps of
it; and every class without a constant has a warning. -/
theorem constants_iff (e : ExportType) (he : e ≠ .default) (ending : LineEnding) (f : NameFormat)
    (s : Less.Stylesheet) :
    ((∀ x ∈ identifiers e (classNames f s), IsName x ∧ isReserved x = false) ↔
      ∀ t ∈ s.classes, refusal? (f.apply t) = none → IsName (f.kept t)) ∧
    ∀ c ∈ classNames f s, c.identifier ∉ identifiers e (classNames f s) →
      ∃ r : Refusal, r.warning c.identifier ∈ (render e ending (classNames f s)).warnings := by
  refine ⟨⟨fun h t ht hrefusal => ?_, fun h x hx => ?_⟩, fun c hc hout => ?_⟩
  · have hname := (h _ ((mem_identifiers he).mpr ⟨t, ht, rfl, hrefusal⟩)).1
    exact (f.isName_apply_iff (refusal?_eq_none.mp hrefusal).2).mp hname
  · obtain ⟨t, ht, rfl, hrefusal⟩ := (mem_identifiers he).mp hx
    obtain ⟨hreserved, hhyphen⟩ := refusal?_eq_none.mp hrefusal
    exact ⟨(f.isName_apply_iff hhyphen).mpr (h t ht hrefusal), hreserved⟩
  · obtain ⟨hname, hidentifier⟩ := mem_classNames.mp hc
    cases hrefusal : refusal? c.identifier with
    | none =>
      have hin := (mem_identifiers he).mpr ⟨c.name, hname, hidentifier.symm, hrefusal⟩
      exact absurd hin hout
    | some r => exact ⟨r, (mem_warnings he ending).mpr ⟨c, hc, r, hrefusal, rfl⟩⟩

/-- In camel case a class with a hyphen has a constant with a proper name. -/
theorem constants_card :
    ExportType.named ≠ .default ∧
      ∀ x ∈ identifiers .named (classNames .camel [⟨[".card-x"]⟩]),
        IsName x ∧ isReserved x = false := by
  refine ⟨by decide, (constants_iff .named (by decide) .lf .camel [⟨[".card-x"]⟩]).1.mpr ?_⟩
  have hclasses : Less.Stylesheet.classes [⟨[".card-x"]⟩] = [("card-x" : Text)] := by
    decide +kernel
  intro t ht _
  rw [hclasses, List.mem_singleton] at ht
  subst ht
  have hkept : NameFormat.kept .camel "card-x" = ("cardx" : Text) := by decide +kernel
  rw [hkept]
  exact .intro (by decide +kernel) (List.all_eq_true.mp (by decide +kernel))

/-- A colon is refused by nothing: `.sm\:flex` has the constant `sm:flex`. -/
theorem not_forall_constants :
    ¬ ∀ (e : ExportType) (f : NameFormat) (s : Less.Stylesheet), e ≠ .default →
      ∀ x ∈ identifiers e (classNames f s), IsName x ∧ isReserved x = false := by
  intro h
  have constant : identifiers .named (classNames .none [⟨[".sm\\:flex"]⟩]) =
      [("sm:flex" : Text)] := by decide +kernel
  have := h .named .none [⟨[".sm\\:flex"]⟩] (by decide)
  rw [constant] at this
  obtain ⟨_, parts⟩ := (this "sm:flex" List.mem_cons_self).1
  exact absurd (parts ':' (by decide)) (by decide)

end Typings

end StyleTypings
