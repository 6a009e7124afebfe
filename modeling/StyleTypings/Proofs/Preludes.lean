/-
Preludes — a point with a name that is spelled, as what stands before a brace.

Such a prelude has no guard, no parameters, no interpolations and no extensions, so
its block asks for a rule set with the one selector that the prelude is, less its
ampersands (`blockTask_of_spells`).
-/
import StyleTypings.Less.Evaluation
import StyleTypings.Proofs.Inert
import StyleTypings.Proofs.Naming
import Mathlib.Data.List.TakeWhile

namespace StyleTypings.Less

open Css

variable {t n : Text}

/-! ## Guards -/

theorem afterWhen?_of_not_isBlank {c : Char} (h : isBlank c = false) (t : Text) :
    Selector.afterWhen? (c :: t) = none := by
  unfold Selector.afterWhen?
  split
  · rename_i heq
    obtain ⟨rfl, _⟩ := List.cons.inj heq
    rw [h]
    rfl
  · rfl

/-- A guard does not begin between a code and what it ends before. -/
theorem afterWhen?_of_spells (spells : Spells t n) (blank : ∀ c ∈ n, isBlank c = false) :
    Selector.afterWhen? (' ' :: t) = none := by
  unfold Selector.afterWhen?
  split
  case h_1 d rest heq =>
    obtain ⟨rfl, rfl⟩ := List.cons.inj heq
    obtain ⟨_, _, rfl, w⟩ := spells.of_ne_backslash (by decide)
    obtain ⟨_, _, rfl, wh⟩ := w.of_ne_backslash (by decide)
    obtain ⟨_, _, rfl, whe⟩ := wh.of_ne_backslash (by decide)
    obtain ⟨_, _, rfl, when⟩ := whe.of_ne_backslash (by decide)
    by_cases hd : d = '\\'
    · rw [hd]
      rfl
    · obtain ⟨part, _, rfl, _⟩ := when.of_ne_backslash hd
      have opening : d ≠ '(' := by
        rintro rfl
        exact absurd part (by decide)
      simp [blank d (by simp), opening]
  case h_2 => rfl

theorem breakGuard_cons {c : Char} {t : Text} (h : Selector.afterWhen? (c :: t) = none) :
    (Selector.breakGuard (c :: t)).2 = (Selector.breakGuard t).2 := by
  rw [Selector.breakGuard, h]

/-- A guard does not begin at characters that are not blank. -/
theorem breakGuard_append {w : Text} (hw : ∀ c ∈ w, isBlank c = false) (t : Text) :
    (Selector.breakGuard (w ++ t)).2 = (Selector.breakGuard t).2 := by
  induction w with
  | nil => rfl
  | cons c w ih =>
    rw [List.cons_append, breakGuard_cons (afterWhen?_of_not_isBlank (hw c List.mem_cons_self) _)]
    exact ih fun d hd => hw d (List.mem_cons_of_mem c hd)

theorem breakGuard_of_spells (spells : Spells t n) (blank : ∀ c ∈ n, isBlank c = false) :
    (Selector.breakGuard t).2 = none := by
  have digits : ∀ {c : Char}, isCoded c = true → ∀ d ∈ '\\' :: codeDigits c, isBlank d = false := by
    rintro c code d (_ | ⟨_, hd⟩)
    · rfl
    · exact isBlank_of_isHexDigit ((codeFacts code).digits d hd)
  induction spells with
  | nil => rfl
  | @plain c t n part real rest ih =>
    have hc := afterWhen?_of_not_isBlank (blank c List.mem_cons_self) t
    rw [breakGuard_cons hc, ih fun d hd => blank d (List.mem_cons_of_mem c hd)]
  | @escaped c t n real code line rest ih =>
    have hc := afterWhen?_of_not_isBlank (blank c List.mem_cons_self) t
    rw [breakGuard_cons (afterWhen?_of_not_isBlank rfl _), breakGuard_cons hc,
      ih fun d hd => blank d (List.mem_cons_of_mem c hd)]
  | @coded c t n code ne rest ih =>
    have later : ∀ d ∈ n, isBlank d = false := fun d hd => blank d (List.mem_cons_of_mem c hd)
    rw [breakGuard_append (digits code), breakGuard_cons (afterWhen?_of_spells rest later),
      ih later]
  | @last c code => simpa [Selector.breakGuard] using breakGuard_append (digits code) []

/-- A prelude without a guard is cut nowhere. -/
theorem splitGuard_of_unguarded {prelude : Text} (h : (Selector.breakGuard prelude).2 = none) :
    Selector.splitGuard prelude = (prelude, none) := by
  unfold Selector.splitGuard
  split
  · rename_i heq
    rw [heq] at h
    cases h
  · rfl

theorem splitGuard_of_spells (spells : Spells t n) (blank : ∀ c ∈ n, isBlank c = false) :
    Selector.splitGuard ('.' :: t) = ('.' :: t, none) := by
  refine splitGuard_of_unguarded ?_
  rw [breakGuard_cons (afterWhen?_of_not_isBlank rfl t), breakGuard_of_spells spells blank]

/-! ## Signatures -/

/-- No parenthesis follows the plain characters at the beginning of an inert text. -/
theorem Inert.not_opening (h : Inert t) (inside : Text) :
    Text.trimLeft (t.dropWhile isNameChar) ≠ '(' :: inside := by
  intro opening
  let word := t.takeWhile isNameChar ++ (t.dropWhile isNameChar).takeWhile isBlank
  have word_ne : ∀ c, isNameChar c = false → isBlank c = false → c ∉ word := by
    intro c hname hblank hc
    obtain hc | hc := List.mem_append.mp hc
    · exact absurd (List.mem_takeWhile_imp hc) (by simp [hname])
    · exact absurd (List.mem_takeWhile_imp hc) (by simp [hblank])
  have whole : t ++ [] = word ++ '(' :: inside := by
    rw [List.append_nil, ← opening, List.append_assoc, Text.trimLeft, List.takeWhile_append_dropWhile,
      List.takeWhile_append_dropWhile]
  refine h.ne_call (.inl rfl) ⟨?_, ?_⟩ whole
  · exact word_ne _ (by decide +kernel) (by decide)
  · exact word_ne _ (by decide +kernel) (by decide)

/-- There are no parameters where no parenthesis follows the name. -/
theorem isParametric_eq_false {prelude : Text} (h : ∀ name rest inside,
    takeMixinName? prelude = some (name, rest) → Text.trimLeft rest ≠ '(' :: inside) :
    Signature.isParametric prelude = false := by
  unfold Signature.isParametric Signature.read?
  cases hname : takeMixinName? prelude with
  | none => rfl
  | some parts =>
    simp only
    split
    · rename_i inside opening
      exact absurd opening (h parts.1 parts.2 inside hname)
    · rw [Signature.readPlain]
      cases Signature.readGuard (Text.trimLeft parts.2) <;> rfl

theorem isParametric_of_inert (h : Inert t) : Signature.isParametric ('.' :: t) = false := by
  refine isParametric_eq_false fun name rest inside hname => ?_
  obtain ⟨c, after, heq, rfl⟩ := takeMixinName?_eq_some hname
  obtain ⟨_, rfl⟩ := List.cons.inj heq
  exact h.not_opening inside

/-! ## Selectors -/

theorem withoutExtends_eq {t : Text} (h : Text.breakOn? ":extend(" t = none) :
    Selector.withoutExtends t = t := by
  unfold Selector.withoutExtends
  cases t.length with
  | zero => rfl
  | succ k => rw [Selector.dropExtends, Selector.dropExtend?, h, Option.map_none]

theorem splitTop_inert (h : Inert t) : splitTop ',' ('.' :: t) = ['.' :: t] := by
  have first : splitTop ',' ('.' :: t) = consFirst '.' (splitFrom ',' .none t) := rfl
  rw [first, splitFrom_inert h]
  rfl

theorem interpolate_inert {ι : Type} (s : Scope ι) (h : Inert t) :
    s.interpolate ('.' :: t) = .ok ('.' :: t) := by
  rw [Scope.interpolate, Scope.replaceNames_cons (.inl (by decide)), replaceNames_inert h]
  rfl

theorem tidy_of_spells (spells : Spells t n) (ne : n ≠ []) (blank : ∀ c ∈ n, isBlank c = false) :
    Text.Tidy ('.' :: t) :=
  (spells.tidy ne blank).append (List.forall_mem_singleton.mpr rfl)

theorem join_of_tidy (h : Inert t) (tidy : Text.Tidy ('.' :: t)) :
    Selector.join [] ('.' :: t) = [Text.collapse (('.' :: t).filter (· != '&'))] := by
  rw [Selector.join, splitTop_inert h, List.map_singleton, tidy.collapse_eq]
  rfl

/-- What a point with a spelled name asks for before a brace. -/
theorem blockTask_of_spells {ι : Type} (s : Scope ι) (nodes : List (Node ι)) (spells : Spells t n)
    (ne : n ≠ []) (blank : ∀ c ∈ n, isBlank c = false) :
    s.blockTask [] ('.' :: t) nodes =
      .ok (.ruleset [Text.collapse (('.' :: t).filter (· != '&'))] nodes) := by
  have inert : Inert t := inert_of_spells spells
  have tidy : Text.Tidy ('.' :: t) := tidy_of_spells spells ne blank
  have unextended : Selector.withoutExtends ('.' :: t) = '.' :: t :=
    withoutExtends_eq (breakOn?_extend_cons (by decide) (breakOn?_inert inert))
  have asks : s.blockTask [] ('.' :: t) nodes = s.selectorBlockTask [] ('.' :: t) nodes := by
    simp [Scope.blockTask, isParametric_of_inert inert]
  rw [asks, Scope.selectorBlockTask, splitGuard_of_spells spells blank]
  simp only [Scope.guardHolds, interpolate_inert s inert]
  show Except.ok (Task.ruleset (Selector.join [] (Selector.withoutExtends ('.' :: t))) nodes) = _
  rw [unextended, join_of_tidy inert tidy]

end StyleTypings.Less
