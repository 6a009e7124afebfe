/-
Class-like names — a point with a name behind it, as a selector and as the name of a mixin.

A block with such a prelude is both.  As a selector it passes every reader of selectors as
it is: nothing in it is a guard, an interpolation, an extension, a separator or a blank.
So the block makes a rule set of just this selector (`ClassLike.blockTask`), and declares
just this name (`ClassLike.bindings`).
-/
import StyleTypings.Less.Evaluation
import StyleTypings.Proofs.Naming
import StyleTypings.Proofs.Preludes

namespace StyleTypings.Less

open Css

/-- How a plain rule set is declared whose prelude is a name. -/
def Signature.ofName (name : Text) : Signature := ⟨name, [], false, false, none⟩

/-! ## Characters of names -/

theorem isNamePart_of_isNameChar {c : Char} (h : isNameChar c = true) : isNamePart c = true := by
  by_cases ascii : c.toNat < 128
  · exact forall_ascii (P := fun c => isNameChar c = true → isNamePart c = true)
      (by decide +kernel) ascii h
  · simp [isNamePart, isNameStart, Nat.le_of_not_lt ascii]

/-! ## Names -/

/-- A point with at least one character of a name behind it. -/
inductive ClassLike : Text → Prop where
  | point {t : Text} (ne : t ≠ []) (chars : ∀ c ∈ t, isNameChar c = true) : ClassLike ('.' :: t)

namespace ClassLike

variable {name : Text}

/-- The name is read up to where something else stands. -/
theorem takeMixinName?_append (h : ClassLike name) {after : Text}
    (stop : ∀ c ∈ after.head?, isNameChar c = false) :
    takeMixinName? (name ++ after) = some (name, after) := by
  obtain ⟨ne, chars⟩ := h
  rw [List.cons_append, takeMixinName?, takeName?_append ne chars stop]
  rfl

theorem read? (h : ClassLike name) : Signature.read? name = some (.ofName name) := by
  have whole : takeMixinName? (name ++ []) = some (name, []) := h.takeMixinName?_append nofun
  rw [List.append_nil] at whole
  rw [Signature.read?, whole]
  rfl

theorem detachedName? (h : ClassLike name) : detachedName? name = none := by
  cases h
  rfl

theorem names (h : ClassLike name) : Signature.names name = [name] := by
  rw [Signature.names, h.read?]
  rfl

theorem bindings {ι : Type} (h : ClassLike name) (tag : ι) (body : List (Node ι)) :
    (Node.block tag name body).bindings = [.mixin name ⟨tag, name, body⟩] := by
  rw [Node.bindings, h.detachedName?, h.names]
  rfl

theorem solid (h : ClassLike name) : ∀ c ∈ name, isBlank c = false := by
  obtain ⟨ne, chars⟩ := h
  rintro c (_ | ⟨_, hc⟩)
  · rfl
  · exact isBlank_of_isNameChar (chars c hc)

/-- A block at the top of a style sheet makes a rule set of the name. -/
theorem blockTask {ι : Type} (h : ClassLike name) (s : Scope ι) (nodes : List (Node ι)) :
    s.blockTask [] name nodes = .ok (.ruleset [name] nodes) := by
  have tidy : Text.Tidy name := .word (by cases h; exact List.cons_ne_nil _ _) h.solid
  have unguarded : Selector.splitGuard name = (name, none) :=
    splitGuard_of_unguarded (by simpa [Selector.breakGuard] using breakGuard_append h.solid [])
  have unparametric : Signature.isParametric name = false := by rw [Signature.isParametric, h.read?]; rfl
  obtain @⟨t, ne, chars⟩ := h
  have inert : Inert t := by
    clear ne tidy unguarded unparametric
    induction t with
    | nil => exact .nil
    | cons c t ih =>
      exact .plain (.inl (isNamePart_of_isNameChar (chars c List.mem_cons_self)))
        (ih fun d hd => chars d (List.mem_cons_of_mem c hd))
  have unextended : Selector.withoutExtends ('.' :: t) = '.' :: t :=
    withoutExtends_eq (breakOn?_extend_cons (by decide) (breakOn?_inert inert))
  have noParents : ('.' :: t).filter (· != '&') = '.' :: t := by
    refine List.filter_eq_self.mpr ?_
    rintro c (_ | ⟨_, hc⟩)
    · rfl
    · rw [bne_iff_ne]
      rintro rfl
      exact absurd (chars _ hc) (by decide +kernel)
  have joined : Selector.join [] ('.' :: t) = ['.' :: t] := by
    rw [join_of_tidy inert tidy, noParents, tidy.collapse_eq]
  have asks : s.blockTask [] ('.' :: t) nodes = s.selectorBlockTask [] ('.' :: t) nodes := by
    simp [Scope.blockTask, unparametric]
  rw [asks, Scope.selectorBlockTask, unguarded]
  simp only [Scope.guardHolds, interpolate_inert s inert]
  show Except.ok (Task.ruleset (Selector.join [] (Selector.withoutExtends ('.' :: t))) nodes) = _
  rw [unextended, joined]

end ClassLike

end StyleTypings.Less
