/-
Scoping — what a variable stands for in a body that a call expands.

The body of a mixin or detached rule set is evaluated below the scope of the call
(`Defines.scope_eq`).  So a variable that the body does not declare stands there for
what the caller declares, and for what the block declares in which the mixin is defined
only if that comes to the same (`interpolate_reference_iff`).  It does when nothing that
the variable leads to is declared between that block and the body
(`interpolate_eq_of_reaches`).
-/
import StyleTypings.Proofs.Evaluation.Ending
import StyleTypings.Proofs.Variables

namespace StyleTypings.Less

variable {ι : Type}

/-! ## Bodies that calls expand -/

/-- What the innermost block of a scope declares, with the values of its parameters. -/
def Scope.own (s : Scope ι) : Frame ι := s.headD []

/-- What the innermost block declares is what counts. -/
theorem Scope.rawValue?_of_own {s : Scope ι} {name value : Text}
    (h : Frame.rawValue? s.own name = some value) : s.rawValue? name = some value := by
  cases s with
  | nil => cases h
  | cons f outer =>
    have hf : Frame.rawValue? f name = some value := h
    rw [Scope.rawValue?, List.findSome?_cons, hf]

/-- The body of a mixin or detached rule set that nodes define, with what a call enters it
as. -/
inductive Defines (nodes : List (Node ι)) : Visit.Kind → List (Node ι) → Prop where
  | mixin {name : Text} {d : Definition ι} (h : d ∈ Frame.mixins (bindingsOf nodes) name) :
    Defines nodes .expansion d.body
  | detached {name : Text} {body : List (Node ι)}
      (h : Frame.detached? (bindingsOf nodes) name = some body) : Defines nodes .detached body

section

variable [DecidableEq ι]

/-- The scope of a task's body: nothing is put on that of an imported file, and one frame
on any other. -/
theorem Task.Enters.scope_eq {s : Scope ι} {context : List Text} {output : Bool} {t : Task ι}
    {p : Progress ι} {k : Visit.Kind} {v : Visit ι} (h : t.Enters s context output p k v) :
    (k = .imported ∧ v.scope = s) ∨ (k ≠ .imported ∧ v.scope = v.scope.own :: s) := by
  induction h with
  | ruleset => exact .inr ⟨nofun, rfl⟩
  | imported => exact .inl ⟨rfl, rfl⟩
  | detached => exact .inr ⟨nofun, rfl⟩
  | expansion => exact .inr ⟨nofun, rfl⟩
  | later _ _ ih => exact ih

theorem NodesEnter.scope_eq {s : Scope ι} {context : List Text} {output : Bool}
    {nodes : List (Node ι)} {p : Progress ι} {k : Visit.Kind} {v : Visit ι}
    (h : NodesEnter s context output nodes p k v) :
    (k = .imported ∧ v.scope = s) ∨ (k ≠ .imported ∧ v.scope = v.scope.own :: s) := by
  induction h with
  | here _ enters => exact enters.scope_eq
  | later _ _ ih => exact ih

/-- The body that a call expands is evaluated below the scope of the call. -/
theorem Defines.scope_eq {nodes : List (Node ι)} {k : Visit.Kind} {caller v : Visit ι}
    (defined : Defines nodes k v.nodes) (call : caller.Enters k v) :
    v.scope = v.scope.own :: caller.scope := by
  obtain ⟨rfl, _⟩ | ⟨_, h⟩ := NodesEnter.scope_eq call
  · cases defined
  · exact h

/-! ## What the body sees -/

section

variable {nodes : List (Node ι)} {k : Visit.Kind} {caller v : Visit ι} {name : Text}

/-- A variable that the body does not declare has the value that the caller gives it. -/
theorem rawValue?_of_call (defined : Defines nodes k v.nodes) (call : caller.Enters k v)
    (own : Frame.rawValue? v.scope.own name = none) :
    v.scope.rawValue? name = caller.scope.rawValue? name := by
  rw [defined.scope_eq call, ← List.singleton_append]
  exact Scope.rawValue?_append (List.forall_mem_singleton.mpr own)

/-- In a body that declares nothing that a variable leads to, the variable stands for
what it stands for where the call is. -/
theorem text_of_call (defined : Defines nodes k v.nodes) (call : caller.Enters k v)
    (own : ∀ other, caller.scope.LeadsTo name other → Frame.rawValue? v.scope.own other = none) :
    v.scope.text name = caller.scope.text name := by
  rw [defined.scope_eq call, ← List.singleton_append]
  exact Scope.textWithin_append _ fun other hother =>
    List.forall_mem_singleton.mpr (own other hother)

/-- A body that does not declare a variable sees the value that the variable has in the
block `d` where the body is defined exactly when the caller declares the variable too, with
a value that comes to the same in the body. -/
theorem interpolate_reference_iff {d : Visit ι} {value : Text} (brace : '\x7d' ∉ name)
    (defined : Defines d.nodes k v.nodes) (call : caller.Enters k v)
    (declared : Frame.rawValue? d.scope.own name = some value)
    (own : Frame.rawValue? v.scope.own name = none) :
    v.scope.interpolate (Scope.reference name) = d.scope.interpolate (Scope.reference name) ↔
      ∃ seen, caller.scope.rawValue? name = some seen ∧
        v.scope.means (Scope.bare seen) = d.scope.means (Scope.bare value) := by
  have hvalue := Scope.rawValue?_of_own declared
  rw [Scope.interpolate_reference brace, Scope.interpolate_reference brace,
    ← rawValue?_of_call defined call own]
  cases hseen : v.scope.rawValue? name with
  | none =>
    -- The error would say of a variable that has a value that it has none.
    simp only [reduceCtorEq, false_and, exists_false, iff_false]
    rw [Scope.text_eq_undefined_iff.mpr hseen]
    intro h
    rw [Scope.text_eq_undefined_iff.mp h.symm] at hvalue
    cases hvalue
  | some seen =>
    simp only [Option.some.injEq, exists_eq_left']
    rw [Scope.text_of_written hseen, Scope.text_of_written hvalue]

end

/-! ## Whole runs -/

/-- A visit reaches those it enters, those they enter, and so on. -/
abbrev Visit.Reaches : Visit ι → Visit ι → Prop :=
  Relation.ReflTransGen fun v w => ∃ k, v.Enters k w

/-- An evaluation only puts frames on the scope it begins with. -/
theorem scope_of_reaches {v w : Visit ι} (h : v.Reaches w) : ∃ top, w.scope = top ++ v.scope := by
  induction h with
  | refl => exact ⟨[], rfl⟩
  | tail _ hstep ih =>
    obtain ⟨k, hstep⟩ := hstep
    obtain ⟨top, htop⟩ := ih
    obtain ⟨_, h⟩ | ⟨_, h⟩ := NodesEnter.scope_eq hstep
    · exact ⟨top, h.trans htop⟩
    · exact ⟨_ :: top, by rw [h, htop, List.cons_append]⟩

/-- Wherever an evaluation comes to, a text stands for what it stands for at the
beginning, as long as nothing that it leads to is declared again on the way. -/
theorem interpolate_eq_of_reaches {v w : Visit ι} (h : v.Reaches w) {t : Text}
    (kept : ∀ name ∈ Scope.interpolated t, ∀ other, v.scope.LeadsTo name other →
      ∀ top, w.scope = top ++ v.scope → ∀ f ∈ top, Frame.rawValue? f other = none) :
    w.scope.interpolate t = v.scope.interpolate t := by
  obtain ⟨top, htop⟩ := scope_of_reaches h
  rw [htop]
  exact Scope.interpolate_append fun name hname other hother =>
    kept name hname other hother top htop

/-! ## A mixin called from two places -/

def mixinBody : List (Node Nat) := [.block 2 ".@\x7bv\x7d" [.statement 3 "a: b"]]

def declaringCaller : List (Node Nat) := [.statement 5 "@v: inner", .statement 6 ".m()"]

def plainCaller : List (Node Nat) := [.statement 8 ".m()"]

/-- A mixin defined beside `@v`, and two callers of which one declares `@v` again. -/
def twoCallers : List (Node Nat) :=
  [.statement 0 "@v: outer", .block 1 ".m()" mixinBody, .block 4 ".c" declaringCaller,
    .block 7 ".d" plainCaller]

/-- The visit of a caller in `twoCallers`. -/
def callerVisit (nodes : List (Node Nat)) (selector : Text) : Visit Nat :=
  ⟨(Scope.enter [] twoCallers).enter nodes, nodes, [selector], true, ⟨#[none], []⟩⟩

/-- The visit of the body of `.m` from a caller. -/
def mixinVisit (caller : Visit Nat) : Visit Nat :=
  ⟨caller.scope.enter mixinBody, mixinBody, caller.context, true, ⟨#[none], [1]⟩⟩

/-- What the statement `.m();` asks for. -/
def mixinTask : Task Nat :=
  .expansions ⟨".m()", [".m"], some []⟩ ⟨[], []⟩
    [⟨⟨1, ".m()", mixinBody⟩, ⟨".m", [], false, true, none⟩⟩]

theorem defines_mixinBody : Defines twoCallers .expansion mixinBody := by
  have h : ⟨1, ".m()", mixinBody⟩ ∈ Frame.mixins (bindingsOf twoCallers) ".m" :=
    List.mem_singleton.mpr rfl
  exact .mixin h

theorem plainCaller_enters :
    (callerVisit plainCaller ".d").Enters .expansion
      (mixinVisit (callerVisit plainCaller ".d")) := by
  have asks : (callerVisit plainCaller ".d").scope.task [] [".d"] (.statement 8 ".m()") =
      .ok mixinTask := rfl
  exact .here asks (.expansion (by decide))

theorem declaringCaller_enters :
    (callerVisit declaringCaller ".c").Enters .expansion
      (mixinVisit (callerVisit declaringCaller ".c")) := by
  have declaration : ComesTo
      (fun d => evalNode (evalBody d) (callerVisit declaringCaller ".c").scope [".c"] true
        (.statement 5 "@v: inner"))
      ⟨#[none], []⟩ false ⟨#[none], []⟩ := ⟨0, rfl⟩
  have asks : (callerVisit declaringCaller ".c").scope.task [] [".c"] (.statement 6 ".m()") =
      .ok mixinTask := rfl
  exact .later declaration (.here asks (.expansion (by decide)))

/-- The caller that declares `@v` again is come to. -/
theorem reaches_declaringCaller :
    (Visit.start twoCallers).Reaches (callerVisit declaringCaller ".c") := by
  have declaration : ComesTo
      (fun d => evalNode (evalBody d) (Scope.enter [] twoCallers) [] true
        (.statement 0 "@v: outer"))
      ⟨#[], []⟩ false ⟨#[], []⟩ := ⟨0, rfl⟩
  have definition : ComesTo
      (fun d => evalNode (evalBody d) (Scope.enter [] twoCallers) [] true
        (.block 1 ".m()" mixinBody))
      ⟨#[], []⟩ false ⟨#[], []⟩ := ⟨0, rfl⟩
  have asks : (Scope.enter [] twoCallers).task [] [] (.block 4 ".c" declaringCaller) =
      .ok (.ruleset [".c"] declaringCaller) := rfl
  exact .single ⟨.block, .later declaration (.later definition (.here asks .ruleset))⟩

/-- Called where `@v` is not declared again, the mixin sees it as it is defined. -/
theorem interpolate_reference_plainCaller :
    (mixinVisit (callerVisit plainCaller ".d")).scope.interpolate (Scope.reference "v") =
      (Visit.start twoCallers).scope.interpolate (Scope.reference "v") :=
  (interpolate_reference_iff (by decide) defines_mixinBody plainCaller_enters rfl rfl).mpr
    ⟨"outer", rfl, by decide +kernel⟩

/-- Not every mixin or detached rule set sees the variables beside it as they are
defined. -/
theorem not_forall_lexical :
    ¬ ∀ (sheet : List (Node Nat)) (d caller v : Visit Nat) (k : Visit.Kind) (name : Text),
      (Visit.start sheet).Reaches d → (Visit.start sheet).Reaches caller →
        Defines d.nodes k v.nodes → caller.Enters k v → '\x7d' ∉ name →
          (Frame.rawValue? d.scope.own name).isSome → Frame.rawValue? v.scope.own name = none →
            v.scope.interpolate (Scope.reference name) =
              d.scope.interpolate (Scope.reference name) := by
  intro h
  have same := h twoCallers (Visit.start twoCallers) _ (mixinVisit _) .expansion "v" .refl
    reaches_declaringCaller defines_mixinBody declaringCaller_enters (by decide) rfl rfl
  exact absurd same (by decide +kernel)

end

end StyleTypings.Less
