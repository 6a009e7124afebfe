/-
Errors of nodes — what can be wrong with what a node asks for.

A node is read in a scope: names are looked up, expressions and guards are computed,
definitions are chosen.  Each of these has errors of its own, and none of them is the error
of too many expansions, which only the expansion of a definition has.  The errors are told
by one predicate, `CompileError.IsOfNode`, and that they are all there are is said step by
step, of a step in two parts if it holds of both.
-/
import StyleTypings.Less.Evaluation
import StyleTypings.Proofs.Failures

namespace StyleTypings

/-! ## Failing only in some ways -/

/-- All errors that a step can fail with are of some kind. -/
def FailsOnly {ε α : Type} (P : ε → Prop) (r : Except ε α) : Prop := ∀ e, r = .error e → P e

namespace FailsOnly

variable {ε α β : Type} {P : ε → Prop}

theorem ok (a : α) : FailsOnly P (.ok a : Except ε α) := nofun

theorem error {e : ε} (h : P e) : FailsOnly P (.error e : Except ε α) := by
  rintro _ ⟨⟩
  exact h

theorem bind {r : Except ε α} {f : α → Except ε β} (hr : FailsOnly P r)
    (hf : ∀ a, FailsOnly P (f a)) : FailsOnly P (r >>= f) := by
  intro e h
  obtain h | ⟨a, h⟩ := error_of_bind h
  · exact hr e h
  · exact hf a e h

theorem map {r : Except ε α} (f : α → β) (hr : FailsOnly P r) : FailsOnly P (r.map f) :=
  fun e h => hr e (error_of_map h)

end FailsOnly

end StyleTypings

namespace StyleTypings.Less

open StyleTypings

/-- The errors of names, expressions, guards and arguments. -/
def CompileError.IsOfNode : CompileError → Prop
  | .undefinedVariable _ => True
  | .undefinedMixin _ => True
  | .noMatchingMixin _ => True
  | .unsupportedGuard _ => True
  | .invalidOperation _ => True
  | .io _ _ => False
  | .malformed _ _ => False
  | .missingImport _ _ _ => False
  | .mixinRecursion _ _ => False

/-- A step of reading a node, whose errors are of nodes. -/
abbrev OfNode {α : Type} (r : Except CompileError α) : Prop := FailsOnly CompileError.IsOfNode r

/-! ## Expressions and guards -/

namespace Expression

theorem operate_ofNode (op : Operator) (left right : Value) : OfNode (operate op left right) := by
  unfold operate
  simp only
  split
  · split
    iterate 3 exact .ok _
    split
    · exact .error trivial
    · exact .ok _
  · exact .error trivial

theorem negated_ofNode (v : Value) : OfNode (negated v) := by
  unfold negated
  split
  · exact .ok _
  · exact .error trivial

theorem apply_ofNode (default : Option Bool) (f : Function) (arguments : List Value) :
    OfNode (apply default f arguments) := by
  cases f with
  | default =>
    cases default with
    | some b => exact .ok _
    | none => exact .error trivial
  | isUnit =>
    unfold apply
    simp only
    split <;> exact .ok _
  | _ => exact .ok _

variable {lookup : Text → Except CompileError Value}

mutual

theorem evaluate_ofNode (values : ∀ name, OfNode (lookup name)) (default : Option Bool) :
    ∀ e : Expression, OfNode (e.evaluate lookup default)
  | .value v => by
    rw [evaluate]
    exact .ok v
  | .variable name => by
    rw [evaluate]
    exact values name
  | .negate e => by
    rw [evaluate]
    exact (evaluate_ofNode values default e).bind negated_ofNode
  | .operation op left right => by
    rw [evaluate]
    exact (evaluate_ofNode values default left).bind fun l =>
      (evaluate_ofNode values default right).bind (operate_ofNode op l)
  | .call f arguments => by
    rw [evaluate]
    exact (evaluateAll_ofNode values default arguments).bind (apply_ofNode default f)

theorem evaluateAll_ofNode (values : ∀ name, OfNode (lookup name)) (default : Option Bool) :
    ∀ es : List Expression, OfNode (evaluateAll lookup default es)
  | [] => by
    rw [evaluateAll]
    exact .ok []
  | e :: rest => by
    rw [evaluateAll]
    exact (evaluate_ofNode values default e).bind fun v =>
      (evaluateAll_ofNode values default rest).bind fun vs => .ok (v :: vs)

end

end Expression

namespace Guard

theorem read_ofNode (t : Text) : OfNode (read t) := by
  unfold read
  split
  · exact .ok _
  · exact .error trivial

variable {lookup : Text → Except CompileError Value} (values : ∀ name, OfNode (lookup name))
  (default : Option Bool)

include values

theorem condition_ofNode (c : Condition) : OfNode (c.holds lookup default) := by
  obtain ⟨negated, left, comparison⟩ := c
  refine (Expression.evaluate_ofNode values default left).bind fun l => ?_
  cases comparison with
  | none => exact .ok _
  | some comparison =>
    exact (Expression.evaluate_ofNode values default comparison.2).bind fun r => .ok _

theorem allHold_ofNode (cs : List Condition) : OfNode (allHold lookup default cs) := by
  induction cs with
  | nil => exact .ok true
  | cons c rest ih =>
    rw [allHold]
    refine (condition_ofNode values default c).bind fun holds => ?_
    split
    · exact ih
    · exact .ok false

theorem holds_ofNode (g : Guard) : OfNode (g.holds lookup default) := by
  rw [holds]
  induction g.alternatives with
  | nil => exact .ok false
  | cons cs rest ih =>
    rw [anyHolds]
    refine (allHold_ofNode values default cs).bind fun all => ?_
    split
    · exact .ok true
    · exact ih

end Guard

/-! ## Scopes -/

namespace Scope

variable {ι : Type}

theorem replaceNames_ofNode {resolve : Text → Except CompileError Text}
    (texts : ∀ name, OfNode (resolve name)) (skip : Nat) (t : Text) :
    OfNode (replaceNames resolve skip t) := by
  fun_induction replaceNames resolve skip t with
  | case1 => exact .ok []
  | case2 skip c rest ih => exact ih
  | case3 after name after' hbreak ih =>
    exact (texts name).bind fun value => ih.bind fun others => .ok (value ++ others)
  | case4 after hbreak ih => exact ih.bind fun others => .ok ('@' :: others)
  | case5 c rest plain ih => exact ih.bind fun others => .ok (c :: others)

theorem meaning_ofNode {resolve : Text → Except CompileError Text}
    {lookup : Text → Except CompileError Value} (texts : ∀ name, OfNode (resolve name))
    (values : ∀ name, OfNode (lookup name)) (value : Text) :
    OfNode (meaning resolve lookup value) := by
  unfold meaning
  split
  · exact texts _
  · split
    · split
      · exact replaceNames_ofNode texts 0 value
      · exact (Expression.evaluate_ofNode values none _).map Value.text
    · exact replaceNames_ofNode texts 0 value

variable (s : Scope ι)

theorem written_ofNode (name : Text) : OfNode (s.written name) := by
  unfold written
  split
  · exact .ok _
  · exact .error trivial

theorem within_ofNode (depth : Nat) (name : Text) :
    OfNode (s.textWithin depth name) ∧ OfNode (s.valueWithin depth name) := by
  induction depth generalizing name with
  | zero =>
    rw [textWithin, valueWithin]
    exact ⟨(s.written_ofNode name).map bare, (s.written_ofNode name).map _⟩
  | succ depth ih =>
    have meanings := meaning_ofNode (fun other => (ih other).1) (fun other => (ih other).2)
    rw [textWithin, valueWithin]
    refine ⟨(s.written_ofNode name).bind fun v => meanings (bare v),
      (s.written_ofNode name).bind fun v => ?_⟩
    split
    · exact Expression.evaluate_ofNode (fun other => (ih other).2) none _
    · exact (meanings (bare v)).map Value.keyword

theorem value_ofNode (name : Text) : OfNode (s.value name) := (s.within_ofNode maxDepth name).2

theorem interpolate_ofNode (t : Text) : OfNode (s.interpolate t) :=
  replaceNames_ofNode (fun name => (s.within_ofNode maxDepth name).1) 0 t

theorem argument_ofNode (t : Text) : OfNode (s.argument t) := by
  unfold argument
  split
  · exact (Expression.evaluate_ofNode s.value_ofNode none _).map Value.toCss
  · exact .ok _

theorem arguments_ofNode (written : Option Text) : OfNode (s.arguments written) := by
  have addArgument : ∀ a item, OfNode (s.addArgument a item) := by
    intro a item
    unfold Scope.addArgument
    split <;> exact (s.argument_ofNode _).bind fun _ => .ok _
  have items : ∀ (items : List Text) a, OfNode (items.foldlM s.addArgument a) := by
    intro items
    induction items with
    | nil => exact fun a => .ok a
    | cons item rest ih =>
      intro a
      rw [List.foldlM_cons]
      exact (addArgument a item).bind ih
  cases written with
  | none => exact .ok _
  | some t => exact items _ _

end Scope

/-! ## Tasks -/

variable {ι : Type}

theorem selectionIn_ofNode (s : Scope ι) (guard : Option Text) : OfNode (selectionIn s guard) := by
  cases guard with
  | none => exact .ok _
  | some t =>
    exact (Guard.read_ofNode t).bind fun g =>
      (Guard.holds_ofNode s.value_ofNode (some true) g).bind fun _ =>
        (Guard.holds_ofNode s.value_ofNode (some false) g).bind fun _ => .ok _

variable [DecidableEq ι]

theorem selected_ofNode (caller : Scope ι) (a : Arguments) (expanding : List ι)
    (cs : List (Candidate ι)) : OfNode (selected caller a expanding cs) := by
  induction cs with
  | nil => exact .ok []
  | cons c rest ih =>
    rw [selected]
    refine .bind ?_ fun _ => ih.bind fun _ => .ok _
    unfold Candidate.selection
    split
    · exact .ok none
    · exact selectionIn_ofNode _ _

namespace Scope

variable (s : Scope ι)

theorem callTask_ofNode (expanding : List ι) (call : Call) : OfNode (s.callTask expanding call) := by
  unfold callTask
  simp only
  split
  · exact .error trivial
  · refine (s.arguments_ofNode call.arguments).bind fun a => ?_
    split
    · exact .error trivial
    · exact (selected_ofNode s a expanding _).bind fun _ => .ok _

theorem statementTask_ofNode (expanding : List ι) (text : Text) :
    OfNode (s.statementTask expanding text) := by
  unfold statementTask
  split
  · exact .ok _
  · exact s.callTask_ofNode expanding _
  · split
    · exact .ok _
    · exact .error trivial
  · exact .ok _

omit [DecidableEq ι] in
theorem blockTask_ofNode (context : List Text) (prelude : Text) (nodes : List (Node ι)) :
    OfNode (s.blockTask context prelude nodes) := by
  have guards : ∀ guard, OfNode (s.guardHolds guard) := by
    rintro (_ | t)
    · exact .ok true
    · exact (Guard.read_ofNode t).bind (Guard.holds_ofNode s.value_ofNode none)
  have selectors : OfNode (s.selectorBlockTask context prelude nodes) := by
    refine (guards _).bind fun holds => ?_
    split
    · exact (s.interpolate_ofNode _).bind fun _ => .ok _
    · exact .ok _
  unfold blockTask
  split
  · split <;> exact .ok _
  · split
    · exact .ok _
    · exact selectors

/-- Whatever a node cannot be done for is written in the node or in what its names stand
for. -/
theorem task_ofNode (expanding : List ι) (context : List Text) (n : Node ι) :
    OfNode (s.task expanding context n) := by
  cases n with
  | statement tag text => exact s.statementTask_ofNode expanding text
  | block tag prelude nodes => exact s.blockTask_ofNode context prelude nodes
  | imported file reference nodes => exact .ok _

end Scope

end StyleTypings.Less
