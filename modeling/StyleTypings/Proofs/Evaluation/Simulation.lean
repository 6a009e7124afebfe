/-
Simulation — style sheets that come to the same.

Two lists of nodes are alike when the one is got from the other by

  retagging    tags replaced by tags that belong to them
  inlining     the nodes of an imported file put in the place of the import
  swapping     two neighbours that declare no symbol both, one of which is nothing but
               a definition, in the other order

here and there, at whatever depth (`Alike`).  Like lists declare like frames, since the
bindings of one symbol keep their order (`Alike.frames`), and in like scopes they come to
one outcome (`followsWithin`).  An import costs a step of depth, so the outcomes need not
come at the same depth; what is shown is that whatever one list comes to the other comes
to at some depth, by induction on the depth and, inside, on how the lists are alike.
-/
import StyleTypings.Proofs.Evaluation.Comparison
import StyleTypings.Proofs.Naming

namespace StyleTypings.Less

/-! ## Definitions among nodes -/

section Nodes

variable {ι : Type}

/-- Whether a node does nothing but to define a variable, a detached rule set or a mixin
with parameters. -/
def Node.isDefinition : Node ι → Bool
  | .statement _ text => (assignment? text).isSome
  | .block _ prelude _ => (detachedName? prelude).isSome || Signature.isParametric prelude
  | .imported _ _ _ => false

/-- Whether a node declares a symbol for the block it stands in. -/
def Node.declares (n : Node ι) (x : Symbol) : Bool := n.bindings.any (·.symbol = x)

/-- Two nodes that may change places: they declare no symbol both, and one of them at
least does nothing else. -/
structure Independent (m n : Node ι) : Prop where
  definition : m.isDefinition ∨ n.isDefinition
  symbols : ∀ x, ¬ (m.declares x ∧ n.declares x)

/-- One inlining or swap at the head of a list. -/
inductive Step : List (Node ι) → List (Node ι) → Prop where
  | inline (file : Location) (nodes rest : List (Node ι)) :
    Step (.imported file false nodes :: rest) (nodes ++ rest)
  | swap {m n : Node ι} (h : Independent m n) (rest : List (Node ι)) :
    Step (m :: n :: rest) (n :: m :: rest)

end Nodes

/-- Lists of nodes that are the same up to tags, inlinings and swaps. -/
inductive Alike {ι κ : Type} (T : ι → κ → Prop) : List (Node ι) → List (Node κ) → Prop where
  | nil : Alike T [] []
  | statement (tag : ι) (tag' : κ) (text : Text) {rest : List (Node ι)} {rest' : List (Node κ)}
      (h : Alike T rest rest') :
    Alike T (.statement tag text :: rest) (.statement tag' text :: rest')
  | block {tag : ι} {tag' : κ} (prelude : Text) {body rest : List (Node ι)}
      {body' rest' : List (Node κ)} (tags : T tag tag') (inside : Alike T body body')
      (h : Alike T rest rest') :
    Alike T (.block tag prelude body :: rest) (.block tag' prelude body' :: rest')
  | imported (file file' : Location) (reference : Bool) {nodes rest : List (Node ι)}
      {nodes' rest' : List (Node κ)} (inside : Alike T nodes nodes') (h : Alike T rest rest') :
    Alike T (.imported file reference nodes :: rest) (.imported file' reference nodes' :: rest')
  | left {l m : List (Node ι)} {l' : List (Node κ)} (step : Step l m) (h : Alike T m l') :
    Alike T l l'
  | right {l : List (Node ι)} {l' m' : List (Node κ)} (step : Step l' m') (h : Alike T l m') :
    Alike T l l'

variable {ι κ : Type} {T : ι → κ → Prop}

theorem Alike.symm {l : List (Node ι)} {l' : List (Node κ)} (h : Alike T l l') :
    Alike (flip T) l' l := by
  induction h with
  | nil => exact .nil
  | statement tag tag' text _ ih => exact .statement tag' tag text ih
  | block prelude tags _ _ inside ih => exact .block prelude tags inside ih
  | imported file file' reference _ _ inside ih => exact .imported file' file reference inside ih
  | left step _ ih => exact .right step ih
  | right step _ ih => exact .left step ih

/-! ## Frames -/

@[simp] theorem bindingsOf_cons (n : Node ι) (rest : List (Node ι)) :
    bindingsOf (n :: rest) = n.bindings ++ bindingsOf rest := by
  rw [bindingsOf]

theorem bindingsOf_append (nodes rest : List (Node ι)) :
    bindingsOf (nodes ++ rest) = bindingsOf nodes ++ bindingsOf rest := by
  induction nodes with
  | nil => rfl
  | cons n nodes ih => rw [List.cons_append, bindingsOf, bindingsOf, ih, List.append_assoc]

theorem Frame.about_append (f g : Frame ι) (x : Symbol) :
    Frame.about (f ++ g) x = f.about x ++ g.about x := List.filter_append f g

/-- A step does not change what is declared for any one symbol. -/
theorem Step.about {l m : List (Node ι)} (h : Step l m) (x : Symbol) :
    (bindingsOf l).about x = (bindingsOf m).about x := by
  cases h with
  | inline file nodes rest =>
    rw [bindingsOf_cons, Node.bindings, bindingsOf_append]
  | @swap m n h rest =>
    have hnone : m.bindings.about x = [] ∨ n.bindings.about x = [] := by
      have := h.symbols x
      simp only [Node.declares, List.any_eq_true, not_and_or] at this
      simpa [Frame.about, List.filter_eq_nil_iff] using this
    simp only [bindingsOf_cons, Frame.about_append]
    obtain h | h := hnone <;> simp [h]

/-- Like nodes declare like frames. -/
theorem Alike.frames {l : List (Node ι)} {l' : List (Node κ)} (h : Alike T l l') :
    (bindingsOf l).Like T (Alike T) (bindingsOf l') := by
  induction h with
  | nil => exact fun x => .nil
  | statement tag tag' text _ ih =>
    rw [bindingsOf_cons, bindingsOf_cons]
    exact (Frame.Like.of_forall₂ (statement_bindings_like tag tag' text)).append ih
  | block prelude tags inside _ _ ih =>
    rw [bindingsOf_cons, bindingsOf_cons]
    exact (Frame.Like.of_forall₂ (block_bindings_like prelude tags inside)).append ih
  | imported file file' reference _ _ inside ih =>
    rw [bindingsOf_cons, bindingsOf_cons, Node.bindings, Node.bindings]
    exact inside.append ih
  | left step _ ih => exact fun x => step.about x ▸ ih x
  | right step _ ih => exact fun x => step.about x ▸ ih x

/-! ## Steps -/

/-- A declaration of a variable is no call and no declaration of a property. -/
theorem ofText_of_assignment? {text : Text} (h : (assignment? text).isSome) :
    Statement.ofText text = .inert := by
  unfold assignment? at h
  split at h
  · rename_i name rest hname
    obtain ⟨after, rfl, taken⟩ := takeVariable?_eq_some hname
    have hbrace : ∀ u, after ≠ '\x7b' :: u := by
      rintro u rfl
      have stop : isNameChar '\x7b' = false := by decide +kernel
      simp [takeName?, stop] at taken
    split at h
    · rename_i value hcolon
      have hcall : detachedCall? ('@' :: after) = none := by
        simp only [detachedCall?, hname, hcolon]
        rfl
      unfold Statement.ofText
      split
      · rename_i heq
        exact absurd (List.cons.inj heq).2 (hbrace _)
      · rw [hcall]
      · rename_i hsign
        exact absurd rfl (hsign after)
    · cases h
  · cases h

section Steps

variable [DecidableEq ι]

/-- A definition asks for nothing where it stands. -/
theorem task_of_isDefinition {n : Node ι} (h : n.isDefinition = true) (s : Scope ι)
    (expanding : List ι) (context : List Text) : s.task expanding context n = .ok (.none false) := by
  cases n with
  | statement tag text =>
    rw [Scope.task, Scope.statementTask, ofText_of_assignment? h]
  | block tag prelude body =>
    rw [Node.isDefinition, Bool.or_eq_true] at h
    rw [Scope.task]
    unfold Scope.blockTask
    split
    · rename_i atRule
      rw [if_neg ?_]
      have hname : (detachedName? ('@' :: atRule)).isSome := by
        refine h.resolve_right ?_
        simp [Signature.isParametric, Signature.read?, takeMixinName?]
      simp [Option.isSome_iff_ne_none.mp hname]
    · rename_i hsign
      rw [if_pos]
      refine h.resolve_left ?_
      simp only [detachedName?]
      split
      · rename_i hname
        obtain ⟨after, rfl, _⟩ := takeVariable?_eq_some hname
        exact absurd rfl (hsign after)
      · exact Bool.false_ne_true
  | imported file reference nodes => cases h

variable (depth : Nat) {s : Scope ι} {context : List Text} {output : Bool} {expanding : List ι}

theorem outcome_definition_cons {n : Node ι} (h : n.isDefinition = true) (rest : List (Node ι)) :
    outcome (evalNodes (evalBody depth) s context output (n :: rest)) expanding =
      outcome (evalNodes (evalBody depth) s context output rest) expanding := by
  rw [outcome_evalNodes_cons, outcome_evalNode_ok depth s context output
    (task_of_isDefinition h s expanding context)]
  exact bothOutcomes_nothing _

theorem outcome_swap {m n : Node ι} (h : Independent m n) (rest : List (Node ι)) :
    outcome (evalNodes (evalBody depth) s context output (m :: n :: rest)) expanding =
      outcome (evalNodes (evalBody depth) s context output (n :: m :: rest)) expanding := by
  obtain hm | hn := h.definition
  · rw [outcome_definition_cons depth hm, outcome_evalNodes_cons, outcome_evalNodes_cons,
      outcome_definition_cons depth hm]
  · rw [outcome_definition_cons depth hn, outcome_evalNodes_cons, outcome_definition_cons depth hn,
      outcome_evalNodes_cons]

/-- The nodes of a file come to the same in the place of the import, a step less deep. -/
theorem outcome_import (file : Location) (nodes : List (Node ι)) :
    outcome (evalNode (evalBody (depth + 1)) s context output (.imported file false nodes))
        expanding =
      outcome (evalNodes (evalBody depth) s context output nodes) expanding := by
  rw [outcome_evalNode_ok (depth + 1) s context output rfl, evalTask, Bool.not_false, Bool.and_true]
  rfl

/-- A step forward takes no depth. -/
theorem Step.outcome {l m : List (Node ι)} (h : Step l m)
    (settled : Settled (outcome (evalNodes (evalBody depth) s context output l) expanding)) :
    Less.outcome (evalNodes (evalBody depth) s context output m) expanding =
      Less.outcome (evalNodes (evalBody depth) s context output l) expanding := by
  cases h with
  | inline file nodes rest =>
    rw [outcome_evalNodes_cons] at settled ⊢
    rw [outcome_evalNodes_append]
    cases depth with
    | zero => exact absurd rfl settled.of_bind
    | succ depth =>
      rw [outcome_import] at settled ⊢
      exact bothOutcomes_congr settled (outcome_evalNodes_of_le (Nat.le_succ depth)) fun _ => rfl
  | swap h rest => exact (outcome_swap depth h rest).symm

/-- A step back takes no more than one. -/
theorem Step.outcome_succ {l m : List (Node ι)} (h : Step l m)
    (settled : Settled (Less.outcome (evalNodes (evalBody depth) s context output m) expanding)) :
    Less.outcome (evalNodes (evalBody (depth + 1)) s context output l) expanding =
      Less.outcome (evalNodes (evalBody depth) s context output m) expanding := by
  cases h with
  | inline file nodes rest =>
    rw [outcome_evalNodes_append] at settled ⊢
    rw [outcome_evalNodes_cons, outcome_import]
    exact bothOutcomes_congr settled (fun _ => rfl) (outcome_evalNodes_of_le (Nat.le_succ depth))
  | swap h rest =>
    rw [outcome_swap (depth + 1) h rest]
    exact outcome_evalNodes_of_le (Nat.le_succ depth) settled

end Steps

/-! ## Like bodies come to the same -/

/-- Unless it is cut off, an outcome is one of those at all depths. -/
def Attained {α : Type} (o : Except Halt α) (x : Nat → Except Halt α) : Prop :=
  Settled o → ∃ d, x d = o

namespace Attained

theorem map {α β : Type} {o : Except Halt α} {x : Nat → Except Halt α} (h : Attained o x)
    (f : α → β) : Attained (o.map f) fun d => (x d).map f := by
  intro settled
  obtain ⟨d, hd⟩ := h settled.of_map
  exact ⟨d, by simp only [hd]⟩

theorem both {o o' : Except Halt (Bool × Stylesheet)}
    {x y : Nat → Except Halt (Bool × Stylesheet)} (hx : Attained o x) (hy : Attained o' y)
    (steadyX : Steady x) (steadyY : Steady y) :
    Attained (bothOutcomes o o') fun d => bothOutcomes (x d) (y d) := by
  intro settled
  obtain ⟨d, hd⟩ := hx settled.of_bind
  by_cases hsecond : Settled o'
  · obtain ⟨d', hd'⟩ := hy hsecond
    refine ⟨max d d', bothOutcomes_congr settled (fun hfirst => ?_) fun _ => ?_⟩
    · rw [← hd] at hfirst ⊢
      exact steadyX d (max d d') (Nat.le_max_left d d') hfirst
    · rw [← hd'] at hsecond ⊢
      exact steadyY d' (max d d') (Nat.le_max_right d d') hsecond
  · exact ⟨d, bothOutcomes_congr settled (fun _ => hd) fun h => absurd h hsecond⟩

end Attained

/-- What one part comes to the other comes to at some depth, with or without output. -/
def attaining : OutcomeRelation where
  Rel _ _ _ o x := Attained o x
  Import _ := True
  cutOff _ settled := absurd rfl settled
  deeper h settled := by
    obtain ⟨d, hd⟩ := h settled
    exact ⟨d + 1, hd⟩
  const _ _ := ⟨0, rfl⟩
  both steadyX steadyY hx hy := hx.both hy steadyX steadyY
  block h := h.map _
  imported _ h := h

variable (T) in
/-- Like bodies in like scopes. -/
def alikePairing : Pairing ι κ where
  tags := T
  bodies := Alike T
  scopes := Scope.Like T (Alike T)
  expanding := List.Forall₂ T
  enter hs h := hs.enter (fun _ _ => Alike.frames) h
  expand hs h a := h.scope hs (fun _ _ => Alike.frames) a
  push := .cons
  room _ he := by rw [he.length_eq]

section Follows

variable [DecidableEq ι] [DecidableEq κ]

/-- Whatever a body comes to at a depth, a like body comes to in a like scope. -/
def FollowsWithin (T : ι → κ → Prop) (depth : Nat) : Prop :=
  ∀ {nodes : List (Node ι)} {nodes' : List (Node κ)}, Alike T nodes nodes' →
    ∀ {s : Scope ι} {s' : Scope κ}, s.Like T (Alike T) s' →
      ∀ (context : List Text) (output : Bool) {expanding : List ι} {expanding' : List κ},
        List.Forall₂ T expanding expanding' →
          Attained (outcome (evalBody depth s nodes context output) expanding)
            fun d => outcome (evalBody d s' nodes' context output) expanding'

theorem evalNodes_follows {depth : Nat} (follows : FollowsWithin T depth) {s : Scope ι}
    {s' : Scope κ} (hs : s.Like T (Alike T) s') (context : List Text) (output : Bool)
    {expanding : List ι} {expanding' : List κ} (hexpanding : List.Forall₂ T expanding expanding')
    (unique : Relator.BiUnique T) {nodes : List (Node ι)} {nodes' : List (Node κ)}
    (h : Alike T nodes nodes') :
    Attained (outcome (evalNodes (evalBody depth) s context output nodes) expanding)
      fun d => outcome (evalNodes (evalBody d) s' context output nodes') expanding' := by
  have cons : ∀ {n : Node ι} {n' : Node κ} {rest rest'}, n.Like T (Alike T) n' →
      Attained (outcome (evalNodes (evalBody depth) s context output rest) expanding)
        (fun d => outcome (evalNodes (evalBody d) s' context output rest') expanding') →
      Attained (outcome (evalNodes (evalBody depth) s context output (n :: rest)) expanding)
        fun d => outcome (evalNodes (evalBody d) s' context output (n' :: rest')) expanding' := by
    intro n n' rest rest' hn hrest
    have asks := task_like hs (fun _ _ => Alike.frames) unique hexpanding context hn
    exact cons_compares (C := attaining)
      (node_compares (P := alikePairing T) (C := attaining) follows hs context output hexpanding asks
        fun _ _ _ _ => trivial) hrest
  induction h with
  | nil => exact fun _ => ⟨0, rfl⟩
  | statement tag tag' text _ ih => exact cons (.statement tag tag' text) ih
  | block prelude tags inside _ _ ih => exact cons (.block prelude tags inside) ih
  | imported file file' reference inside _ _ ih =>
    exact cons (.imported file file' reference inside) ih
  | left step _ ih =>
    -- The first list has settled, so its step can be taken at the same depth.
    intro settled
    have same := step.outcome depth settled
    rw [← same] at settled ⊢
    exact ih settled
  | right step _ ih =>
    -- A step back may put an import around nodes of the second list, which is one deeper.
    intro settled
    obtain ⟨d, hd⟩ := ih settled
    rw [← hd] at settled
    exact ⟨d + 1, (step.outcome_succ d settled).trans hd⟩

end Follows

theorem followsWithin [DecidableEq ι] [DecidableEq κ] (unique : Relator.BiUnique T) (depth : Nat) :
    FollowsWithin T depth :=
  (alikePairing T).follows_of_nodes attaining
    (fun _ follows _ _ h _ _ hs context output _ _ he =>
      evalNodes_follows follows hs context output he unique h)
    depth

/-- Style sheets that are alike have the same result. -/
theorem Alike.evaluates [DecidableEq ι] [DecidableEq κ] (unique : Relator.BiUnique T)
    {l : List (Node ι)} {l' : List (Node κ)} (h : Alike T l l')
    {r : Except CompileError Stylesheet} (hr : Evaluates l r) : Evaluates l' r := by
  obtain ⟨depth, hdepth⟩ := (evaluates_iff l r).mp hr
  have hscope : (Scope.enter [] l).Like T (Alike T) (Scope.enter [] l') :=
    Scope.Like.enter .nil (fun _ _ => Alike.frames) h
  obtain ⟨d, hd⟩ := followsWithin unique depth h hscope [] true .nil
    (.of_map (hdepth ▸ settled_mapError r))
  exact (evaluates_iff l' r).mpr ⟨d, (congrArg (Except.map (·.2)) hd).trans hdepth⟩

end StyleTypings.Less
