/-
Comparison — the evaluations of two style sheets side by side.

What is shown of two style sheets is shown body by body, and the argument is the same each
time.  Two things are left open in it:

  which bodies belong together, and which scopes and definitions being expanded (`Pairing`);
  what is said of their outcomes (`OutcomeRelation`): of one outcome at a depth, and of the
  other outcomes at all depths, since the second body may take more of it, or less.

A comparison goes through the ways in which bodies are put together.  So nodes that ask for
like tasks compare if the bodies that they enter do (`node_compares`), and all bodies do if
their nodes do (`Pairing.follows_of_nodes`).  What remains for two style sheets is to say
which bodies belong together, and to look at the nodes that are not alike.
-/
import StyleTypings.Proofs.Evaluation.Likeness
import StyleTypings.Proofs.Evaluation.Outcome
import StyleTypings.Proofs.Evaluation.Tasks

namespace StyleTypings.Less

/-- A way to compare what a part of one style sheet comes to at a depth, with output or
without and for the selectors of a context, with what a part of another comes to at all
depths. -/
structure OutcomeRelation where
  Rel (depth : Nat) (output : Bool) (context : List Text) (o : Except Halt (Bool × Stylesheet))
    (x : Nat → Except Halt (Bool × Stylesheet)) : Prop
  /-- Which imports it goes through: those by reference, or the others. -/
  Import (reference : Bool) : Prop
  /-- Bodies that are cut off without any depth. -/
  cutOff {output context x} : x 0 = .error .unfinished → Rel 0 output context (.error .unfinished) x
  /-- Bodies take one step more than what they enter. -/
  deeper {depth output context o x} :
    Rel depth output context o (fun d => x (d + 1)) → Rel (depth + 1) output context o x
  /-- Parts that enter no body, and errors. -/
  const {depth output context} (o) : Rel depth output context o fun _ => o
  both {depth output context o o' x y} : Steady x → Steady y → Rel depth output context o x →
    Rel depth output context o' y →
      Rel depth output context (bothOutcomes o o') fun d => bothOutcomes (x d) (y d)
  /-- The context of a block's body are its own selectors. -/
  block {depth output context selectors o x} : Rel depth output selectors o x →
    Rel depth output context (o.map fun r => (false, ownRulesets selectors output r.1 ++ r.2))
      fun d => (x d).map fun r => (false, ownRulesets selectors output r.1 ++ r.2)
  imported {depth output context reference o x} : Import reference →
    Rel depth (output && ! reference) context o x → Rel depth output context o x

/-- What belongs together in two style sheets: tags, bodies, scopes and lists of definitions
being expanded.  Whoever enters two such bodies from two such scopes is in such scopes
again. -/
structure Pairing (ι κ : Type) where
  tags : ι → κ → Prop
  bodies : List (Node ι) → List (Node κ) → Prop
  scopes : Scope ι → Scope κ → Prop
  expanding : List ι → List κ → Prop
  enter {s s' nodes nodes'} : scopes s s' → bodies nodes nodes' →
    scopes (s.enter nodes) (s'.enter nodes')
  expand {s s'} {c : Candidate ι} {c' : Candidate κ} : scopes s s' → c.Like tags bodies c' →
    ∀ a, scopes (c.scope s a) (c'.scope s' a)
  push {tag tag' e e'} : tags tag tag' → expanding e e' → expanding (tag :: e) (tag' :: e')
  room {tag tag' e e'} : tags tag tag' → expanding e e' →
    (e.length < maxExpansions ↔ e'.length < maxExpansions)

variable {ι κ : Type} [DecidableEq ι] [DecidableEq κ] (P : Pairing ι κ) (C : OutcomeRelation)

/-- Whatever a body comes to at a depth compares with what its partner comes to. -/
def Pairing.Follows (depth : Nat) : Prop :=
  ∀ {nodes : List (Node ι)} {nodes' : List (Node κ)}, P.bodies nodes nodes' →
    ∀ {s : Scope ι} {s' : Scope κ}, P.scopes s s' →
      ∀ (context : List Text) (output : Bool) {e : List ι} {e' : List κ}, P.expanding e e' →
        C.Rel depth output context (outcome (evalBody depth s nodes context output) e)
          fun d => outcome (evalBody d s' nodes' context output) e'

/-- Bodies follow if their nodes do as soon as what they enter follows. -/
theorem Pairing.follows_of_nodes
    (hnodes : ∀ depth, P.Follows C depth → ∀ {nodes nodes'}, P.bodies nodes nodes' →
      ∀ {s s'}, P.scopes s s' → ∀ context output {e e'}, P.expanding e e' →
        C.Rel depth output context (outcome (evalNodes (evalBody depth) s context output nodes) e)
          fun d => outcome (evalNodes (evalBody d) s' context output nodes') e')
    (depth : Nat) : P.Follows C depth := by
  induction depth with
  | zero => exact fun _ _ _ _ _ _ _ _ _ => C.cutOff rfl
  | succ depth ih =>
    intro nodes nodes' h s s' hs context output e e' he
    exact C.deeper (hnodes depth ih h hs context output he)

variable {C} in
/-- Nodes compare one after another. -/
theorem cons_compares {depth : Nat} {s : Scope ι} {s' : Scope κ} {context : List Text}
    {output : Bool} {e : List ι} {e' : List κ} {n : Node ι} {n' : Node κ} {rest : List (Node ι)}
    {rest' : List (Node κ)}
    (hn : C.Rel depth output context (outcome (evalNode (evalBody depth) s context output n) e)
      fun d => outcome (evalNode (evalBody d) s' context output n') e')
    (hrest : C.Rel depth output context
      (outcome (evalNodes (evalBody depth) s context output rest) e)
      fun d => outcome (evalNodes (evalBody d) s' context output rest') e') :
    C.Rel depth output context
      (outcome (evalNodes (evalBody depth) s context output (n :: rest)) e)
      fun d => outcome (evalNodes (evalBody d) s' context output (n' :: rest')) e' := by
  simp only [outcome_evalNodes_cons]
  exact C.both ((evalNode_deepening _ _ _ _).steady _) ((evalNodes_deepening _ _ _ _).steady _)
    hn hrest

variable {P C} {depth : Nat} (follows : P.Follows C depth) {s : Scope ι} {s' : Scope κ}
  (hs : P.scopes s s') (context : List Text) (output : Bool) {e : List ι} {e' : List κ}
  (he : P.expanding e e')

include follows hs he

theorem expansion_compares (call : Call) (a : Arguments) {c : Candidate ι} {c' : Candidate κ}
    (h : c.Like P.tags P.bodies c') :
    C.Rel depth output context
      (outcome (evalExpansion (evalBody depth) s call a context output c) e)
      fun d => outcome (evalExpansion (evalBody d) s' call a context output c') e' := by
  have hroom := P.room h.definition.tag he
  obtain room | full := Nat.lt_or_ge e.length maxExpansions
  · simp only [outcome_evalExpansion_room _ _ _ _ _ _ _ room,
      outcome_evalExpansion_room _ _ _ _ _ _ _ (hroom.mp room)]
    exact follows h.definition.body (P.expand hs h a) context output (P.push h.definition.tag he)
  · have full' := Nat.le_of_not_lt (mt hroom.mpr (Nat.not_lt_of_le full))
    simp only [outcome_evalExpansion_full _ _ _ _ _ _ _ full,
      outcome_evalExpansion_full _ _ _ _ _ _ _ full']
    exact C.const _

theorem expansions_compare (call : Call) (a : Arguments) {cs : List (Candidate ι)}
    {cs' : List (Candidate κ)} (h : List.Forall₂ (Candidate.Like P.tags P.bodies) cs cs') :
    C.Rel depth output context
      (outcome (evalExpansions (evalBody depth) s call a context output cs) e)
      fun d => outcome (evalExpansions (evalBody d) s' call a context output cs') e' := by
  induction h with
  | nil => exact C.const _
  | cons hc _ ih =>
    simp only [outcome_evalExpansions_cons]
    exact C.both ((evalExpansion_deepening _ _ _ _ _ _).steady _)
      ((evalExpansions_deepening _ _ _ _ _ _).steady _)
      (expansion_compares follows hs context output he call a hc) ih

theorem task_compares {t : Task ι} {t' : Task κ} (h : t.Like P.tags P.bodies t')
    (imports : ∀ reference nodes, t = .imported reference nodes → C.Import reference) :
    C.Rel depth output context (outcome (evalTask (evalBody depth) s context output t) e)
      fun d => outcome (evalTask (evalBody d) s' context output t') e' := by
  cases h with
  | none declares => exact C.const _
  | ruleset selectors hnodes =>
    simp only [outcome_evalTask_ruleset]
    exact C.block (follows hnodes (P.enter hs hnodes) selectors output he)
  | imported reference hnodes =>
    exact C.imported (imports _ _ rfl) (follows hnodes hs context (output && ! reference) he)
  | detached hnodes => exact follows hnodes (P.enter hs hnodes) context output he
  | expansions call a hcs => exact expansions_compare follows hs context output he call a hcs

/-- Nodes that ask for like tasks, or fail with the same error, compare. -/
theorem node_compares {n : Node ι} {n' : Node κ}
    (h : ResultLike (Task.Like P.tags P.bodies) (s.task e context n) (s'.task e' context n'))
    (imports : ∀ file reference nodes, n = .imported file reference nodes → C.Import reference) :
    C.Rel depth output context (outcome (evalNode (evalBody depth) s context output n) e)
      fun d => outcome (evalNode (evalBody d) s' context output n') e' := by
  generalize asks : s.task e context n = r, asks' : s'.task e' context n' = r' at h
  cases h with
  | ok ht =>
    simp only [outcome_evalNode_ok _ _ _ _ asks, outcome_evalNode_ok _ _ _ _ asks']
    refine task_compares follows hs context output he ht ?_
    rintro reference nodes rfl
    obtain ⟨file, rfl⟩ := task_imported asks
    exact imports file reference nodes rfl
  | error e =>
    simp only [outcome_evalNode_error _ _ _ _ asks, outcome_evalNode_error _ _ _ _ asks']
    exact C.const _

end StyleTypings.Less
