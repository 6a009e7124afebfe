/-
Visits — the bodies that the evaluation of a body enters.

A visit is a body about to be evaluated, with everything its evaluation depends on.
A visit enters another when a node of its body is come to, with all nodes before it
done, and the node asks for the other body:

    node                    enters                                as
    block with a rule set   its own body                          block
    imported file           the nodes of the file                 imported
    @name();                the body that the name stands for     detached
    .mixin();               the bodies of the definitions, each   expansion
                            when those before it are done

The relations follow the evaluation constructor by constructor.  Which nodes are done
is no matter of depth: a node is done when it comes to a value at some depth.
-/
import StyleTypings.Proofs.Descent
import StyleTypings.Proofs.Evaluation.Depth

namespace StyleTypings.Less

open Eval

variable {ι : Type}

/-- What a body is entered as. -/
inductive Visit.Kind where
  | block
  | imported
  | detached
  | expansion
deriving DecidableEq, Repr

/-- A body about to be evaluated. -/
structure Visit (ι : Type) where
  scope : Scope ι
  nodes : List (Node ι)
  context : List Text
  output : Bool
  progress : Progress ι

/-! ## Single steps -/

section Steps

variable (body : BodyEval ι) (s : Scope ι) (context : List Text) (output : Bool) {p : Progress ι}

theorem evalExpansion_of_room (call : Call) (a : Arguments) (c : Candidate ι)
    (room : p.expanding.length < maxExpansions) :
    result (evalExpansion body s call a context output c) p =
      result (whileExpanding c.definition.tag
        (body (c.scope s a) c.definition.body context output)) p := by
  rw [evalExpansion, result_bind_ok (result_get p), if_neg (Nat.not_le.mpr room)]

theorem evalExpansion_of_full (call : Call) (a : Arguments) (c : Candidate ι)
    (full : maxExpansions ≤ p.expanding.length) :
    result (evalExpansion body s call a context output c) p =
      .error (.error (.mixinRecursion call.text maxExpansions)) := by
  rw [evalExpansion, result_bind_ok (result_get p), if_pos full, result_throw]

/-- The place of a rule set is taken before its body, and is filled without fail. -/
theorem evalRuleset_finishes (selectors : List Text) (nodes : List (Node ι)) :
    Finishes (evalTask body s context output (.ruleset selectors nodes)) p ↔
      Finishes (body (s.enter nodes) nodes selectors output)
        { p with places := p.places.push none } := by
  constructor
  · intro h
    have hset := h.of_bind
    unfold evalRuleset at hset
    rw [Finishes, result_bind_ok (result_get p), result_bind_ok (result_modify _ p)] at hset
    exact Finishes.of_bind hset
  · intro h
    refine Finishes.bind ?_ fun _ q => by simp [Finishes]
    unfold evalRuleset
    rw [Finishes, result_bind_ok (result_get p), result_bind_ok (result_modify _ p)]
    refine h.bind fun declares q => ?_
    split <;> simp [Finishes]

theorem evalNode_of_task [DecidableEq ι] {n : Node ι} {t : Task ι} (asks : s.task p.expanding context n = .ok t) :
    result (evalNode body s context output n) p = result (evalTask body s context output t) p := by
  rw [evalNode, result_bind_ok (result_get p), asks, result_bind_ok (result_ofExcept_ok t p)]

theorem evalNode_of_error [DecidableEq ι] {n : Node ι} {e : CompileError}
    (fails : s.task p.expanding context n = .error e) :
    result (evalNode body s context output n) p = .error (.error e) := by
  rw [evalNode, result_bind_ok (result_get p), fails,
    result_bind_error (result_ofExcept_error e p)]

end Steps

section

variable [DecidableEq ι]

/-! ## Families of evaluations -/

section Families

variable (s : Scope ι) (context : List Text) (output : Bool)

theorem evalExpansion_deepening (call : Call) (a : Arguments) (c : Candidate ι) :
    Deepening fun d => evalExpansion (evalBody d) s call a context output c :=
  fun d d' h => evalExpansion_agrees
    (fun s nodes context output => evalBody_deepening s nodes context output d d' h)
    s context output call a c

theorem evalExpansions_deepening (call : Call) (a : Arguments) (cs : List (Candidate ι)) :
    Deepening fun d => evalExpansions (evalBody d) s call a context output cs :=
  fun d d' h => evalExpansions_agrees
    (fun s nodes context output => evalBody_deepening s nodes context output d d' h)
    s context output call a cs

theorem evalNode_deepening (n : Node ι) :
    Deepening fun d => evalNode (evalBody d) s context output n :=
  fun d d' h => evalNode_agrees
    (fun s nodes context output => evalBody_deepening s nodes context output d d' h)
    s context output n

theorem evalNodes_deepening (nodes : List (Node ι)) :
    Deepening fun d => evalNodes (evalBody d) s context output nodes :=
  fun d d' h => evalNodes_agrees
    (fun s nodes context output => evalBody_deepening s nodes context output d d' h)
    s context output nodes

end Families

/-! ## Entering -/

/-- The bodies that a task enters, from a progress on. -/
inductive Task.Enters (s : Scope ι) (context : List Text) (output : Bool) :
    Task ι → Progress ι → Visit.Kind → Visit ι → Prop where
  | ruleset {selectors : List Text} {nodes : List (Node ι)} {p : Progress ι} :
    Task.Enters s context output (.ruleset selectors nodes) p .block
      ⟨s.enter nodes, nodes, selectors, output, { p with places := p.places.push Option.none }⟩
  | imported {reference : Bool} {nodes : List (Node ι)} {p : Progress ι} :
    Task.Enters s context output (.imported reference nodes) p .imported
      ⟨s, nodes, context, output && ! reference, p⟩
  | detached {nodes : List (Node ι)} {p : Progress ι} :
    Task.Enters s context output (.detached nodes) p .detached
      ⟨s.enter nodes, nodes, context, output, p⟩
  /-- The first definition, if not too many are being expanded. -/
  | expansion {call : Call} {a : Arguments} {c : Candidate ι} {rest : List (Candidate ι)}
      {p : Progress ι} (room : p.expanding.length < maxExpansions) :
    Task.Enters s context output (.expansions call a (c :: rest)) p .expansion
      ⟨c.scope s a, c.definition.body, context, output,
        { p with expanding := c.definition.tag :: p.expanding }⟩
  /-- A definition after one that is done. -/
  | later {call : Call} {a : Arguments} {c : Candidate ι} {rest : List (Candidate ι)}
      {p q : Progress ι} {declares : Bool} {k : Visit.Kind} {v : Visit ι}
      (done : ComesTo (fun d => evalExpansion (evalBody d) s call a context output c) p declares q)
      (enters : Task.Enters s context output (.expansions call a rest) q k v) :
    Task.Enters s context output (.expansions call a (c :: rest)) p k v

/-- The bodies that the nodes of a body enter, from a progress on. -/
inductive NodesEnter (s : Scope ι) (context : List Text) (output : Bool) :
    List (Node ι) → Progress ι → Visit.Kind → Visit ι → Prop where
  | here {n : Node ι} {rest : List (Node ι)} {p : Progress ι} {t : Task ι} {k : Visit.Kind}
      {v : Visit ι} (asks : s.task p.expanding context n = .ok t)
      (enters : t.Enters s context output p k v) :
    NodesEnter s context output (n :: rest) p k v
  /-- By a node after one that is done. -/
  | later {n : Node ι} {rest : List (Node ι)} {p q : Progress ι} {declares : Bool} {k : Visit.Kind}
      {v : Visit ι}
      (done : ComesTo (fun d => evalNode (evalBody d) s context output n) p declares q)
      (enters : NodesEnter s context output rest q k v) :
    NodesEnter s context output (n :: rest) p k v

namespace Visit

/-- The evaluation of a visit to a depth. -/
def eval (v : Visit ι) (depth : Nat) : Eval ι Bool :=
  evalBody depth v.scope v.nodes v.context v.output

/-- Whether the depth is enough for the visit. -/
def EndsWithin (depth : Nat) (v : Visit ι) : Prop := Finishes (v.eval depth) v.progress

/-- One visit enters another. -/
def Enters (k : Visit.Kind) (v w : Visit ι) : Prop :=
  NodesEnter v.scope v.context v.output v.nodes v.progress k w

end Visit

/-! ## A visit ends after those it enters -/

theorem Task.Enters.endsWithin {s : Scope ι} {context : List Text} {output : Bool} {t : Task ι}
    {p : Progress ι} {k : Visit.Kind} {v : Visit ι} (h : t.Enters s context output p k v) {d : Nat}
    (hfin : Finishes (evalTask (evalBody d) s context output t) p) : v.EndsWithin d := by
  induction h with
  | ruleset => exact (evalRuleset_finishes _ _ _ _ _ _).mp hfin
  | imported => exact hfin
  | detached => exact hfin
  | @expansion call a c rest p room =>
    have hfirst : Finishes (evalExpansion (evalBody d) s call a context output c) p := hfin.of_bind
    rw [Finishes, evalExpansion_of_room _ _ _ _ _ _ _ room] at hfirst
    exact finishes_whileExpanding.mp hfirst
  | @later call a c rest p q declares k v done _ ih =>
    refine ih (Finishes.of_both (y := fun d => evalExpansions (evalBody d) s call a context output rest)
      (evalExpansion_deepening s context output call a c) done hfin)

theorem NodesEnter.endsWithin {s : Scope ι} {context : List Text} {output : Bool}
    {nodes : List (Node ι)} {p : Progress ι} {k : Visit.Kind} {v : Visit ι}
    (h : NodesEnter s context output nodes p k v) {d : Nat}
    (hfin : Finishes (evalNodes (evalBody d) s context output nodes) p) : v.EndsWithin d := by
  induction h with
  | @here n rest p t k v asks enters =>
    have hfirst : Finishes (evalNode (evalBody d) s context output n) p := hfin.of_bind
    rw [Finishes, evalNode_of_task _ _ _ _ asks] at hfirst
    exact enters.endsWithin hfirst
  | @later n rest p q declares k v done _ ih =>
    exact ih (Finishes.of_both (y := fun d => evalNodes (evalBody d) s context output rest)
      (evalNode_deepening s context output n) done hfin)

/-! ## A visit without end enters one -/

theorem exists_enters_of_expansions {s : Scope ι} {context : List Text} {output : Bool}
    {call : Call} {a : Arguments} {cs : List (Candidate ι)} {p : Progress ι}
    (h : Endless (fun d => evalExpansions (evalBody d) s call a context output cs) p) :
    ∃ k v, Task.Enters s context output (.expansions call a cs) p k v ∧
      ∀ d, ¬ v.EndsWithin d := by
  induction cs generalizing p with
  | nil => exact absurd (by simp [Finishes, evalExpansions]) (h 0)
  | cons c rest ih =>
    rcases endless_both (evalExpansion_deepening s context output call a c)
      (evalExpansions_deepening s context output call a rest) h
      with hhere | ⟨declares, q, hdone, hrest⟩
    · by_cases hfull : maxExpansions ≤ p.expanding.length
      · -- Too many expansions are an error, which ends the evaluation.
        refine absurd ?_ (hhere 0)
        rw [Finishes, evalExpansion_of_full _ _ _ _ _ _ _ hfull]
        simp
      · have room := Nat.lt_of_not_le hfull
        refine ⟨_, _, .expansion room, fun d hend => hhere d ?_⟩
        rw [Finishes, evalExpansion_of_room _ _ _ _ _ _ _ room]
        exact finishes_whileExpanding.mpr hend
    · obtain ⟨k, v, henters, hend⟩ := ih hrest
      exact ⟨k, v, .later hdone henters, hend⟩

theorem exists_enters_of_task {s : Scope ι} {context : List Text} {output : Bool} {t : Task ι}
    {p : Progress ι} (h : Endless (fun d => evalTask (evalBody d) s context output t) p) :
    ∃ k v, t.Enters s context output p k v ∧ ∀ d, ¬ v.EndsWithin d := by
  cases t with
  | none declares => exact absurd (by simp [Finishes, evalTask]) (h 0)
  | ruleset selectors nodes =>
    exact ⟨_, _, .ruleset, fun d hend => h d ((evalRuleset_finishes _ _ _ _ _ _).mpr hend)⟩
  | imported reference nodes => exact ⟨_, _, .imported, h⟩
  | detached nodes => exact ⟨_, _, .detached, h⟩
  | expansions call a cs => exact exists_enters_of_expansions h

theorem exists_enters_of_nodes {s : Scope ι} {context : List Text} {output : Bool}
    {nodes : List (Node ι)} {p : Progress ι}
    (h : Endless (fun d => evalNodes (evalBody d) s context output nodes) p) :
    ∃ k v, NodesEnter s context output nodes p k v ∧ ∀ d, ¬ v.EndsWithin d := by
  induction nodes generalizing p with
  | nil => exact absurd (by simp [Finishes, evalNodes]) (h 0)
  | cons n rest ih =>
    rcases endless_both (evalNode_deepening s context output n)
      (evalNodes_deepening s context output rest) h with hhere | ⟨declares, q, hdone, hrest⟩
    · cases asks : s.task p.expanding context n with
      | error e =>
        refine absurd ?_ (hhere 0)
        rw [Finishes, evalNode_of_error _ _ _ _ asks]
        simp
      | ok t =>
        have htask : Endless (fun d => evalTask (evalBody d) s context output t) p := by
          intro d hfin
          refine hhere d ?_
          rwa [Finishes, evalNode_of_task _ _ _ _ asks]
        obtain ⟨k, v, henters, hend⟩ := exists_enters_of_task htask
        exact ⟨k, v, .here asks henters, hend⟩
    · obtain ⟨k, v, henters, hend⟩ := ih hrest
      exact ⟨k, v, .later hdone henters, hend⟩

end

end StyleTypings.Less
