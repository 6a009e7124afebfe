/-
Readings — the bodies that an evaluation reads, and those that a visit enters.

The nodes of a body are evaluated with any evaluator of bodies, and the evaluator is all that
they know of the bodies they lead to.  Which of these they ask it for can be told from outside:
it is made to halt at one of them, with a halt that comes from nowhere else
(`BodyEval.haltingAt`).  If that body is asked for, the evaluation halts in this way, whatever
the halt is; if it is not, the evaluation does not notice.

What a visit enters is said without an evaluator, constructor by constructor, and these are
exactly the bodies that are asked for (`Visit.enters_iff_reads`): none is left out, and none is
entered that the evaluation does not come to.
-/
import StyleTypings.Proofs.Evaluation.Visits

namespace StyleTypings.Less

open Eval

variable {ι : Type}

/-! ## An evaluator that halts at one body -/

open Classical in
/-- A body evaluator that halts at one visit, and is another one elsewhere. -/
noncomputable def BodyEval.haltingAt (body : BodyEval ι) (w : Visit ι) (h : Halt) : BodyEval ι :=
  fun s nodes context output => .mk fun p =>
    if ⟨s, nodes, context, output, p⟩ = w then (.error h, p)
    else (body s nodes context output).runFrom p

/-- A second evaluation comes to what a first one comes to, or else something holds and it halts
in a given way. -/
def Diverts {α : Type} (P : Prop) (h : Halt) (x x' : Eval ι α) (p : Progress ι) : Prop :=
  result x' p = result x p ∨ P ∧ result x' p = .error h

namespace Diverts

variable {α β : Type} {P Q : Prop} {h : Halt} {p : Progress ι}

theorem refl (x : Eval ι α) : Diverts P h x x p := .inl rfl

theorem imp {x x' : Eval ι α} (hx : Diverts P h x x' p) (weaker : P → Q) : Diverts Q h x x' p :=
  hx.imp_right (And.imp_left weaker)

theorem bind {x x' : Eval ι α} {f f' : α → Eval ι β} (hx : Diverts P h x x' p)
    (hf : ∀ a q, result x p = .ok (a, q) → Diverts P h (f a) (f' a) q) :
    Diverts P h (x >>= f) (x' >>= f') p := by
  rcases hx with same | ⟨holds, halts⟩
  · cases done : result x p with
    | error e => exact .inl (by rw [result_bind_error (same.trans done), result_bind_error done])
    | ok r =>
      obtain ⟨a, q⟩ := r
      rw [Diverts, result_bind_ok (same.trans done), result_bind_ok done]
      exact hf a q done
  · exact .inr ⟨holds, result_bind_error halts⟩

theorem whileExpanding {x x' : Eval ι α} (tag : ι)
    (hx : Diverts P h x x' { p with expanding := tag :: p.expanding }) :
    Diverts P h (Eval.whileExpanding tag x) (Eval.whileExpanding tag x') p := by
  rw [Diverts, result_whileExpanding, result_whileExpanding]
  rcases hx with same | ⟨holds, halts⟩
  · exact .inl (by rw [same])
  · exact .inr ⟨holds, by rw [halts]; rfl⟩

end Diverts

/-! ## What is entered is all that is asked for -/

section

variable {w : Visit ι} {h : Halt}

theorem diverts_haltingAt (body : BodyEval ι) (s : Scope ι) (nodes : List (Node ι))
    (context : List Text) (output : Bool) (p : Progress ι) :
    Diverts (⟨s, nodes, context, output, p⟩ = w) h (body s nodes context output)
      (body.haltingAt w h s nodes context output) p := by
  by_cases here : ⟨s, nodes, context, output, p⟩ = w
  · refine .inr ⟨here, ?_⟩
    simp only [result, BodyEval.haltingAt, ExceptT.run_mk, StateT.run, if_pos here]
  · refine .inl ?_
    simp only [result, BodyEval.haltingAt, ExceptT.run_mk, StateT.run, if_neg here]
    rfl

theorem result_haltingAt (body : BodyEval ι) (s : Scope ι) (nodes : List (Node ι))
    (context : List Text) (output : Bool) (p : Progress ι) :
    result (body.haltingAt ⟨s, nodes, context, output, p⟩ h s nodes context output) p =
      .error h := by
  simp only [result, BodyEval.haltingAt, ExceptT.run_mk, StateT.run, if_true]

variable [DecidableEq ι] (s : Scope ι) (context : List Text) (output : Bool) {p : Progress ι}
  (d : Nat)

theorem evalExpansion_diverts (call : Call) (a : Arguments) (c : Candidate ι)
    (rest : List (Candidate ι)) :
    Diverts (∃ k, Task.Enters s context output (.expansions call a (c :: rest)) p k w) h
      (evalExpansion (evalBody d) s call a context output c)
      (evalExpansion ((evalBody d).haltingAt w h) s call a context output c) p := by
  by_cases full : maxExpansions ≤ p.expanding.length
  · exact .inl (by rw [evalExpansion_of_full _ _ _ _ _ _ _ full,
      evalExpansion_of_full _ _ _ _ _ _ _ full])
  · have room := Nat.lt_of_not_le full
    rw [Diverts, evalExpansion_of_room _ _ _ _ _ _ _ room,
      evalExpansion_of_room _ _ _ _ _ _ _ room]
    refine Diverts.whileExpanding _ ((diverts_haltingAt (evalBody d) _ _ _ _ _).imp ?_)
    rintro rfl
    exact ⟨_, .expansion room⟩

theorem evalExpansions_diverts (call : Call) (a : Arguments) (cs : List (Candidate ι)) :
    Diverts (∃ k, Task.Enters s context output (.expansions call a cs) p k w) h
      (evalExpansions (evalBody d) s call a context output cs)
      (evalExpansions ((evalBody d).haltingAt w h) s call a context output cs) p := by
  induction cs generalizing p with
  | nil => exact .refl _
  | cons c rest ih =>
    refine (evalExpansion_diverts s context output d call a c rest).bind fun declares q done => ?_
    refine (ih.imp ?_).bind fun _ _ _ => .refl _
    rintro ⟨k, enters⟩
    exact ⟨k, .later ⟨d, done⟩ enters⟩

theorem evalTask_diverts (t : Task ι) :
    Diverts (∃ k, t.Enters s context output p k w) h (evalTask (evalBody d) s context output t)
      (evalTask ((evalBody d).haltingAt w h) s context output t) p := by
  cases t with
  | none declares => exact .refl _
  | ruleset selectors nodes =>
    refine Diverts.bind ?_ fun _ _ _ => .refl _
    unfold evalRuleset
    rw [Diverts, result_bind_ok (result_get p), result_bind_ok (result_modify _ p),
      result_bind_ok (result_get p), result_bind_ok (result_modify _ p)]
    refine ((diverts_haltingAt (evalBody d) _ _ _ _ _).imp ?_).bind fun _ _ _ => .refl _
    rintro rfl
    exact ⟨_, .ruleset⟩
  | imported reference nodes =>
    refine (diverts_haltingAt (evalBody d) _ _ _ _ _).imp ?_
    rintro rfl
    exact ⟨_, .imported⟩
  | detached nodes =>
    refine (diverts_haltingAt (evalBody d) _ _ _ _ _).imp ?_
    rintro rfl
    exact ⟨_, .detached⟩
  | expansions call a cs => exact evalExpansions_diverts s context output d call a cs

theorem evalNode_diverts (n : Node ι) (rest : List (Node ι)) :
    Diverts (∃ k, NodesEnter s context output (n :: rest) p k w) h
      (evalNode (evalBody d) s context output n)
      (evalNode ((evalBody d).haltingAt w h) s context output n) p := by
  cases asks : s.task p.expanding context n with
  | error e =>
    exact .inl (by rw [evalNode_of_error _ _ _ _ asks, evalNode_of_error _ _ _ _ asks])
  | ok t =>
    rw [Diverts, evalNode_of_task _ _ _ _ asks, evalNode_of_task _ _ _ _ asks]
    refine (evalTask_diverts s context output d t).imp ?_
    rintro ⟨k, enters⟩
    exact ⟨k, .here asks enters⟩

/-- Halting at a visit makes a difference only if the visit is entered. -/
theorem evalNodes_diverts (nodes : List (Node ι)) :
    Diverts (∃ k, NodesEnter s context output nodes p k w) h
      (evalNodes (evalBody d) s context output nodes)
      (evalNodes ((evalBody d).haltingAt w h) s context output nodes) p := by
  induction nodes generalizing p with
  | nil => exact .refl _
  | cons n rest ih =>
    refine (evalNode_diverts s context output d n rest).bind fun declares q done => ?_
    refine (ih.imp ?_).bind fun _ _ _ => .refl _
    rintro ⟨k, enters⟩
    exact ⟨k, .later ⟨d, done⟩ enters⟩

end

/-! ## What is entered is asked for -/

section

variable [DecidableEq ι] {w : Visit ι} {s : Scope ι} {context : List Text} {output : Bool}
  {p : Progress ι} {k : Visit.Kind}

/-- From some depth on, what is done with an evaluator of bodies halts as the evaluator does at a
visit. -/
def HaltsAt {α : Type} (w : Visit ι) (x : BodyEval ι → Eval ι α) (p : Progress ι) : Prop :=
  ∃ d₀, ∀ d, d₀ ≤ d → ∀ h, result (x ((evalBody d).haltingAt w h)) p = .error h

theorem HaltsAt.bind {α β : Type} {x : BodyEval ι → Eval ι α} (hx : HaltsAt w x p)
    (f : α → BodyEval ι → Eval ι β) : HaltsAt w (fun body => x body >>= fun a => f a body) p := by
  obtain ⟨d₀, halts⟩ := hx
  exact ⟨d₀, fun d le h => result_bind_error (halts d le h)⟩

/-- The first part of a sequence is done, or it halts already. -/
theorem HaltsAt.after {α β : Type} {P : Prop} {x : BodyEval ι → Eval ι α}
    {f : α → BodyEval ι → Eval ι β} {a : α} {q : Progress ι}
    (deep : Deepening fun d => x (evalBody d))
    (diverts : ∀ d h, Diverts P h (x (evalBody d)) (x ((evalBody d).haltingAt w h)) p)
    (done : ComesTo (fun d => x (evalBody d)) p a q) (rest : HaltsAt w (f a) q) :
    HaltsAt w (fun body => x body >>= fun a => f a body) p := by
  obtain ⟨d₁, done⟩ := done
  obtain ⟨d₂, halts⟩ := rest
  refine ⟨max d₁ d₂, fun d le h => ?_⟩
  obtain ⟨le₁, le₂⟩ := Nat.max_le.mp le
  have done : result (x (evalBody d)) p = .ok (a, q) :=
    (deep d₁ d le₁ p (.of_ok done)).trans done
  rcases diverts d h with same | ⟨_, halted⟩
  · exact (result_bind_ok (same.trans done)).trans (halts d le₂ h)
  · exact result_bind_error halted

theorem Task.Enters.haltsAt {t : Task ι} (h : t.Enters s context output p k w) :
    HaltsAt w (fun body => evalTask body s context output t) p := by
  induction h with
  | ruleset =>
    refine ⟨0, fun d _ h => result_bind_error ?_⟩
    unfold evalRuleset
    rw [result_bind_ok (result_get _), result_bind_ok (result_modify _ _)]
    exact result_bind_error (result_haltingAt (evalBody d) _ _ _ _ _)
  | imported => exact ⟨0, fun d _ h => result_haltingAt (evalBody d) _ _ _ _ _⟩
  | detached => exact ⟨0, fun d _ h => result_haltingAt (evalBody d) _ _ _ _ _⟩
  | @expansion call a c rest p room =>
    refine ⟨0, fun d _ h => result_bind_error ?_⟩
    rw [evalExpansion_of_room _ _ _ _ _ _ _ room, result_whileExpanding, result_haltingAt]
    rfl
  | @later call a c rest p q declares k w done _ ih =>
    exact .after (evalExpansion_deepening s context output call a c)
      (fun d h => evalExpansion_diverts s context output d call a c rest) done
      (ih.bind fun others _ => pure (declares || others))

theorem NodesEnter.haltsAt {nodes : List (Node ι)}
    (h : NodesEnter s context output nodes p k w) :
    HaltsAt w (fun body => evalNodes body s context output nodes) p := by
  induction h with
  | @here n rest p t k w asks enters =>
    refine HaltsAt.bind (x := fun body => evalNode body s context output n) ?_ _
    obtain ⟨d₀, halts⟩ := enters.haltsAt
    refine ⟨d₀, fun d le h => ?_⟩
    rw [evalNode_of_task _ _ _ _ asks]
    exact halts d le h
  | @later n rest p q declares k w done _ ih =>
    exact .after (evalNode_deepening s context output n)
      (fun d h => evalNode_diverts s context output d n rest) done
      (ih.bind fun others _ => pure (declares || others))

/-- A visit enters another just if evaluating its nodes asks for the evaluation of the other: made
to halt there, in whatever way, they halt in this way. -/
theorem Visit.enters_iff_reads (v w : Visit ι) : (∃ k, v.Enters k w) ↔
    ∃ d₀, ∀ d, d₀ ≤ d → ∀ h,
      result (evalNodes ((evalBody d).haltingAt w h) v.scope v.context v.output v.nodes)
        v.progress = .error h := by
  constructor
  · rintro ⟨k, enters⟩
    exact enters.haltsAt
  · rintro ⟨d₀, halts⟩
    by_contra out
    -- What is not asked for cannot make the evaluation halt in two ways.
    have undiverted (h : Halt) :
        result (evalNodes (evalBody d₀) v.scope v.context v.output v.nodes) v.progress =
          .error h :=
      ((evalNodes_diverts v.scope v.context v.output d₀ v.nodes).resolve_right fun diverted =>
        out diverted.1).symm.trans (halts d₀ (Nat.le_refl d₀) h)
    cases (undiverted .unfinished).symm.trans (undiverted (.error (.undefinedVariable [])))

end

end StyleTypings.Less
