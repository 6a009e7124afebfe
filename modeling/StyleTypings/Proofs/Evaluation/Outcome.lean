/-
Outcomes — what an evaluation comes to, apart from the places of the output.

What an additive evaluation comes to depends on the definitions being expanded alone, and
what it leaves in the output is the rule sets of the places it adds.  Both together are
its outcome:

  `outcome x expanding`   what `x` halts with, or its value and its rule sets

The outcome of a body is put together from the outcomes of its parts in the way in which
the body is put together from its parts (`outcome_evalNodes_cons` and what follows), with
no output that is handed on and filled in.  What is said of two style sheets is said of
outcomes, part by part.

An outcome that is not cut off is the same at every greater depth
(`outcome_evalNodes_of_le`).  So a style sheet has at most one result that is no
matter of depth (`Evaluates.unique`).
-/
import StyleTypings.Proofs.Evaluation.Depth
import StyleTypings.Proofs.Evaluation.Output
import StyleTypings.Proofs.Evaluation.Visits

namespace StyleTypings.Less

open Eval

variable {ι α β : Type}

/-- What an evaluation halts with, or its value and the rule sets it adds, given the
definitions being expanded. -/
def outcome (x : Eval ι α) (expanding : List ι) : Except Halt (α × Stylesheet) :=
  (result x ⟨#[], expanding⟩).map fun r => (r.1, r.2.places.toList.reduceOption)

/-- An outcome that is not cut off by the depth. -/
def Settled (o : Except Halt α) : Prop := o ≠ .error .unfinished

theorem Settled.of_bind {o : Except Halt α} {f : α → Except Halt β} (h : Settled (o >>= f)) :
    Settled o := by
  rintro rfl
  exact h rfl

theorem Settled.of_map {o : Except Halt α} {f : α → β} (h : Settled (o.map f)) : Settled o := by
  rintro rfl
  exact h rfl

/-! ## Parts of an evaluation -/

theorem Adds.outcome_eq {x : Eval ι α} {expanding : List ι} {r : Except Halt α}
    {added : Array (Option Ruleset)} (h : Adds x expanding r added) :
    outcome x expanding = r.map fun a => (a, added.toList.reduceOption) := by
  have hrun := h #[]
  simp only [runFrom] at hrun
  simp only [outcome, result, hrun]
  cases r <;> simp [Except.map]

/-- An evaluation with a value comes to it wherever the same definitions are being expanded,
and these are the same afterwards. -/
theorem Additive.result_of_outcome {x : Eval ι α} (hx : Additive x) {p : Progress ι} {a : α}
    {r : Stylesheet} (h : outcome x p.expanding = .ok (a, r)) :
    ∃ q, result x p = .ok (a, q) ∧ q.expanding = p.expanding := by
  obtain ⟨res, added, hadds⟩ := hx p.expanding
  rw [hadds.outcome_eq] at h
  cases res with
  | error e => cases h
  | ok b =>
    cases h
    have hrun := hadds p.places
    simp only [runFrom] at hrun
    exact ⟨⟨p.places ++ added, p.expanding⟩, by simp only [result, hrun], rfl⟩

section Parts

variable {expanding : List ι}

/-- The rule sets of the second part stand behind those of the first. -/
theorem outcome_bind {x : Eval ι α} {f : α → Eval ι β} (hx : Additive x)
    (hf : ∀ a, Additive (f a)) :
    outcome (x >>= f) expanding = (do
      let (a, first) ← outcome x expanding
      let (b, second) ← outcome (f a) expanding
      return (b, first ++ second)) := by
  obtain ⟨r, first, hfirst⟩ := hx expanding
  cases r with
  | error h =>
    rw [hfirst.bind_error.outcome_eq, hfirst.outcome_eq]
    rfl
  | ok a =>
    obtain ⟨r, second, hsecond⟩ := hf a expanding
    rw [(hfirst.bind hsecond).outcome_eq, hfirst.outcome_eq]
    show _ = (outcome (f a) expanding >>= _)
    rw [hsecond.outcome_eq]
    cases r <;> simp [Except.map, bind, Except.bind, pure, Except.pure, List.reduceOption_append]

theorem outcome_whileExpanding {x : Eval ι α} (hx : Additive x) (tag : ι) :
    outcome (whileExpanding tag x) expanding = outcome x (tag :: expanding) := by
  obtain ⟨r, added, h⟩ := hx (tag :: expanding)
  rw [h.whileExpanding.outcome_eq, h.outcome_eq]

/-- An evaluation that agrees with another comes to the same where that one is not cut
off. -/
theorem Agrees.outcome_eq {x x' : Eval ι α} (h : Agrees x x')
    (settled : Settled (outcome x expanding)) : outcome x' expanding = outcome x expanding := by
  have hfin : Finishes x ⟨#[], expanding⟩ := by
    intro hcut
    exact settled (by rw [outcome, hcut]; rfl)
  rw [outcome, outcome, h _ hfin]

end Parts

/-! ## Bodies -/

/-- One outcome after another: what is declared by either, and the rule sets of both. -/
def bothOutcomes (first second : Except Halt (Bool × Stylesheet)) :
    Except Halt (Bool × Stylesheet) := do
  let (here, before) ← first
  let (others, after) ← second
  return (here || others, before ++ after)

theorem bothOutcomes_ok (here : Bool) (before : Stylesheet)
    (o : Except Halt (Bool × Stylesheet)) :
    bothOutcomes (.ok (here, before)) o = o.map fun r => (here || r.1, before ++ r.2) := by
  cases o <;> rfl

@[simp] theorem bothOutcomes_nothing (o : Except Halt (Bool × Stylesheet)) :
    bothOutcomes (.ok (false, [])) o = o := by
  cases o <;> rfl

@[simp] theorem bothOutcomes_before_nothing (o : Except Halt (Bool × Stylesheet)) :
    bothOutcomes o (.ok (false, [])) = o := by
  rcases o with e | ⟨declares, r⟩
  · rfl
  · show Except.ok (declares || false, r ++ []) = _
    rw [Bool.or_false, List.append_nil]

theorem bothOutcomes_eq_ok {x y : Except Halt (Bool × Stylesheet)} {o : Bool × Stylesheet}
    (h : bothOutcomes x y = .ok o) :
    ∃ here before others after, x = .ok (here, before) ∧ y = .ok (others, after) ∧
      o = (here || others, before ++ after) := by
  rcases x with _ | ⟨here, before⟩
  · cases h
  rcases y with _ | ⟨others, after⟩
  · cases h
  · exact ⟨here, before, others, after, rfl, rfl, (Except.ok.inj h).symm⟩

/-- Parts that come to the same unless they are cut off come to the same together. -/
theorem bothOutcomes_congr {x y x' y' : Except Halt (Bool × Stylesheet)}
    (settled : Settled (bothOutcomes x y)) (hx : Settled x → x' = x) (hy : Settled y → y' = y) :
    bothOutcomes x' y' = bothOutcomes x y := by
  rw [hx settled.of_bind]
  cases x with
  | error h => rfl
  | ok r =>
    rw [bothOutcomes_ok] at settled
    rw [hy settled.of_map]

theorem bothOutcomes_assoc (x y z : Except Halt (Bool × Stylesheet)) :
    bothOutcomes (bothOutcomes x y) z = bothOutcomes x (bothOutcomes y z) := by
  rcases x with _ | ⟨a, first⟩
  · rfl
  rcases y with _ | ⟨b, second⟩
  · rfl
  rcases z with _ | ⟨c, third⟩
  · rfl
  show Except.ok _ = Except.ok _
  rw [Bool.or_assoc, List.append_assoc]

/-- Two evaluations of nodes or definitions, one after the other. -/
theorem outcome_both {x y : Eval ι Bool} (hx : Additive x) (hy : Additive y)
    (expanding : List ι) :
    outcome (do let a ← x; let b ← y; return a || b) expanding =
      bothOutcomes (outcome x expanding) (outcome y expanding) := by
  rw [outcome_bind hx fun a => hy.bind fun b => .pure _, bothOutcomes]
  congr 1
  funext ⟨a, first⟩
  show (outcome (y >>= fun b => pure (a || b)) expanding >>= _) = _
  rw [outcome_bind hy fun b => .pure _]
  rcases outcome y expanding with h | ⟨b, second⟩
  · rfl
  · show Except.ok (a || b, first ++ (second ++ [])) = _
    rw [List.append_nil]
    rfl

section Bodies

variable [DecidableEq ι] (depth : Nat) (s : Scope ι) (context : List Text) (output : Bool)
  {expanding : List ι}

/-- The rule set that a block makes of its selectors, as a list. -/
def ownRulesets (selectors : List Text) (output declares : Bool) : Stylesheet :=
  if declares && output && ! selectors.isEmpty then [⟨selectors⟩] else []

theorem outcome_evalTask_ruleset (selectors : List Text) (nodes : List (Node ι)) :
    outcome (evalTask (evalBody depth) s context output (.ruleset selectors nodes)) expanding =
      (outcome (evalBody depth (s.enter nodes) nodes selectors output) expanding).map fun r =>
        (false, ownRulesets selectors output r.1 ++ r.2) := by
  obtain ⟨r, added, h⟩ :=
    evalBody_additive depth (s.enter nodes) nodes selectors output expanding
  have hblock := evalRuleset_adds h
  show outcome (evalRuleset (evalBody depth) s selectors nodes output >>= fun _ => pure false)
    expanding = _
  rw [h.outcome_eq]
  cases r with
  | error e => exact hblock.bind_error.outcome_eq
  | ok declares =>
    rw [(hblock.bind (.pure false)).outcome_eq]
    simp only [Except.map, Array.append_empty, Array.toList_append, List.reduceOption_append]
    congr 3
    simp only [ownRuleset, ownRulesets, Except.ok.injEq, Bool.and_eq_true, and_assoc]
    simp only [Bool.not_eq_true', List.isEmpty_eq_false_iff]
    split <;> rfl

theorem outcome_evalNode_ok {n : Node ι} {t : Task ι}
    (asks : s.task expanding context n = .ok t) :
    outcome (evalNode (evalBody depth) s context output n) expanding =
      outcome (evalTask (evalBody depth) s context output t) expanding := by
  rw [outcome, outcome, evalNode_of_task _ _ _ _ asks]

theorem outcome_evalNode_error {n : Node ι} {e : CompileError}
    (fails : s.task expanding context n = .error e) :
    outcome (evalNode (evalBody depth) s context output n) expanding = .error (.error e) := by
  rw [outcome, evalNode_of_error _ _ _ _ fails]
  rfl

theorem outcome_evalNodes_cons (n : Node ι) (rest : List (Node ι)) :
    outcome (evalNodes (evalBody depth) s context output (n :: rest)) expanding =
      bothOutcomes (outcome (evalNode (evalBody depth) s context output n) expanding)
        (outcome (evalNodes (evalBody depth) s context output rest) expanding) :=
  outcome_both (evalNode_additive (evalBody_additive depth) s context output n)
    (evalNodes_additive (evalBody_additive depth) s context output rest) expanding

theorem outcome_evalNodes_append (nodes rest : List (Node ι)) :
    outcome (evalNodes (evalBody depth) s context output (nodes ++ rest)) expanding =
      bothOutcomes (outcome (evalNodes (evalBody depth) s context output nodes) expanding)
        (outcome (evalNodes (evalBody depth) s context output rest) expanding) := by
  induction nodes with
  | nil => exact (bothOutcomes_nothing _).symm
  | cons n nodes ih =>
    rw [List.cons_append, outcome_evalNodes_cons, outcome_evalNodes_cons, ih, bothOutcomes_assoc]

theorem outcome_evalExpansion_room (call : Call) (a : Arguments) (c : Candidate ι)
    (room : expanding.length < maxExpansions) :
    outcome (evalExpansion (evalBody depth) s call a context output c) expanding =
      outcome (evalBody depth (c.scope s a) c.definition.body context output)
        (c.definition.tag :: expanding) := by
  rw [← outcome_whileExpanding (evalBody_additive depth _ _ _ _), outcome,
    evalExpansion_of_room _ _ _ _ _ _ _ room, outcome]

theorem outcome_evalExpansion_full (call : Call) (a : Arguments) (c : Candidate ι)
    (full : maxExpansions ≤ expanding.length) :
    outcome (evalExpansion (evalBody depth) s call a context output c) expanding =
      .error (.error (.mixinRecursion call.text maxExpansions)) := by
  rw [outcome, evalExpansion_of_full _ _ _ _ _ _ _ full]
  rfl

theorem outcome_evalExpansions_cons (call : Call) (a : Arguments) (c : Candidate ι)
    (rest : List (Candidate ι)) :
    outcome (evalExpansions (evalBody depth) s call a context output (c :: rest)) expanding =
      bothOutcomes (outcome (evalExpansion (evalBody depth) s call a context output c) expanding)
        (outcome (evalExpansions (evalBody depth) s call a context output rest) expanding) :=
  outcome_both (evalExpansion_additive (evalBody_additive depth) s context output call a c)
    (evalExpansions_additive (evalBody_additive depth) s context output call a rest) expanding

end Bodies

/-! ## Greater depths -/

/-- Outcomes at every depth, of which one that is not cut off stays at all greater
depths. -/
def Steady (o : Nat → Except Halt α) : Prop :=
  ∀ d d', d ≤ d' → Settled (o d) → o d' = o d

/-- Outcomes that are not cut off are one, whatever their depths. -/
theorem Steady.eq {o : Nat → Except Halt α} (steady : Steady o) (d d' : Nat)
    (h : Settled (o d)) (h' : Settled (o d')) : o d = o d' := by
  rw [← steady d (max d d') (Nat.le_max_left d d') h,
    steady d' (max d d') (Nat.le_max_right d d') h']

theorem Deepening.steady {x : Nat → Eval ι α} (h : Deepening x) (expanding : List ι) :
    Steady fun d => outcome (x d) expanding :=
  fun d d' hd settled => (h d d' hd).outcome_eq settled

theorem outcome_evalNodes_of_le [DecidableEq ι] {d d' : Nat} (hd : d ≤ d') {s : Scope ι}
    {context : List Text} {output : Bool} {nodes : List (Node ι)} {expanding : List ι}
    (settled : Settled (outcome (evalNodes (evalBody d) s context output nodes) expanding)) :
    outcome (evalNodes (evalBody d') s context output nodes) expanding =
      outcome (evalNodes (evalBody d) s context output nodes) expanding :=
  (evalNodes_deepening s context output nodes).steady expanding d d' hd settled

/-! ## Style sheets -/

section Sheets

variable [DecidableEq ι]

theorem evaluateWithin_eq (depth : Nat) (nodes : List (Node ι)) :
    evaluateWithin depth nodes =
      (outcome (evalBody depth (Scope.enter [] nodes) nodes [] true) []).map (·.2) := by
  obtain ⟨r, added, h⟩ := evalBody_additive depth (Scope.enter [] nodes) nodes [] true []
  rw [h.outcome_eq, evaluateWithin, runWithin, h #[]]
  cases r <;> simp [Except.map]

/-- What the evaluation of a style sheet comes to at some depth: its rule sets or an
error. -/
def Evaluates (nodes : List (Node ι)) (r : Except CompileError Stylesheet) : Prop :=
  ∃ depth, evaluateWithin depth nodes = r.mapError Halt.error

theorem evaluates_iff (nodes : List (Node ι)) (r : Except CompileError Stylesheet) :
    Evaluates nodes r ↔ ∃ depth,
      (outcome (evalBody depth (Scope.enter [] nodes) nodes [] true) []).map (·.2) =
        r.mapError Halt.error := by
  simp only [Evaluates, evaluateWithin_eq]

theorem settled_mapError (r : Except CompileError α) : Settled (r.mapError Halt.error) := by
  cases r <;> simp [Settled, Except.mapError]

theorem mapError_injective : Function.Injective fun r : Except CompileError α =>
    r.mapError Halt.error := by
  rintro (e | a) (e' | a') h <;> cases h <;> rfl

/-- A style sheet has one result at most. -/
theorem Evaluates.unique {nodes : List (Node ι)} {r r' : Except CompileError Stylesheet}
    (h : Evaluates nodes r) (h' : Evaluates nodes r') : r = r' := by
  obtain ⟨d, hd⟩ := (evaluates_iff nodes r).mp h
  obtain ⟨d', hd'⟩ := (evaluates_iff nodes r').mp h'
  have steady : Steady fun d =>
      outcome (evalBody d (Scope.enter [] nodes) nodes [] true) [] :=
    (evalBody_deepening (Scope.enter [] nodes) nodes [] true).steady []
  have same := steady.eq d d' (.of_map (hd ▸ settled_mapError r))
    (.of_map (hd' ▸ settled_mapError r'))
  refine mapError_injective ?_
  show r.mapError Halt.error = r'.mapError Halt.error
  rw [← hd, ← hd', same]

end Sheets

end StyleTypings.Less
