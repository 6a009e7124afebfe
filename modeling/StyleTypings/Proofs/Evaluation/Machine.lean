/-
Machines — an evaluation step by step.

An evaluation is written as a recursion, and where it stands in between cannot be seen from
outside.  A machine does the same one step at a time, and it does nothing out of sight.  It
holds what is done next, what is left to do after that, innermost first, and the progress:

    next                        step                         left to do besides
    nodes, the first a node     what the node asks for       the nodes after it
    a rule set                  a place, then its nodes      the place to be filled
    an imported file            its nodes
    a detached rule set         its nodes
    expansions, the first c     c is pushed, then its nodes  the expansions after c
    done                        what is left to do; after an expansion c is taken away

A step fails where a node asks for what cannot be had, and where there are too many expansions.
With nothing left to do, the machine has the rule sets.

The machine comes to what the evaluation comes to, and to nothing if that comes to nothing
(`outcome_iff`).  This is shown of the evaluation of candidates, tasks, nodes and bodies in
turn, each with anything left to do after it (`Comes`).  Where the evaluation does not come to
an end at a depth, the machine makes as many steps; so one that has come to an outcome in some
number of steps has done no less than the evaluation at that depth.
-/
import StyleTypings.Proofs.Evaluation.Visits
import StyleTypings.Proofs.Failures

namespace StyleTypings.Less

open Eval

variable {ι : Type}

/-! ## States and steps -/

/-- What is done next. -/
inductive Pending (ι : Type) where
  /-- The nodes of a body, in order. -/
  | nodes (scope : Scope ι) (context : List Text) (output : Bool) (nodes : List (Node ι))
  /-- What a node of a body asks for. -/
  | task (scope : Scope ι) (context : List Text) (output : Bool) (t : Task ι)
  /-- Nothing but to say whether something has been declared. -/
  | done (declares : Bool)

/-- What is left to do once something is done. -/
inductive Resumption (ι : Type) where
  /-- The nodes of a body after one of them. -/
  | nodes (scope : Scope ι) (context : List Text) (output : Bool) (rest : List (Node ι))
  /-- The definition that has been expanded is taken away, and those after it are expanded. -/
  | expansions (scope : Scope ι) (context : List Text) (output : Bool) (call : Call)
    (arguments : Arguments) (rest : List (Candidate ι))
  /-- The place of a rule set is filled, if its body has declared something. -/
  | place (index : Nat) (selectors : List Text) (output : Bool)
  /-- What has been declared before is added. -/
  | also (declares : Bool)

/-- A state of an evaluation. -/
structure Machine (ι : Type) where
  next : Pending ι
  later : List (Resumption ι)
  progress : Progress ι

namespace Progress

/-- One more definition is being expanded. -/
def push (tag : ι) (p : Progress ι) : Progress ι := { p with expanding := tag :: p.expanding }

/-- The innermost definition is expanded no more. -/
def pop (p : Progress ι) : Progress ι := { p with expanding := p.expanding.tail }

/-- A place is taken. -/
def begin (p : Progress ι) : Progress ι := { p with places := p.places.push none }

/-- A place is filled if there is something to put there. -/
def fill (index : Nat) (selectors : List Text) (output declares : Bool) (p : Progress ι) :
    Progress ι :=
  if declares && output && ! selectors.isEmpty then
    { p with places := p.places.setIfInBounds index (some ⟨selectors⟩) }
  else p

end Progress

namespace Machine

/-- The state in which the evaluation of a style sheet begins. -/
def start (sheet : List (Node ι)) : Machine ι :=
  ⟨.nodes (Scope.enter [] sheet) [] true sheet, [], ⟨#[], []⟩⟩

/-- What is done next for a task. -/
def taskStep (s : Scope ι) (context : List Text) (output : Bool) (later : List (Resumption ι))
    (p : Progress ι) : Task ι → Except CompileError (Machine ι)
  | .none declares => .ok ⟨.done declares, later, p⟩
  | .ruleset selectors nodes =>
    .ok ⟨.nodes (s.enter nodes) selectors output nodes,
      .place p.places.size selectors output :: later, p.begin⟩
  | .imported reference nodes => .ok ⟨.nodes s context (output && ! reference) nodes, later, p⟩
  | .detached nodes => .ok ⟨.nodes (s.enter nodes) context output nodes, later, p⟩
  | .expansions _ _ [] => .ok ⟨.done false, later, p⟩
  | .expansions call a (c :: rest) =>
    if maxExpansions ≤ p.expanding.length then .error (.mixinRecursion call.text maxExpansions)
    else
      .ok ⟨.nodes (c.scope s a) context output c.definition.body,
        .expansions s context output call a rest :: later, p.push c.definition.tag⟩

/-- What is done next when something is done. -/
def resume (declares : Bool) (later : List (Resumption ι)) (p : Progress ι) :
    Resumption ι → Machine ι
  | .nodes s context output rest =>
    ⟨.nodes s context output rest, .also declares :: later, p⟩
  | .expansions s context output call a rest =>
    ⟨.task s context output (.expansions call a rest), .also declares :: later, p.pop⟩
  | .place index selectors output => ⟨.done false, later, p.fill index selectors output declares⟩
  | .also before => ⟨.done (before || declares), later, p⟩

/-- A state that there is unless there is an error. -/
def orFail : Except CompileError (Machine ι) → Machine ι ⊕ Except CompileError Stylesheet
  | .ok m => .inl m
  | .error e => .inr (.error e)

theorem orFail_eq_inl {r : Except CompileError (Machine ι)} {m : Machine ι} :
    orFail r = .inl m ↔ r = .ok m := by
  cases r <;> simp [orFail]

theorem orFail_eq_error {r : Except CompileError (Machine ι)} {e : CompileError} :
    orFail r = .inr (.error e) ↔ r = .error e := by
  cases r <;> simp [orFail]

variable [DecidableEq ι]

/-- The state after one step, or what the evaluation has come to. -/
def step (m : Machine ι) : Machine ι ⊕ Except CompileError Stylesheet :=
  match m.next with
  | .nodes _ _ _ [] => .inl ⟨.done false, m.later, m.progress⟩
  | .nodes s context output (n :: rest) =>
    orFail ((s.task m.progress.expanding context n).map fun t =>
      ⟨.task s context output t, .nodes s context output rest :: m.later, m.progress⟩)
  | .task s context output t => orFail (taskStep s context output m.later m.progress t)
  | .done declares =>
    match m.later with
    | [] => .inr (.ok m.progress.places.toList.reduceOption)
    | k :: later => .inl (resume declares later m.progress k)

/-- The state after so many steps, or what the evaluation has come to before. -/
def after : Nat → Machine ι → Machine ι ⊕ Except CompileError Stylesheet
  | 0, m => .inl m
  | n + 1, m =>
    match m.step with
    | .inl m' => m'.after n
    | .inr r => .inr r

/-! ## Ways to step -/

section

variable {m m' : Machine ι}

/-- The ways to get from one state to the next. -/
theorem step_cases (h : m.step = .inl m') :
    (∃ s context output, m.next = .nodes s context output [] ∧
      m' = ⟨.done false, m.later, m.progress⟩) ∨
    (∃ s context output n rest t, m.next = .nodes s context output (n :: rest) ∧
      s.task m.progress.expanding context n = .ok t ∧
      m' = ⟨.task s context output t, .nodes s context output rest :: m.later, m.progress⟩) ∨
    (∃ s context output t, m.next = .task s context output t ∧
      taskStep s context output m.later m.progress t = .ok m') ∨
    ∃ declares k later, m.next = .done declares ∧ m.later = k :: later ∧
      m' = resume declares later m.progress k := by
  obtain ⟨next, later, p⟩ := m
  match next with
  | .nodes s context output [] =>
    cases h
    exact .inl ⟨s, context, output, rfl, rfl⟩
  | .nodes s context output (n :: rest) =>
    obtain ⟨t, asks, rfl⟩ := ok_of_map (orFail_eq_inl.mp h)
    exact .inr (.inl ⟨s, context, output, n, rest, t, rfl, asks, rfl⟩)
  | .task s context output t =>
    exact .inr (.inr (.inl ⟨s, context, output, t, rfl, orFail_eq_inl.mp h⟩))
  | .done declares =>
    cases later with
    | nil => cases h
    | cons k later =>
      cases h
      exact .inr (.inr (.inr ⟨declares, k, later, rfl, rfl, rfl⟩))

/-- The ways to fail. -/
theorem fails_cases {e : CompileError} (h : m.step = .inr (.error e)) :
    (∃ s context output n rest, m.next = .nodes s context output (n :: rest) ∧
      s.task m.progress.expanding context n = .error e) ∨
    ∃ s context output t, m.next = .task s context output t ∧
      taskStep s context output m.later m.progress t = .error e := by
  obtain ⟨next, later, p⟩ := m
  match next with
  | .nodes s context output [] => cases h
  | .nodes s context output (n :: rest) =>
    exact .inl ⟨s, context, output, n, rest, rfl, error_of_map (orFail_eq_error.mp h)⟩
  | .task s context output t =>
    exact .inr ⟨s, context, output, t, rfl, orFail_eq_error.mp h⟩
  | .done declares => cases later <;> cases h

section

variable {s : Scope ι} {context : List Text} {output : Bool} {later : List (Resumption ι)}
  {p : Progress ι}

/-- A node is read, and what it asks for is next. -/
theorem step_of_task {n : Node ι} {rest : List (Node ι)} {t : Task ι} (asks : s.task p.expanding context n = .ok t) :
    step ⟨.nodes s context output (n :: rest), later, p⟩ =
      .inl ⟨.task s context output t, .nodes s context output rest :: later, p⟩ := by
  refine orFail_eq_inl.mpr ?_
  show (s.task p.expanding context n).map _ = _
  rw [asks]
  rfl

theorem step_of_error {n : Node ι} {rest : List (Node ι)} {e : CompileError}
    (fails : s.task p.expanding context n = .error e) :
    step ⟨.nodes s context output (n :: rest), later, p⟩ = .inr (.error e) := by
  refine orFail_eq_error.mpr ?_
  show (s.task p.expanding context n).map _ = _
  rw [fails]
  rfl

/-- A definition is pushed if there is room for it. -/
theorem step_of_room {call : Call} {a : Arguments} {c : Candidate ι} {rest : List (Candidate ι)}
    (room : p.expanding.length < maxExpansions) :
    step ⟨.task s context output (.expansions call a (c :: rest)), later, p⟩ =
      .inl ⟨.nodes (c.scope s a) context output c.definition.body,
        .expansions s context output call a rest :: later, p.push c.definition.tag⟩ :=
  orFail_eq_inl.mpr (if_neg (Nat.not_le.mpr room))

theorem step_of_full {call : Call} {a : Arguments} {c : Candidate ι} {rest : List (Candidate ι)}
    (full : maxExpansions ≤ p.expanding.length) :
    step ⟨.task s context output (.expansions call a (c :: rest)), later, p⟩ =
      .inr (.error (.mixinRecursion call.text maxExpansions)) :=
  orFail_eq_error.mpr (if_pos full)

end

omit [DecidableEq ι] in
/-- Of all tasks, only an expansion can fail, for want of room. -/
theorem taskStep_eq_error {s : Scope ι} {context : List Text} {output : Bool}
    {later : List (Resumption ι)} {p : Progress ι} {t : Task ι} {e : CompileError}
    (h : taskStep s context output later p t = .error e) :
    ∃ call a c rest, t = .expansions call a (c :: rest) ∧ maxExpansions ≤ p.expanding.length ∧
      e = .mixinRecursion call.text maxExpansions := by
  match t with
  | .none _ | .ruleset _ _ | .imported _ _ | .detached _ | .expansions _ _ [] => cases h
  | .expansions call a (c :: rest) =>
    rw [taskStep] at h
    split at h
    · rename_i full
      cases h
      exact ⟨call, a, c, rest, rfl, full, rfl⟩
    · cases h

end

/-! ## Runs -/

section Runs

variable {m m' m'' : Machine ι} {r r' : Except CompileError Stylesheet}

theorem after_succ (h : m.step = .inl m') (n : Nat) : m.after (n + 1) = m'.after n := by
  rw [after, h]

theorem after_add {n : Nat} (h : m.after n = .inl m') (k : Nat) :
    m.after (n + k) = m'.after k := by
  induction n generalizing m with
  | zero =>
    cases h
    rw [Nat.zero_add]
  | succ n ih =>
    cases hs : m.step with
    | inl next =>
      rw [after_succ hs] at h
      rw [Nat.succ_add, after_succ hs, ih h]
    | inr r =>
      rw [after, hs] at h
      cases h

/-- A state that is reached after some steps has states before it. -/
theorem after_of_le {n k : Nat} (le : n ≤ k) (h : m.after k = .inl m') :
    ∃ m'', m.after n = .inl m'' := by
  induction n generalizing m k with
  | zero => exact ⟨m, rfl⟩
  | succ n ih =>
    obtain ⟨k, rfl⟩ := Nat.exists_eq_add_of_le' (Nat.le_trans (Nat.le_add_left 1 n) le)
    cases hs : m.step with
    | inl next =>
      rw [after_succ hs] at h ⊢
      exact ih (Nat.le_of_succ_le_succ le) h
    | inr r =>
      rw [after, hs] at h
      cases h

/-- An outcome is there to stay. -/
theorem after_outcome {n k : Nat} (le : n ≤ k) (h : m.after n = .inr r) : m.after k = .inr r := by
  induction n generalizing m k with
  | zero => cases h
  | succ n ih =>
    obtain ⟨k, rfl⟩ := Nat.exists_eq_add_of_le' (Nat.le_trans (Nat.le_add_left 1 n) le)
    cases hs : m.step with
    | inl next =>
      rw [after_succ hs] at h ⊢
      exact ih (Nat.le_of_succ_le_succ le) h
    | inr r' =>
      rw [after, hs] at h ⊢
      exact h

/-- There is one outcome. -/
theorem outcome_unique {n k : Nat} (h : m.after n = .inr r) (h' : m.after k = .inr r') : r = r' := by
  have first := after_outcome (Nat.le_max_left n k) h
  rw [after_outcome (Nat.le_max_right n k) h'] at first
  exact (Sum.inr.inj first).symm

/-- One state comes after another. -/
def Reaches (m m' : Machine ι) : Prop := ∃ n, m.after n = .inl m'

theorem Reaches.refl (m : Machine ι) : m.Reaches m := ⟨0, rfl⟩

theorem Reaches.of_step (h : m.step = .inl m') : m.Reaches m' := ⟨1, by rw [after_succ h]; rfl⟩

theorem Reaches.trans (h : m.Reaches m') (h' : m'.Reaches m'') : m.Reaches m'' := by
  obtain ⟨n, hn⟩ := h
  obtain ⟨k, hk⟩ := h'
  exact ⟨n + k, (after_add hn k).trans hk⟩

/-- What follows on a state that is reached comes as many steps later. -/
theorem Reaches.after (h : m.Reaches m') {k : Nat} (h' : m'.after k = .inl m'') :
    ∃ n, k ≤ n ∧ m.after n = .inl m'' := by
  obtain ⟨n, hn⟩ := h
  exact ⟨n + k, Nat.le_add_left k n, (after_add hn k).trans h'⟩

end Runs

/-! ## What an evaluation comes to -/

/-- From a state on, a machine comes to what an evaluation comes to: it is done, with what was
left to do before it; it fails; or it makes as many steps as the evaluation has depth. -/
def Comes (depth : Nat) (m : Machine ι) (later : List (Resumption ι)) :
    Except Halt (Bool × Progress ι) → Prop
  | .ok (declares, q) => m.Reaches ⟨.done declares, later, q⟩
  | .error (.error e) => ∃ m', m.Reaches m' ∧ m'.step = .inr (.error e)
  | .error .unfinished => ∃ m', m.after depth = .inl m'

namespace Comes

variable {depth : Nat} {m m' : Machine ι} {later : List (Resumption ι)}
  {r : Except Halt (Bool × Progress ι)}

/-- Steps before a state change nothing. -/
theorem of_reaches (reaches : m.Reaches m') (h : Comes depth m' later r) :
    Comes depth m later r := by
  match r with
  | .ok (declares, q) => exact reaches.trans h
  | .error (.error e) =>
    obtain ⟨last, more, fails⟩ := h
    exact ⟨last, reaches.trans more, fails⟩
  | .error .unfinished =>
    obtain ⟨last, more⟩ := h
    obtain ⟨n, le, all⟩ := reaches.after more
    exact after_of_le le all

/-- A step into a body counts one of the depth. -/
theorem of_step (step : m.step = .inl m') (h : Comes depth m' later r) :
    Comes (depth + 1) m later r := by
  match r with
  | .ok (declares, q) => exact (Reaches.of_step step).trans h
  | .error (.error e) =>
    obtain ⟨last, more, fails⟩ := h
    exact ⟨last, (Reaches.of_step step).trans more, fails⟩
  | .error .unfinished =>
    obtain ⟨last, more⟩ := h
    exact ⟨last, (after_succ step depth).trans more⟩

/-- An outcome that is changed on the way back, by a step. -/
theorem map {k : Resumption ι} {g : Bool × Progress ι → Bool × Progress ι}
    (h : Comes depth m (k :: later) r)
    (resumes : ∀ declares q, resume declares later q k =
      ⟨.done (g (declares, q)).1, later, (g (declares, q)).2⟩) :
    Comes depth m later (r.map g) := by
  match r with
  | .ok (declares, q) =>
    have step : Machine.step ⟨.done declares, k :: later, q⟩ = .inl (resume declares later q k) := rfl
    rw [resumes] at step
    exact Reaches.trans h (.of_step step)
  | .error (.error e) => exact h
  | .error .unfinished => exact h

/-- Two evaluations in order, with what is left to do for the second of them. -/
theorem both {k : Resumption ι} {w : Pending ι} {g : Progress ι → Progress ι} {x y : Eval ι Bool}
    {p : Progress ι} (h : Comes depth m (k :: later) r)
    (resumes : ∀ declares q, resume declares later q k = ⟨w, .also declares :: later, g q⟩)
    (first : result x p = r.map fun a => (a.1, g a.2))
    (second : ∀ declares q, r = .ok (declares, q) →
      Comes depth ⟨w, .also declares :: later, g q⟩ (.also declares :: later) (result y (g q))) :
    Comes depth m later
      (result (x >>= fun here => y >>= fun others => pure (here || others)) p) := by
  rw [Halting.result_bind, first]
  match r with
  | .ok (declares, q) =>
    have step : Machine.step ⟨.done declares, k :: later, q⟩ = .inl (resume declares later q k) := rfl
    rw [resumes] at step
    have rest : result (y >>= fun others => pure (declares || others)) (g q) =
        (result y (g q)).map fun b => (declares || b.1, b.2) := by
      rw [Halting.result_bind]
      cases result y (g q) <;> simp [Except.bind, Except.map]
    show Comes depth m later (result (y >>= fun others => pure (declares || others)) (g q))
    rw [rest]
    refine of_reaches (Reaches.trans h (.of_step step)) ?_
    exact (second declares q rfl).map fun others q => rfl
  | .error (.error e) => exact h
  | .error .unfinished => exact h

end Comes

/-! ## Bodies -/

/-- The machine does what the evaluation of bodies to a depth does. -/
def Does (depth : Nat) (body : BodyEval ι) : Prop :=
  ∀ s nodes context output later p,
    Comes depth ⟨.nodes s context output nodes, later, p⟩ later
      (result (body s nodes context output) p)

section Bodies

variable {depth : Nat} {body : BodyEval ι} (does : Does depth body) (s : Scope ι)
  (context : List Text) (output : Bool)

include does

theorem comes_expansions (call : Call) (a : Arguments) (cs : List (Candidate ι))
    (later : List (Resumption ι)) (p : Progress ι) :
    Comes (depth + 1) ⟨.task s context output (.expansions call a cs), later, p⟩ later
      (result (evalExpansions body s call a context output cs) p) := by
  induction cs generalizing later p with
  | nil => exact .of_step rfl (.refl _)
  | cons c rest ih =>
    by_cases full : maxExpansions ≤ p.expanding.length
    · rw [evalExpansions, result_bind_error (evalExpansion_of_full body s context output call a c full)]
      exact ⟨_, .refl _, step_of_full full⟩
    · have room := Nat.lt_of_not_le full
      have expansion := does (c.scope s a) c.definition.body context output
        (.expansions s context output call a rest :: later) (p.push c.definition.tag)
      rw [evalExpansions]
      refine (expansion.of_step (step_of_room room)).both (g := Progress.pop) (fun _ _ => rfl) ?_
        fun _ q _ => ih _ _
      rw [evalExpansion_of_room body s context output call a c room, result_whileExpanding]
      rfl

theorem comes_task (t : Task ι) (later : List (Resumption ι)) (p : Progress ι) :
    Comes (depth + 1) ⟨.task s context output t, later, p⟩ later
      (result (evalTask body s context output t) p) := by
  cases t with
  | none declares => exact .of_step rfl (.refl _)
  | imported reference nodes => exact .of_step rfl (does _ _ _ _ _ _)
  | detached nodes => exact .of_step rfl (does _ _ _ _ _ _)
  | expansions call a cs => exact comes_expansions does s context output call a cs later p
  | ruleset selectors nodes =>
    have inside := does (s.enter nodes) nodes selectors output
      (.place p.places.size selectors output :: later) p.begin
    have filled := inside.map (g := fun a => (false, a.2.fill p.places.size selectors output a.1))
      fun _ _ => rfl
    have evaluated : result (evalTask body s context output (.ruleset selectors nodes)) p =
        (result (body (s.enter nodes) nodes selectors output) p.begin).map
          fun a => (false, a.2.fill p.places.size selectors output a.1) := by
      rw [evalTask, evalRuleset, bind_assoc, result_bind_ok (result_get p), bind_assoc,
        result_bind_ok (result_modify _ p), bind_assoc, Halting.result_bind]
      show (result _ p.begin).bind _ = _
      cases result (body (s.enter nodes) nodes selectors output) p.begin with
      | error h => rfl
      | ok a =>
        show result _ a.2 = .ok (false, a.2.fill _ _ _ a.1)
        rw [Progress.fill]
        split
        · rw [result_bind_ok (result_modify _ a.2), Halting.result_pure]
        · rfl
    rw [evaluated]
    exact .of_step rfl filled

theorem comes_nodes (nodes : List (Node ι)) (later : List (Resumption ι)) (p : Progress ι) :
    Comes (depth + 1) ⟨.nodes s context output nodes, later, p⟩ later
      (result (evalNodes body s context output nodes) p) := by
  induction nodes generalizing later p with
  | nil => exact .of_step rfl (.refl _)
  | cons n rest ih =>
    rw [evalNodes]
    cases asks : s.task p.expanding context n with
    | error e =>
      rw [result_bind_error (evalNode_of_error body s context output asks)]
      exact ⟨_, .refl _, step_of_error asks⟩
    | ok t =>
      have task := comes_task does s context output t (.nodes s context output rest :: later) p
      refine (task.of_reaches (.of_step (step_of_task asks))).both (g := id) (fun _ _ => rfl) ?_ fun _ q _ => ih _ _
      rw [evalNode_of_task body s context output asks]
      cases result (evalTask body s context output t) p <;> rfl

end Bodies

/-- By induction on the depth, which is one less in every body that is entered. -/
theorem does_evalBody (depth : Nat) : Does depth (evalBody (ι := ι) depth) := by
  induction depth with
  | zero => exact fun _ _ _ _ _ _ => ⟨_, rfl⟩
  | succ depth ih =>
    exact fun s nodes context output later p => comes_nodes ih s context output nodes later p

/-! ## Style sheets -/

theorem evaluateWithin_eq (depth : Nat) (sheet : List (Node ι)) :
    evaluateWithin depth sheet =
      (result (evalBody depth (Scope.enter [] sheet) sheet [] true) ⟨#[], []⟩).map
        fun r => r.2.places.toList.reduceOption := by
  simp only [evaluateWithin, runWithin, runFrom, result]
  rcases (evalBody depth (Scope.enter [] sheet) sheet [] true).run.run ⟨#[], []⟩ with ⟨_ | _, _⟩ <;>
    rfl

variable {sheet : List (Node ι)} {depth : Nat}

theorem start_comes (sheet : List (Node ι)) (depth : Nat) :
    Comes depth (start sheet) []
      (result (evalBody depth (Scope.enter [] sheet) sheet [] true) ⟨#[], []⟩) :=
  does_evalBody depth _ _ _ _ _ _

theorem exists_outcome {m m' : Machine ι} {r : Except CompileError Stylesheet}
    (reaches : m.Reaches m') (h : m'.step = .inr r) : ∃ n, m.after n = .inr r := by
  obtain ⟨n, hn⟩ := reaches
  refine ⟨n + 1, (after_add hn 1).trans ?_⟩
  rw [Machine.after, h]

theorem outcome_of_evaluateWithin {r : Except CompileError Stylesheet}
    (h : evaluateWithin depth sheet = r.mapError .error) : ∃ n, (start sheet).after n = .inr r := by
  have comes := start_comes sheet depth
  rw [evaluateWithin_eq] at h
  cases r with
  | ok css =>
    obtain ⟨⟨declares, q⟩, hq, rfl⟩ := ok_of_map h
    rw [hq] at comes
    exact exists_outcome comes rfl
  | error e =>
    rw [error_of_map h] at comes
    obtain ⟨m, reaches, fails⟩ := comes
    exact exists_outcome reaches fails

theorem after_of_unfinished (h : evaluateWithin depth sheet = .error .unfinished) :
    ∃ m, (start sheet).after depth = .inl m := by
  have comes := start_comes sheet depth
  rw [evaluateWithin_eq] at h
  rwa [error_of_map h] at comes

/-- The machine comes to what the evaluation of a style sheet comes to, at whatever depth.  In
as many steps as there are to an outcome, the evaluation of that depth has come to one. -/
theorem outcome_iff (sheet : List (Node ι)) (r : Except CompileError Stylesheet) :
    (∃ n, (start sheet).after n = .inr r) ↔
      ∃ depth, evaluateWithin depth sheet = r.mapError .error := by
  refine ⟨?_, fun ⟨depth, h⟩ => outcome_of_evaluateWithin h⟩
  rintro ⟨n, hn⟩
  refine ⟨n, ?_⟩
  have finished (r' : Except CompileError Stylesheet) (h : evaluateWithin n sheet = r'.mapError .error) :
      evaluateWithin n sheet = r.mapError .error := by
    obtain ⟨k, hk⟩ := outcome_of_evaluateWithin h
    rw [h, outcome_unique hn hk]
  match h : evaluateWithin n sheet with
  | .ok css => exact h ▸ finished (.ok css) h
  | .error (.error e) => exact h ▸ finished (.error e) h
  | .error .unfinished =>
    obtain ⟨m, hm⟩ := after_of_unfinished h
    cases hn.symm.trans hm

end Machine

end StyleTypings.Less
