/-
States — what is being expanded where an evaluation stands.

The states of an evaluation are those of the machine that makes it step by step.  Three things
hold in all of them.  No more than 256 definitions are being expanded, since that is looked at
before one more is pushed.  A plain rule set that is pushed is not being expanded: this is
looked at for all that a call selects at once, but whatever comes to its end in between takes
away what it has pushed, and so the definitions being expanded are as they were.  And the error
of too many expansions is raised in a state only if exactly 256 are being expanded in it.

What carries all this from one step to the next is said of what is left to do (`Fits`): each
expansion that is left has a definition to take away, and what it goes on with is fresh below
that definition.  A mixin that calls itself comes to the bound
(`expanding_bounded_endlessMixin`).
-/
import StyleTypings.Proofs.Evaluation.Tasks
import StyleTypings.Proofs.Evaluation.Errors
import StyleTypings.Proofs.Evaluation.Machine

namespace StyleTypings.Less

open Eval

variable {ι : Type} [DecidableEq ι]

/-! ## Candidates that are not being expanded -/

/-- None of the candidates is a plain rule set that is being expanded already. -/
def Fresh (expanding : List ι) (cs : List (Candidate ι)) : Prop :=
  ∀ c ∈ cs, c.isReentry expanding = false

/-- What comes to expansion next is fresh. -/
def Pending.Fresh (expanding : List ι) : Pending ι → Prop
  | .task _ _ _ (.expansions _ _ cs) => Less.Fresh expanding cs
  | _ => True

theorem Candidate.isReentry_of_selection {caller : Scope ι} {a : Arguments} {expanding : List ι}
    {c : Candidate ι} {selection : Selection}
    (h : c.selection caller a expanding = .ok (some selection)) : c.isReentry expanding = false := by
  by_contra reentry
  rw [Candidate.selection, if_pos (by simpa using reentry)] at h
  cases h

theorem isReentry_of_mem_selected {caller : Scope ι} {a : Arguments} {expanding : List ι}
    {cs : List (Candidate ι)} {chosen : List (Candidate ι × Selection)}
    (h : selected caller a expanding cs = .ok chosen) :
    ∀ r ∈ chosen, r.1.isReentry expanding = false := by
  induction cs generalizing chosen with
  | nil =>
    cases h
    exact nofun
  | cons c rest ih =>
    obtain ⟨here, others, hhere, hothers, rfl⟩ := selected_cons_eq_ok h
    intro r hr
    obtain hr | hr := List.mem_append.mp hr
    · obtain ⟨selection, rfl, rfl⟩ := Option.map_eq_some_iff.mp (Option.mem_toList.mp hr)
      exact Candidate.isReentry_of_selection hhere
    · exact ih hothers r hr

/-- What a node asks to be expanded is not being expanded, if it is plain. -/
theorem fresh_of_task {s : Scope ι} {expanding : List ι} {context : List Text} {output : Bool}
    {n : Node ι} {t : Task ι} (h : s.task expanding context n = .ok t) :
    (Pending.task s context output t).Fresh expanding := by
  cases n with
  | statement tag text =>
    simp only [Scope.task, Scope.statementTask] at h
    split at h
    · cases h
      trivial
    · obtain ⟨a, chosen, _, hchosen, rfl⟩ := callTask_cases h
      intro c hc
      obtain ⟨selection, hmem⟩ := mem_expanded hc
      exact isReentry_of_mem_selected hchosen _ hmem
    · split at h <;> cases h
      trivial
    · cases h
      trivial
  | block tag prelude body =>
    obtain ⟨_, rfl⟩ | ⟨_, rfl⟩ := blockTask_cases h <;> trivial
  | imported file reference body =>
    cases h
    trivial

/-! ## What is left to do -/

/-- What is left to do fits the definitions being expanded.  Each expansion that is left takes
one of them away, and goes on with candidates that are fresh without it. -/
inductive Fits : List (Resumption ι) → List ι → Prop where
  | nil : Fits [] []
  | nodes {s : Scope ι} {context : List Text} {output : Bool} {rest : List (Node ι)}
      {later : List (Resumption ι)} {expanding : List ι} (fits : Fits later expanding) :
    Fits (.nodes s context output rest :: later) expanding
  | expansions {s : Scope ι} {context : List Text} {output : Bool} {call : Call} {a : Arguments}
      {rest : List (Candidate ι)} {later : List (Resumption ι)} {tag : ι} {outer : List ι}
      (fresh : Fresh outer rest) (fits : Fits later outer) :
    Fits (.expansions s context output call a rest :: later) (tag :: outer)
  | place {index : Nat} {selectors : List Text} {output : Bool} {later : List (Resumption ι)}
      {expanding : List ι} (fits : Fits later expanding) :
    Fits (.place index selectors output :: later) expanding
  | also {declares : Bool} {later : List (Resumption ι)} {expanding : List ι}
      (fits : Fits later expanding) : Fits (.also declares :: later) expanding

omit [DecidableEq ι] in
@[simp] theorem Progress.fill_expanding (index : Nat) (selectors : List Text)
    (output declares : Bool) (p : Progress ι) :
    (p.fill index selectors output declares).expanding = p.expanding := by
  rw [fill]
  split <;> rfl

namespace Machine

/-- What is being expanded in a state: no more than the bound, and nothing that is about to be
pushed. -/
structure Bounded (m : Machine ι) : Prop where
  length_le : m.progress.expanding.length ≤ maxExpansions
  fresh : m.next.Fresh m.progress.expanding
  fits : Fits m.later m.progress.expanding

variable {sheet : List (Node ι)} {m m' : Machine ι}

theorem start_bounded (sheet : List (Node ι)) : (start sheet).Bounded :=
  ⟨Nat.zero_le _, trivial, .nil⟩

/-- A task goes on within the bound. -/
theorem Bounded.taskStep {s : Scope ι} {context : List Text} {output : Bool} {t : Task ι}
    {later : List (Resumption ι)} {p : Progress ι}
    (h : Bounded ⟨.task s context output t, later, p⟩)
    (step : taskStep s context output later p t = .ok m') : m'.Bounded := by
  obtain ⟨length_le, fresh, fits⟩ := h
  match t with
  | .none _ =>
    cases step
    exact ⟨length_le, trivial, fits⟩
  | .ruleset _ _ =>
    cases step
    exact ⟨length_le, trivial, .place fits⟩
  | .imported _ _ =>
    cases step
    exact ⟨length_le, trivial, fits⟩
  | .detached _ =>
    cases step
    exact ⟨length_le, trivial, fits⟩
  | .expansions _ _ [] =>
    cases step
    exact ⟨length_le, trivial, fits⟩
  | .expansions _ _ (c :: rest) =>
    rw [Machine.taskStep] at step
    split at step
    · cases step
    · rename_i room
      cases step
      exact ⟨Nat.lt_of_not_le room, trivial,
        .expansions (fun c hc => fresh c (List.mem_cons_of_mem _ hc)) fits⟩

/-- What is done leaves the rest as it was before it. -/
theorem Bounded.resume {declares : Bool} {k : Resumption ι} {later : List (Resumption ι)}
    {p : Progress ι} (h : Bounded ⟨.done declares, k :: later, p⟩) :
    (resume declares later p k).Bounded := by
  obtain ⟨length_le, _, fits⟩ := h
  cases k with
  | nodes s context output rest =>
    cases fits with
    | nodes fits => exact ⟨length_le, trivial, .also fits⟩
  | expansions s context output call a rest =>
    obtain ⟨places, expanding⟩ := p
    cases fits with
    | expansions fresh fits =>
      exact ⟨Nat.le_of_succ_le length_le, fresh, .also fits⟩
  | place index selectors output =>
    cases fits with
    | place fits =>
      rw [Machine.resume]
      exact ⟨by simpa using length_le, trivial, by simpa using fits⟩
  | also before =>
    cases fits with
    | also fits => exact ⟨length_le, trivial, fits⟩

/-- The step from any state to the next keeps the bound. -/
theorem Bounded.step (h : m.Bounded) (step : m.step = .inl m') : m'.Bounded := by
  obtain ⟨next, later, p⟩ := m
  obtain ⟨_, _, _, rfl, rfl⟩ | ⟨_, _, _, _, _, _, rfl, asks, rfl⟩ | ⟨_, _, _, _, rfl, task⟩ |
    ⟨_, _, _, rfl, rfl, rfl⟩ := step_cases step
  · exact ⟨h.length_le, trivial, h.fits⟩
  · exact ⟨h.length_le, fresh_of_task asks, .nodes h.fits⟩
  · exact h.taskStep task
  · exact h.resume

/-- So do all steps that follow on a state. -/
theorem Bounded.after (h : m.Bounded) {n : Nat} (after : m.after n = .inl m') : m'.Bounded := by
  induction n generalizing m with
  | zero =>
    cases after
    exact h
  | succ n ih =>
    cases hs : m.step with
    | inl next =>
      rw [after_succ hs] at after
      exact ih (h.step hs) after
    | inr r =>
      rw [Machine.after, hs] at after
      cases after

/-! ## Changes of what is being expanded -/

/-- A candidate is the first of those that are to be expanded next. -/
def Expands (m : Machine ι) (c : Candidate ι) : Prop :=
  ∃ s context output call a rest, m.next = .task s context output (.expansions call a (c :: rest))

/-- A step takes definitions away, or it pushes one that is to be expanded next. -/
theorem expanding_of_step (step : m.step = .inl m') :
    m'.progress.expanding <:+ m.progress.expanding ∨
      ∃ c, m.Expands c ∧ m'.progress.expanding = c.definition.tag :: m.progress.expanding := by
  obtain ⟨next, later, p⟩ := m
  obtain ⟨_, _, _, rfl, rfl⟩ | ⟨_, _, _, _, _, _, rfl, _, rfl⟩ | ⟨s, context, output, t, rfl, task⟩ |
    ⟨_, k, _, rfl, rfl, rfl⟩ := step_cases step
  · exact .inl List.suffix_rfl
  · exact .inl List.suffix_rfl
  · match t with
    | .none _ | .ruleset _ _ | .imported _ _ | .detached _ | .expansions _ _ [] =>
      cases task
      exact .inl List.suffix_rfl
    | .expansions call a (c :: rest) =>
      rw [Machine.taskStep] at task
      split at task
      · cases task
      · cases task
        exact .inr ⟨c, ⟨s, context, output, call, a, rest, rfl⟩, rfl⟩
  · refine .inl ?_
    cases k with
    | nodes | also => exact List.suffix_rfl
    | expansions => exact List.tail_suffix _
    | place => simp [Machine.resume]

/-- Only where there is no room for one more definition is the error of too many raised. -/
theorem full_of_step {call : Text} {limit : Nat}
    (step : m.step = .inr (.error (.mixinRecursion call limit))) :
    maxExpansions ≤ m.progress.expanding.length := by
  obtain ⟨s, context, _, n, _, _, fails⟩ | ⟨_, _, _, _, _, fails⟩ := fails_cases step
  · exact (s.task_ofNode m.progress.expanding context n _ fails).elim
  · obtain ⟨_, _, _, _, _, full, _⟩ := taskStep_eq_error fails
    exact full

end Machine

/-! ## The bound -/

/-- The machine comes to what the evaluation comes to, and where a body is next it goes on as
the evaluation of the body does.  In each of its states at most 256 definitions are being
expanded.  A step takes definitions away, or it pushes one, and that is not being expanded
already if its signature has no parameters.  The error of too many expansions is raised only
where there are exactly 256. -/
theorem expanding_bounded (sheet : List (Node ι)) :
    (∀ r, (∃ n, (Machine.start sheet).after n = .inr r) ↔
      ∃ depth, evaluateWithin depth sheet = r.mapError .error) ∧
    ∀ n m, (Machine.start sheet).after n = .inl m →
      (∀ s context output nodes, m.next = .nodes s context output nodes → ∀ depth,
        m.Comes depth m.later (result (evalBody depth s nodes context output) m.progress)) ∧
      m.progress.expanding.length ≤ 256 ∧
      (∀ m', m.step = .inl m' → m'.progress.expanding <:+ m.progress.expanding ∨
        ∃ c, m.Expands c ∧ m'.progress.expanding = c.definition.tag :: m.progress.expanding ∧
          (c.signature.parametric = false → c.definition.tag ∉ m.progress.expanding)) ∧
      ∀ call limit, m.step = .inr (.error (.mixinRecursion call limit)) →
        m.progress.expanding.length = 256 := by
  refine ⟨Machine.outcome_iff sheet, fun n m reached => ?_⟩
  have bounded := (Machine.start_bounded sheet).after reached
  refine ⟨?_, bounded.length_le, ?_, ?_⟩
  · rintro s context output nodes next depth
    obtain ⟨_, later, p⟩ := m
    cases next
    exact Machine.does_evalBody depth s nodes context output later p
  · intro m' step
    refine (Machine.expanding_of_step step).imp_right ?_
    rintro ⟨c, expands, pushed⟩
    refine ⟨c, expands, pushed, fun plain => ?_⟩
    obtain ⟨s, context, output, call, a, rest, next⟩ := expands
    have fresh := bounded.fresh
    rw [next] at fresh
    simpa [Candidate.isReentry, plain] using fresh c List.mem_cons_self
  · intro call limit step
    exact Nat.le_antisymm bounded.length_le (Machine.full_of_step step)

/-! ### A style sheet that meets it -/

/-- A mixin that calls itself, and a call of it. -/
def endlessMixin : List (Node Nat) :=
  [.block 0 ".m()" [.statement 1 ".m()"], .statement 2 ".m()"]

/-- The mixin, under the signature that it has for the call. -/
def endlessCandidate : Candidate Nat :=
  ⟨⟨0, ".m()", [.statement 1 ".m()"]⟩, ⟨".m", [], false, true, none⟩⟩

theorem endlessMixin_task {s : Scope Nat} (hs : s.find [".m"] = [endlessCandidate.definition])
    (expanding : List Nat) (tag : Nat) :
    s.task expanding [] (.statement tag ".m()") =
      .ok (.expansions ⟨".m()", [".m"], some ""⟩ ⟨[], []⟩ [endlessCandidate]) := by
  have call : Statement.ofText ".m()" = .call ⟨".m()", [".m"], some ""⟩ := rfl
  simp only [Scope.task, Scope.statementTask, call]
  have takers : candidates ".m" ⟨[], []⟩ (s.find [".m"]) = [endlessCandidate] := by
    rw [hs]
    rfl
  have chosen : selected s ⟨[], []⟩ expanding [endlessCandidate] =
      .ok [(endlessCandidate, .always)] := rfl
  refine callTask_of_selected rfl ?_ (List.cons_ne_nil _ _) chosen
  exact takers

/-- As long as there is room, the mixin is expanded inside itself. -/
theorem endlessMixin_reaches {k : Nat} (h : k ≤ maxExpansions) :
    ∃ s n rest later, s.find [".m"] = [endlessCandidate.definition] ∧
      (Machine.start endlessMixin).Reaches
        ⟨.nodes s [] true (.statement n ".m()" :: rest), later, ⟨#[], List.replicate k 0⟩⟩ := by
  induction k with
  | zero => exact ⟨Scope.enter [] endlessMixin, 2, [], _, rfl, 3, rfl⟩
  | succ k ih =>
    obtain ⟨s, n, rest, later, hs, reaches⟩ := ih (Nat.le_of_succ_le h)
    have asks := endlessMixin_task hs (List.replicate k 0) n
    have room : (⟨#[], List.replicate k 0⟩ : Progress Nat).expanding.length < maxExpansions := by
      rwa [List.length_replicate]
    have asked := reaches.trans (.of_step (Machine.step_of_task asks))
    exact ⟨endlessCandidate.scope s ⟨[], []⟩, 1, [], _, hs,
      asked.trans (.of_step (Machine.step_of_room room))⟩

/-- The error of too many expansions is raised, with 256 of them. -/
theorem expanding_bounded_endlessMixin :
    ∃ n m, (Machine.start endlessMixin).after n = .inl m ∧
      m.step = .inr (.error (.mixinRecursion ".m()" 256)) ∧ m.progress.expanding.length = 256 := by
  obtain ⟨s, n, rest, later, hs, reaches⟩ := endlessMixin_reaches (Nat.le_refl maxExpansions)
  have asks := endlessMixin_task hs (List.replicate maxExpansions 0) n
  obtain ⟨k, reached⟩ := reaches.trans (.of_step (Machine.step_of_task asks))
  let p : Progress Nat := ⟨#[], List.replicate maxExpansions 0⟩
  have full : maxExpansions ≤ p.expanding.length := List.length_replicate.ge
  have raises : Machine.step ⟨.task s [] true (.expansions ⟨".m()", [".m"], some ""⟩ ⟨[], []⟩
      [endlessCandidate]), .nodes s [] true rest :: later, p⟩ =
      .inr (.error (.mixinRecursion ".m()" maxExpansions)) := Machine.step_of_full full
  obtain ⟨_, _, _, exactly⟩ := (expanding_bounded endlessMixin).2 k _ reached
  exact ⟨k, _, reached, raises, exactly _ _ raises⟩

end StyleTypings.Less
