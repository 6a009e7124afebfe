/-
Ending — which style sheets can be evaluated.

An evaluation that does not end goes down from body to body for ever.  Expansions
cannot be what it goes down by: no more than so many are allowed inside each other.
Blocks and imported files cannot either, since they hold fewer nodes than what they
stand in.  What is left are the calls of detached rule sets, which nothing counts: an
evaluation ends unless it calls them for ever (`evaluation_ends_iff`), and a detached
rule set that calls itself does so (`selfCall_endless`).
-/
import StyleTypings.Proofs.Evaluation.Tasks
import StyleTypings.Proofs.Evaluation.Visits

namespace StyleTypings.Less

open Eval

variable {ι : Type} [DecidableEq ι]

/-! ## What a step down changes -/

/-- How many definitions are being expanded, which is bounded. -/
def Visit.expansions (v : Visit ι) : Nat := v.progress.expanding.length

/-- An expansion counts one more, within the bound, and other entries none. -/
theorem Task.Enters.expansions {s : Scope ι} {context : List Text} {output : Bool} {t : Task ι}
    {p : Progress ι} {k : Visit.Kind} {v : Visit ι} (h : t.Enters s context output p k v) :
    (k = .expansion ∧ v.expansions = p.expanding.length + 1 ∧ v.expansions ≤ maxExpansions) ∨
      (k ≠ .expansion ∧ v.expansions = p.expanding.length) := by
  induction h with
  | ruleset => exact .inr ⟨nofun, rfl⟩
  | imported => exact .inr ⟨nofun, rfl⟩
  | detached => exact .inr ⟨nofun, rfl⟩
  | expansion room => exact .inl ⟨rfl, rfl, room⟩
  | later done _ ih =>
    rwa [done.leads fun d => evalExpansion_keeps (evalBody_keeps d) _ _ _ _ _ _] at ih

theorem NodesEnter.expansions {s : Scope ι} {context : List Text} {output : Bool}
    {nodes : List (Node ι)} {p : Progress ι} {k : Visit.Kind} {v : Visit ι}
    (h : NodesEnter s context output nodes p k v) :
    (k = .expansion ∧ v.expansions = p.expanding.length + 1 ∧ v.expansions ≤ maxExpansions) ∨
      (k ≠ .expansion ∧ v.expansions = p.expanding.length) := by
  induction h with
  | here _ enters => exact enters.expansions
  | later done _ ih =>
    rwa [done.leads fun d => evalNode_keeps (evalBody_keeps d) _ _ _ _] at ih

/-- Expansions enter the bodies of the definitions expanded, and nothing else. -/
theorem Task.Enters.of_expansions {s : Scope ι} {context : List Text} {output : Bool} {call : Call}
    {a : Arguments} {cs : List (Candidate ι)} {p : Progress ι} {k : Visit.Kind} {v : Visit ι}
    (h : Task.Enters s context output (.expansions call a cs) p k v) :
    k = .expansion ∧ ∃ c ∈ cs, v.scope = c.scope s a ∧ v.nodes = c.definition.body := by
  induction cs generalizing p with
  | nil => cases h
  | cons c rest ih =>
    cases h with
    | expansion => exact ⟨rfl, c, List.mem_cons_self, rfl, rfl⟩
    | later _ enters =>
      obtain ⟨hk, c', hc', hv⟩ := ih enters
      exact ⟨hk, c', List.mem_cons_of_mem c hc', hv⟩

/-- The nodes of a block or an imported file are fewer than those it stands among. -/
theorem NodesEnter.nodes_lt {s : Scope ι} {context : List Text} {output : Bool}
    {nodes : List (Node ι)} {p : Progress ι} {k : Visit.Kind} {v : Visit ι}
    (h : NodesEnter s context output nodes p k v) (hk : k = .block ∨ k = .imported) :
    sizeOf v.nodes < sizeOf nodes := by
  induction h with
  | @here n rest p t k v asks enters =>
    have hn : sizeOf v.nodes < sizeOf n := by
      cases enters with
      | ruleset =>
        obtain ⟨tag, prelude, rfl⟩ := task_ruleset asks
        simp only [Node.block.sizeOf_spec]
        omega
      | imported =>
        obtain ⟨file, rfl⟩ := task_imported asks
        simp only [Node.imported.sizeOf_spec]
        omega
      | detached => cases hk <;> contradiction
      | expansion => cases hk <;> contradiction
      | later _ enters =>
        obtain ⟨rfl, _⟩ := enters.of_expansions
        cases hk <;> contradiction
    simp only [List.cons.sizeOf_spec]
    omega
  | later _ _ ih =>
    have := ih hk
    simp only [List.cons.sizeOf_spec]
    omega

/-! ## Evaluations that end -/

/-- The evaluation of bodies as a descent from visit to visit. -/
def evaluation : Descent Visit.Kind (Visit ι) where
  Enters := Visit.Enters
  EndsWithin := Visit.EndsWithin
  not_endsWithin_zero _ h := h rfl
  endsWithin_of_enters h hend := NodesEnter.endsWithin h hend
  exists_enters h := exists_enters_of_nodes fun d => h (d + 1)

/-- The visit that a style sheet begins with. -/
def Visit.start (nodes : List (Node ι)) : Visit ι :=
  ⟨Scope.enter [] nodes, nodes, [], true, ⟨#[], []⟩⟩

/-- At some depth the evaluation of a style sheet comes to rule sets or to an error. -/
def Ends (nodes : List (Node ι)) : Prop :=
  ∃ depth, (∃ s, evaluateWithin depth nodes = .ok s) ∨
    ∃ e, evaluateWithin depth nodes = .error (.error e)

theorem ends_iff_start (nodes : List (Node ι)) :
    Ends nodes ↔ ∃ depth, (Visit.start nodes).EndsWithin depth := by
  refine exists_congr fun depth => ?_
  rw [Visit.EndsWithin, Finishes, Ne, result_eq_error_iff]
  show _ ↔ ¬ (runWithin depth nodes).1 = _
  unfold evaluateWithin
  rcases runWithin depth nodes with ⟨(_ | e) | declares, p⟩ <;> simp [Except.map]

/-- From some point on, the evaluation of a style sheet expands no mixins, but it
enters detached rule sets again and again. -/
def CallsForEver (nodes : List (Node ι)) : Prop :=
  ∃ run : evaluation.Run (Visit.start nodes),
    (∃ m, ∀ n, m ≤ n → run.kind n ≠ .expansion) ∧ ∀ m, ∃ n, m ≤ n ∧ run.kind n = .detached

/-- In an endless run the expansions come to an end, since they are counted. -/
theorem eventually_no_expansion {v : Visit ι} (run : evaluation.Run v)
    (hv : v.expansions ≤ maxExpansions) : ∃ m, ∀ n, m ≤ n → run.kind n ≠ .expansion := by
  have step := fun n => NodesEnter.expansions (run.enters n)
  refine run.eventually_not (S := (· = .expansion)) Visit.expansions maxExpansions ?_ ?_ ?_
  · intro n
    induction n with
    | zero => rwa [run.visit_zero]
    | succ n ih =>
      rcases step n with ⟨_, _, hle⟩ | ⟨_, heq⟩
      · exact hle
      · exact heq.trans_le ih
  · intro n
    rcases step n with ⟨_, heq, _⟩ | ⟨_, heq⟩
    · exact (Nat.le_succ _).trans_eq heq.symm
    · exact heq.ge
  · intro n hn
    rcases step n with ⟨_, heq, _⟩ | ⟨hk, _⟩
    · exact (Nat.lt_succ_self _).trans_eq heq.symm
    · exact absurd hn hk

/-- An evaluation that does not end calls detached rule sets for ever: there is nothing
else left that it can go down by. -/
theorem callsForEver_of_not_ends {nodes : List (Node ι)} (h : ¬ Ends nodes) : CallsForEver nodes := by
  rw [ends_iff_start, not_exists] at h
  obtain ⟨run⟩ := evaluation.endless_iff.mp h
  obtain ⟨m, hm⟩ := eventually_no_expansion run (Nat.zero_le _)
  refine ⟨run, ⟨m, hm⟩, fun i => ?_⟩
  obtain ⟨n, hn, hdetached⟩ := run.exists_later (S := (· = .detached)) (m := max m i)
    (fun v => sizeOf v.nodes) fun n hn hother => by
      refine NodesEnter.nodes_lt (run.enters n) ?_
      have := hm n ((Nat.le_max_left m i).trans hn)
      cases hk : run.kind n <;> simp_all
  exact ⟨n, (Nat.le_max_right m i).trans hn, hdetached⟩

/-- The evaluation of a style sheet comes to rule sets or to an error exactly when it
does not call detached rule sets for ever. -/
theorem evaluation_ends_iff (nodes : List (Node ι)) : Ends nodes ↔ ¬ CallsForEver nodes := by
  constructor
  · intro hends
    obtain ⟨depth, hend⟩ := (ends_iff_start nodes).mp hends
    rintro ⟨run, _⟩
    exact evaluation.endless_iff.mpr ⟨run⟩ depth hend
  · intro hcalls
    by_contra hends
    exact hcalls (callsForEver_of_not_ends hends)

/-! ## One that does not -/

/-- A body that begins with a call of itself never ends. -/
theorem selfCall_endless {name text : Text} {tag : ι} {rest : List (Node ι)}
    (hcall : Statement.ofText text = .detachedCall name)
    (hown : Frame.detached? (bindingsOf (.statement tag text :: rest)) name = none)
    (context : List Text) (output : Bool) (p : Progress ι) (depth : Nat) (s : Scope ι)
    (hs : s.detached? name = some (.statement tag text :: rest)) :
    ¬ Visit.EndsWithin depth ⟨s, .statement tag text :: rest, context, output, p⟩ := by
  induction depth generalizing s with
  | zero => exact evaluation.not_endsWithin_zero _
  | succ depth ih =>
    intro hend
    have asks : s.task p.expanding context (.statement tag text) =
        .ok (.detached (.statement tag text :: rest)) := by
      simp only [Scope.task, Scope.statementTask, hcall, hs]
    have inside := NodesEnter.endsWithin (.here asks .detached) hend
    refine ih (s.enter _) ?_ inside
    -- Inside the body the name stands for the same body still.
    simp only [Scope.detached?, Scope.enter, List.findSome?_cons, hown]
    exact hs

/-- A detached rule set `@a` that calls itself, and a call of it. -/
def selfCall : List (Node Nat) := [.block 0 "@a:" [.statement 1 "@a()"], .statement 2 "@a()"]

theorem not_ends_selfCall : ¬ Ends selfCall := by
  rw [ends_iff_start]
  rintro ⟨depth, hend⟩
  cases depth with
  | zero => exact evaluation.not_endsWithin_zero _ hend
  | succ depth =>
    -- The definition is passed over, and the call after it enters the body.
    have definition : ComesTo
        (fun d => evalNode (evalBody d) (Scope.enter [] selfCall) [] true
          (.block 0 "@a:" [.statement 1 "@a()"]))
        ⟨#[], []⟩ false ⟨#[], []⟩ := ⟨0, rfl⟩
    have call : (Scope.enter [] selfCall).task [] [] (.statement 2 "@a()") =
        .ok (.detached [.statement 1 "@a()"]) := rfl
    have inside := NodesEnter.endsWithin (.later definition (.here call .detached)) hend
    have hcall : Statement.ofText "@a()" = .detachedCall ['a'] := rfl
    exact selfCall_endless hcall rfl [] true ⟨#[], []⟩ depth _ rfl inside

/-- Not every style sheet that can be read can be evaluated. -/
theorem not_forall_read_ends :
    ¬ ∀ (source : Text) (nodes : List (Node Nat)), readNodes source = .ok nodes →
      Ends (numbered nodes) := by
  intro h
  exact not_ends_selfCall (h "@a: \x7b @a(); \x7d @a();"
    [.block 1 "@a:" [.statement 1 "@a()"], .statement 1 "@a()"] rfl)

end StyleTypings.Less
