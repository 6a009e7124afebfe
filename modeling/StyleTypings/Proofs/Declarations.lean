/-
Declarations — what a property is set to does not matter.

A style sheet is read for its selectors.  A declaration of a property says no more than
that there is something to be declared for the selectors around it, and so does every
other one in its place: neither declares a symbol, and both ask for the same.  This holds
wherever the declaration stands, also in bodies that are entered from many places, and so
the whole result is the same, rule sets or error (`evaluates_iff_of_reworded`).
-/
import StyleTypings.Proofs.Evaluation.Exchange

namespace StyleTypings.Less

variable {ι κ : Type}

theorem task_of_declaration [DecidableEq ι] (s : Scope ι) (expanding : List ι)
    (context : List Text) (tag : ι) {text : Text} (h : Statement.ofText text = .declaration) :
    s.task expanding context (.statement tag text) = .ok (.none true) := by
  rw [Scope.task, Scope.statementTask, h]

/-- The declaration of a property put in the place of another. -/
inductive Reworded : Node ι → List (Node κ) → Prop where
  | reword (tag : ι) (tag' : κ) {text text' : Text} (h : Statement.ofText text = .declaration)
      (h' : Statement.ofText text' = .declaration) :
    Reworded (.statement tag text) [.statement tag' text']

/-- The same outcome at the same depth. -/
def identical : OutcomeRelation where
  Rel depth _ _ o x := o = x depth
  Import _ := True
  cutOff h := h.symm
  deeper h := h
  const _ := rfl
  both _ _ hx hy := congrArg₂ bothOutcomes hx hy
  block h := congrArg _ h
  imported _ h := h

/-- Declarations of a style sheet replaced by others. -/
def rewording (sheet : List (Node Nat)) : Replacement Nat Nat where
  sheet := sheet
  tags := Eq
  nodes n n' := Reworded n [n']
  invariant _ := True
  unique := biUnique_eq
  unread := by
    rintro _ _ ⟨tag, tag', h, h'⟩ x -
    rw [bindings_of_ofText_ne_inert tag (by simp [h]), bindings_of_ofText_ne_inert tag' (by simp [h'])]
    exact ⟨rfl, rfl⟩
  enter _ _ := trivial
  withValues _ _ := trivial

/-- Style sheets that differ by the texts of declarations come to the same at every depth. -/
theorem rewording_follows (sheet : List (Node Nat)) (depth : Nat) :
    (rewording sheet).pairing.Follows identical depth := by
  refine (rewording sheet).follows identical (fun _ _ _ _ => trivial) ?_ depth
  rintro depth - _ _ ⟨tag, tag', h, h'⟩ - s s' - context output e e' -
  have asks := task_of_declaration s e context tag h
  have asks' := task_of_declaration s' e' context tag' h'
  show outcome (evalNode (evalBody depth) s context output _) e =
    outcome (evalNode (evalBody depth) s' context output _) e'
  rw [outcome_evalNode_ok _ _ _ _ asks, outcome_evalNode_ok _ _ _ _ asks']
  rfl

theorem Reworded.bridge {n : Node ι} {nodes : List (Node ι)} (h : Reworded n nodes) (j : Nat) :
    ∃ m, NodeBridge (fun n n' => Reworded n [n']) [] n nodes j m := by
  obtain @⟨tag, tag', text, text', hbefore, hafter⟩ := h
  refine ⟨.statement j text', ?_, fun k => ?_, List.nil_subperm⟩
  · rw [Node.number]
    exact .reword j j hbefore hafter
  · rw [numberNodes, Node.number]
    exact .statement j k text' .nil

/-- The text of a declaration replaced by that of another, at whatever depth, leaves the
result of a style sheet. -/
theorem evaluates_iff_of_reworded {before after : List (Node ι)}
    (h : Within (Exchange Reworded) before after) (r : Except CompileError Stylesheet) :
    Evaluates (numbered before) r ↔ Evaluates (numbered after) r := by
  obtain ⟨middle, bridge⟩ :
      ∃ middle, Bridge (numbered before) _ [] (numbered before) after middle :=
    h.bridge Reworded.bridge 0
  have same (depth : Nat) :
      outcome (evalBody depth (Scope.enter [] (numbered before)) (numbered before) [] true) [] =
        outcome (evalBody depth (Scope.enter [] middle) middle [] true) [] :=
    (rewording (numbered before)).compares identical (rewording_follows _ depth) bridge.replaced
      trivial
  rw [← bridge.evaluates_iff (.nil _), evaluates_iff, evaluates_iff]
  simp only [same]

/-- A mixin with a declaration, and a rule set that calls it. -/
def declaring (text : Text) : List (Node Nat) :=
  [.block 0 ".m()" [.statement 1 text], .block 2 ".a" [.statement 3 ".m()"]]

/-- What looks like a call in the value of a property makes no difference. -/
theorem evaluates_declaring :
    Within (Exchange Reworded) (declaring "color: red") (declaring "background: .m()") ∧
      Evaluates (numbered (declaring "background: .m()")) (.ok [⟨[".a"]⟩]) := by
  have exchange : Exchange Reworded [.statement 1 "color: red"] [.statement 1 "background: .m()"] :=
    .exchange (Reworded.reword 1 1 rfl rfl) []
  have within : Within (Exchange Reworded) (declaring "color: red") (declaring "background: .m()") :=
    .block 0 ".m()" _ (.here exchange)
  exact ⟨within, (evaluates_iff_of_reworded within _).mp ⟨4, rfl⟩⟩

end StyleTypings.Less
