/-
Inclusion — an import that gives output is the nodes of the file in its place.

An import may stand anywhere: between rule sets, in a block, in a mixin or in another
imported file.  The nodes of the file declare for the block around it, and give output where
the directive stands.  So the nodes themselves in its place leave the result of a style
sheet, and only take a step less of depth (`evaluates_iff_of_spliced`).  What holds of one
holds of all together: a style sheet comes to the same as the one in which all of them
are inlined (`evaluates_inlined_iff`).  Only imports by reference are left there.
-/
import StyleTypings.Proofs.Evaluation.Numbering

namespace StyleTypings.Less

open Relation

variable {ι : Type}

/-! ## One import -/

/-- The nodes of a file put in the place of the import at the head of a list. -/
inductive Spliced : List (Node ι) → List (Node ι) → Prop where
  | splice (file : Location) (nodes rest : List (Node ι)) :
    Spliced (.imported file false nodes :: rest) (nodes ++ rest)

theorem Spliced.step {before after : List (Node ι)} (h : Spliced before after) :
    Step before after := by
  cases h with
  | splice file nodes rest => exact .inline file nodes rest

/-- The nodes of a file in the place of an import, at whatever depth, leave the result of a
style sheet. -/
theorem evaluates_iff_of_spliced {before after : List (Node ι)} (h : Within Spliced before after)
    (r : Except CompileError Stylesheet) :
    Evaluates (numbered before) r ↔ Evaluates (numbered after) r :=
  h.evaluates_iff (fun splice => .single (.here splice.step)) r

/-- A block that gets both a mixin and a rule set from an imported file. -/
def importing (nodes : List (Node Nat)) : List (Node Nat) :=
  [.block 0 ".a" (.statement 1 ".m()" :: nodes)]

def importedNodes : List (Node Nat) :=
  [.block 2 ".m()" [.statement 3 "c: d"], .block 4 ".b" [.statement 5 "c: d"]]

theorem evaluates_importedNodes :
    Within Spliced (importing [.imported ["x.less"] false importedNodes])
        (importing importedNodes) ∧
      Evaluates (numbered (importing importedNodes)) (.ok [⟨[".a"]⟩, ⟨[".a .b"]⟩]) := by
  have splice : Spliced [.imported ["x.less"] false importedNodes] importedNodes :=
    .splice ["x.less"] importedNodes []
  have within : Within Spliced (importing [.imported ["x.less"] false importedNodes])
      (importing importedNodes) := .block 0 ".a" [] (.later (.statement 1 ".m()") (.here splice))
  exact ⟨within, (evaluates_iff_of_spliced within _).mp ⟨5, rfl⟩⟩

/-! ## All imports -/

mutual

/-- A node with the nodes of imported files in the place of the imports. -/
def Node.inlined : Node ι → List (Node ι)
  | .statement tag text => [.statement tag text]
  | .block tag prelude body => [.block tag prelude (inlined body)]
  | .imported file true nodes => [.imported file true (inlined nodes)]
  | .imported _ false nodes => inlined nodes

/-- Nodes with those of imported files in the place of the imports. -/
def inlined : List (Node ι) → List (Node ι)
  | [] => []
  | n :: rest => n.inlined ++ inlined rest

end

/-- Steps among nodes before others. -/
theorem steps_append {before after : List (Node ι)} (h : ReflTransGen (Within Step) before after)
    (rest : List (Node ι)) : ReflTransGen (Within Step) (before ++ rest) (after ++ rest) := by
  refine h.lift (· ++ rest) fun before after step => ?_
  show Within Step (before ++ rest) (after ++ rest)
  induction step with
  | here step => exact .here (step.append rest)
  | block tag prelude between h => exact .block tag prelude (between ++ rest) h
  | imported file reference between h => exact .imported file reference (between ++ rest) h
  | later n _ ih => exact .later n ih

mutual

theorem Node.steps_inlined : ∀ (n : Node ι) (rest : List (Node ι)),
    ReflTransGen (Within Step) (n :: rest) (n.inlined ++ rest)
  | .statement tag text, rest => by
    rw [Node.inlined]
    exact .refl
  | .block tag prelude body, rest => by
    rw [Node.inlined]
    exact (steps_inlined body).lift (fun body => .block tag prelude body :: rest) fun _ _ step =>
      Within.block tag prelude rest step
  | .imported file true nodes, rest => by
    rw [Node.inlined]
    exact (steps_inlined nodes).lift (fun nodes => .imported file true nodes :: rest)
      fun _ _ step => Within.imported file true rest step
  | .imported file false nodes, rest => by
    rw [Node.inlined]
    exact .head (.here (.inline file nodes rest)) (steps_append (steps_inlined nodes) rest)

theorem steps_inlined : ∀ nodes : List (Node ι),
    ReflTransGen (Within Step) nodes (inlined nodes)
  | [] => .refl
  | n :: rest => by
    rw [inlined]
    have first := (steps_inlined rest).lift (n :: ·) fun _ _ step => Within.later n step
    exact first.trans (n.steps_inlined _)

end

/-- A style sheet comes to the same with the nodes of all imported files in their places. -/
theorem evaluates_inlined_iff (sheet : List (Node ι)) (r : Except CompileError Stylesheet) :
    Evaluates (numbered sheet) r ↔ Evaluates (numbered (inlined sheet)) r :=
  Within.evaluates_iff (R := ReflTransGen (Within Step)) id (.here (steps_inlined sheet)) r

end StyleTypings.Less
