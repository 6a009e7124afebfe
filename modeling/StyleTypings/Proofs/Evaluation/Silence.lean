/-
Silence — evaluations without output.

Output that is off stays off in every body that is entered, and a body that is evaluated
without output adds no rule sets, whatever it declares.
-/
import StyleTypings.Proofs.Evaluation.Muting
import StyleTypings.Proofs.Evaluation.Outcome
import StyleTypings.Proofs.Scoping

namespace StyleTypings.Less

variable {ι : Type}

/-- Whatever comes of it, it comes with no rule sets. -/
def Silent (o : Except Halt (Bool × Stylesheet)) : Prop := ∀ declares r, o = .ok (declares, r) → r = []

variable [DecidableEq ι]

/-- A body without output adds no rule sets. -/
theorem evalBody_silent (depth : Nat) (s : Scope ι) (nodes : List (Node ι)) (context : List Text)
    (expanding : List ι) : Silent (outcome (evalBody depth s nodes context false) expanding) := by
  obtain ⟨result, added, _, muted⟩ := evalBody_mutes depth s nodes context false expanding
  rw [muted.outcome_eq, Array.toList_replicate]
  cases result with
  | error h => exact nofun
  | ok declares =>
    rintro _ _ ⟨⟩
    simp [List.reduceOption]

/-! ## Visits -/

theorem Task.Enters.output {s : Scope ι} {context : List Text} {output : Bool} {t : Task ι}
    {p : Progress ι} {k : Visit.Kind} {v : Visit ι} (h : t.Enters s context output p k v)
    (hv : v.output = true) : output = true := by
  induction h with
  | ruleset => exact hv
  | imported => exact (Bool.and_eq_true_iff.mp hv).1
  | detached => exact hv
  | expansion => exact hv
  | later _ _ ih => exact ih hv

theorem NodesEnter.output {s : Scope ι} {context : List Text} {output : Bool}
    {nodes : List (Node ι)} {p : Progress ι} {k : Visit.Kind} {v : Visit ι}
    (h : NodesEnter s context output nodes p k v) (hv : v.output = true) : output = true := by
  induction h with
  | here _ enters => exact enters.output hv
  | later _ _ ih => exact ih hv

/-- Only with output are bodies come to that are evaluated with output. -/
theorem output_of_reaches {v w : Visit ι} (h : v.Reaches w) (hw : w.output = true) :
    v.output = true := by
  induction h with
  | refl => exact hw
  | tail _ hstep ih =>
    obtain ⟨k, hstep⟩ := hstep
    exact ih (NodesEnter.output hstep hw)

end StyleTypings.Less
