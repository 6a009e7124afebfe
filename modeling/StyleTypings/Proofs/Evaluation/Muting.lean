/-
Muting — evaluations with output and without.

Output is a flag that every body hands on to the bodies it enters, and that an import by
reference turns off.  Nothing that decides the course of an evaluation reads it: lookups,
guards, the selection of definitions and the bounds are the same with output and without,
and so is what is declared and what goes wrong.  The flag is read in one place, where a
block fills the place it has taken.  So two evaluations that differ in the flag alone come
to one result and take the same places, all of which stay empty in the one without output
(`evalBody_muted`).

The two are compared step by step (`Mutes`).  The first of them may have its output turned
off half way, by an import, so the relation is shown for either value of its flag.
-/
import StyleTypings.Proofs.Evaluation.Output

namespace StyleTypings.Less

open Eval

variable {ι α β : Type}

/-- Two evaluations that come to the same and take the same places, all of which the second
leaves empty, whatever definitions are being expanded. -/
def Mutes (x y : Eval ι α) : Prop :=
  ∀ expanding, ∃ r added, Adds x expanding r added ∧
    Adds y expanding r (Array.replicate added.size none)

namespace Mutes

theorem pure (a : α) : Mutes (Pure.pure a : Eval ι α) (Pure.pure a) :=
  fun _ => ⟨_, _, .pure a, .pure a⟩

theorem throw (h : Halt) : Mutes (MonadExcept.throw h : Eval ι α) (MonadExcept.throw h) :=
  fun _ => ⟨_, _, .throw h, .throw h⟩

theorem ofExcept (r : Except CompileError α) :
    Mutes (Eval.ofExcept r : Eval ι α) (Eval.ofExcept r) :=
  fun _ => ⟨_, _, .ofExcept r, .ofExcept r⟩

theorem bind {x y : Eval ι α} {f g : α → Eval ι β} (hx : Mutes x y)
    (hf : ∀ a, Mutes (f a) (g a)) : Mutes (x >>= f) (y >>= g) := by
  intro expanding
  obtain ⟨r, first, hloud, hmuted⟩ := hx expanding
  cases r with
  | error h => exact ⟨_, _, hloud.bind_error, hmuted.bind_error⟩
  | ok a =>
    obtain ⟨r, second, hloud', hmuted'⟩ := hf a expanding
    refine ⟨r, first ++ second, hloud.bind hloud', ?_⟩
    rw [Array.size_append, ← Array.replicate_append_replicate]
    exact hmuted.bind hmuted'

/-- A step that both begin with, and that looks at the definitions being expanded. -/
theorem get_bind {f g : List ι → Eval ι α} (h : ∀ expanding, Mutes (f expanding) (g expanding)) :
    Mutes (get >>= fun p => f p.expanding) (get >>= fun p => g p.expanding) := by
  intro expanding
  obtain ⟨r, added, hloud, hmuted⟩ := h expanding expanding
  exact ⟨r, added, hloud.get_bind, hmuted.get_bind⟩

theorem whileExpanding {tag : ι} {x y : Eval ι α} (h : Mutes x y) :
    Mutes (Eval.whileExpanding tag x) (Eval.whileExpanding tag y) := by
  intro expanding
  obtain ⟨r, added, hloud, hmuted⟩ := h (tag :: expanding)
  exact ⟨r, added, hloud.whileExpanding, hmuted.whileExpanding⟩

end Mutes

/-! ## Bodies -/

section Bodies

variable {body : BodyEval ι}
  (mutes : ∀ s nodes context output, Mutes (body s nodes context output) (body s nodes context false))
  (s : Scope ι) (context : List Text) (output : Bool)

include mutes

/-- A block without output takes its place and does not fill it. -/
theorem evalRuleset_mutes (selectors : List Text) (nodes : List (Node ι)) :
    Mutes (evalRuleset body s selectors nodes output) (evalRuleset body s selectors nodes false) := by
  intro expanding
  obtain ⟨r, added, hloud, hmuted⟩ := mutes (s.enter nodes) nodes selectors output expanding
  refine ⟨_, _, evalRuleset_adds hloud, ?_⟩
  have hblock := evalRuleset_adds hmuted
  have hown : ownRuleset selectors false r = none := if_neg fun h => Bool.false_ne_true h.2.1
  rw [hown] at hblock
  rw [Array.size_append, ← Array.replicate_append_replicate]
  exact hblock

theorem evalExpansion_mutes (call : Call) (a : Arguments) (c : Candidate ι) :
    Mutes (evalExpansion body s call a context output c)
      (evalExpansion body s call a context false c) := by
  refine .get_bind (f := fun expanding => if maxExpansions ≤ expanding.length then _ else _)
    (g := fun expanding => if maxExpansions ≤ expanding.length then _ else _) fun expanding => ?_
  split
  · exact .throw _
  · exact (mutes _ _ _ _).whileExpanding

theorem evalExpansions_mutes (call : Call) (a : Arguments) (cs : List (Candidate ι)) :
    Mutes (evalExpansions body s call a context output cs)
      (evalExpansions body s call a context false cs) := by
  induction cs with
  | nil => exact .pure _
  | cons c rest ih =>
    exact .bind (evalExpansion_mutes mutes s context output call a c) fun _ =>
      .bind ih fun _ => .pure _

theorem evalTask_mutes (t : Task ι) :
    Mutes (evalTask body s context output t) (evalTask body s context false t) := by
  cases t with
  | none declares => exact .pure _
  | ruleset selectors nodes =>
    exact .bind (evalRuleset_mutes mutes s output selectors nodes) fun _ => .pure _
  | imported reference nodes => exact mutes s nodes context (output && ! reference)
  | detached nodes => exact mutes _ _ _ _
  | expansions call a cs => exact evalExpansions_mutes mutes s context output call a cs

/-- What a node asks for is no matter of output. -/
theorem evalNode_mutes [DecidableEq ι] (n : Node ι) :
    Mutes (evalNode body s context output n) (evalNode body s context false n) := by
  refine .get_bind (f := fun expanding => Eval.ofExcept (s.task expanding context n) >>= _)
    (g := fun expanding => Eval.ofExcept (s.task expanding context n) >>= _) fun expanding => ?_
  exact .bind (.ofExcept _) fun t => evalTask_mutes mutes s context output t

theorem evalNodes_mutes [DecidableEq ι] (nodes : List (Node ι)) :
    Mutes (evalNodes body s context output nodes) (evalNodes body s context false nodes) := by
  induction nodes with
  | nil => exact .pure _
  | cons n rest ih =>
    exact .bind (evalNode_mutes mutes s context output n) fun _ => .bind ih fun _ => .pure _

end Bodies

theorem evalBody_mutes [DecidableEq ι] (depth : Nat) : ∀ (s : Scope ι) nodes context output,
    Mutes (evalBody depth s nodes context output) (evalBody depth s nodes context false) := by
  induction depth with
  | zero => exact fun _ _ _ _ => .throw _
  | succ depth ih => exact fun s nodes context output => evalNodes_mutes ih s context output nodes

/-- Whatever places there are and whatever definitions are being expanded, a body comes
without output to what it comes to with output, be it a value or an error.  It adds as many
places, and every one of them is empty. -/
theorem evalBody_muted [DecidableEq ι] (depth : Nat) (s : Scope ι) (nodes : List (Node ι))
    (context : List Text) (expanding : List ι) :
    ∃ r added, Adds (evalBody depth s nodes context true) expanding r added ∧
      Adds (evalBody depth s nodes context false) expanding r (Array.replicate added.size none) :=
  evalBody_mutes depth s nodes context true expanding

end StyleTypings.Less
