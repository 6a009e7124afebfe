/-
Output — what an evaluation adds to the places of the output.

All bodies share one array of places.  A block takes its place when it begins and fills
it when its body is done, after any number of places have been taken behind it.  Yet
an evaluation never looks at the places that are there before, and it fills none of
them:

  `Adds x expanding r added`   whatever the places are, `x` comes to `r` and puts
                               `added` behind them, and afterwards the definitions
                               being expanded are `expanding` again

Here `r` is a value or what the evaluation halts with, so the definitions being expanded
are restored also where it halts.  The relation is closed under the ways in which
evaluations are put together (`Adds.bind` and what follows); only the steps of a block
are shown by hand, since they are the ones that do look at the places
(`evalRuleset_adds`).  Every body then adds something, by induction on the depth
(`evalBody_additive`).
-/
import StyleTypings.Less.Evaluation
import Mathlib.Data.List.ReduceOption

namespace StyleTypings.Less

open Eval

variable {ι α β : Type}

/-! ## Single steps -/

namespace Eval

theorem runFrom_bind (x : Eval ι α) (f : α → Eval ι β) (p : Progress ι) :
    (x >>= f).runFrom p =
      match x.runFrom p with
      | (.ok a, q) => (f a).runFrom q
      | (.error h, q) => (.error h, q) := by
  simp only [runFrom, ExceptT.run_bind, StateT.run_bind]
  rcases x.run.run p with ⟨_ | _, _⟩ <;> rfl

@[simp] theorem runFrom_pure (a : α) (p : Progress ι) :
    (pure a : Eval ι α).runFrom p = (.ok a, p) := rfl

@[simp] theorem runFrom_get (p : Progress ι) :
    (get : Eval ι (Progress ι)).runFrom p = (.ok p, p) := rfl

@[simp] theorem runFrom_modify (f : Progress ι → Progress ι) (p : Progress ι) :
    (modify f : Eval ι PUnit).runFrom p = (.ok ⟨⟩, f p) := rfl

end Eval

/-! ## Adding -/

/-- Whatever the places are, the evaluation comes to a result and puts places behind
them, and afterwards the same definitions are being expanded. -/
def Adds (x : Eval ι α) (expanding : List ι) (r : Except Halt α)
    (added : Array (Option Ruleset)) : Prop :=
  ∀ places, x.runFrom ⟨places, expanding⟩ = (r, ⟨places ++ added, expanding⟩)

/-- What an evaluation comes to and what it adds depend on the definitions being expanded
alone. -/
def Additive (x : Eval ι α) : Prop := ∀ expanding, ∃ r added, Adds x expanding r added

namespace Adds

variable {expanding : List ι}

theorem pure (a : α) : Adds (Pure.pure a : Eval ι α) expanding (.ok a) #[] := by
  intro places
  rw [Array.append_empty]
  rfl

theorem throw (h : Halt) : Adds (MonadExcept.throw h : Eval ι α) expanding (.error h) #[] := by
  intro places
  rw [Array.append_empty]
  rfl

theorem ofExcept (r : Except CompileError α) :
    Adds (Eval.ofExcept r : Eval ι α) expanding (r.mapError Halt.error) #[] := by
  cases r with
  | ok a => exact .pure a
  | error e => exact .throw (.error e)

/-- What the second part adds stands behind what the first part has added. -/
theorem bind {x : Eval ι α} {f : α → Eval ι β} {a : α} {r : Except Halt β}
    {first second : Array (Option Ruleset)} (hx : Adds x expanding (.ok a) first)
    (hf : Adds (f a) expanding r second) :
    Adds (x >>= f) expanding r (first ++ second) := by
  intro places
  rw [runFrom_bind, hx places, ← Array.append_assoc]
  exact hf (places ++ first)

theorem bind_error {x : Eval ι α} {f : α → Eval ι β} {h : Halt} {added : Array (Option Ruleset)}
    (hx : Adds x expanding (.error h) added) : Adds (x >>= f) expanding (.error h) added := by
  intro places
  rw [runFrom_bind, hx places]

/-- A step that looks at the definitions being expanded, and not at the places. -/
theorem get_bind {f : List ι → Eval ι α} {r : Except Halt α} {added : Array (Option Ruleset)}
    (h : Adds (f expanding) expanding r added) :
    Adds (get >>= fun p => f p.expanding) expanding r added :=
  fun places => h places

theorem whileExpanding {tag : ι} {x : Eval ι α} {r : Except Halt α}
    {added : Array (Option Ruleset)} (h : Adds x (tag :: expanding) r added) :
    Adds (Eval.whileExpanding tag x) expanding r added := by
  intro places
  show ((x.runFrom ⟨places, tag :: expanding⟩).1,
    { (x.runFrom ⟨places, tag :: expanding⟩).2 with
      expanding := (x.runFrom ⟨places, tag :: expanding⟩).2.expanding.tail }) = _
  rw [h places, List.tail_cons]

end Adds

namespace Additive

theorem pure (a : α) : Additive (Pure.pure a : Eval ι α) := fun _ => ⟨_, _, .pure a⟩

theorem throw (h : Halt) : Additive (MonadExcept.throw h : Eval ι α) := fun _ => ⟨_, _, .throw h⟩

theorem ofExcept (r : Except CompileError α) : Additive (Eval.ofExcept r : Eval ι α) :=
  fun _ => ⟨_, _, .ofExcept r⟩

theorem bind {x : Eval ι α} {f : α → Eval ι β} (hx : Additive x) (hf : ∀ a, Additive (f a)) :
    Additive (x >>= f) := by
  intro expanding
  obtain ⟨r, first, hfirst⟩ := hx expanding
  cases r with
  | error h => exact ⟨_, _, hfirst.bind_error⟩
  | ok a =>
    obtain ⟨r, second, hsecond⟩ := hf a expanding
    exact ⟨_, _, hfirst.bind hsecond⟩

theorem get_bind {f : List ι → Eval ι α} (h : ∀ expanding, Additive (f expanding)) :
    Additive (get >>= fun p => f p.expanding) := by
  intro expanding
  obtain ⟨r, added, hadds⟩ := h expanding expanding
  exact ⟨r, added, hadds.get_bind⟩

theorem whileExpanding {tag : ι} {x : Eval ι α} (h : Additive x) :
    Additive (Eval.whileExpanding tag x) := by
  intro expanding
  obtain ⟨r, added, hadds⟩ := h (tag :: expanding)
  exact ⟨r, added, hadds.whileExpanding⟩

end Additive

/-! ## Blocks -/

/-- The rule set that a block makes of its selectors, given what comes of its body. -/
def ownRuleset (selectors : List Text) (output : Bool) (r : Except Halt Bool) : Option Ruleset :=
  if r = .ok true ∧ output = true ∧ selectors ≠ [] then some ⟨selectors⟩ else none

/-- A place is filled where it was taken, with everything that stands behind it now. -/
theorem setIfInBounds_push_append {γ : Type} (places added : Array γ) (old new : γ) :
    (places.push old ++ added).setIfInBounds places.size new = places ++ (#[new] ++ added) := by
  apply Array.toList_inj.mp
  simp

/-- A block adds its own place in front of what its body adds.  Nothing fills the place
but the block itself, and that only once the body is done. -/
theorem evalRuleset_adds {body : BodyEval ι} {s : Scope ι} {selectors : List Text}
    {nodes : List (Node ι)} {output : Bool} {expanding : List ι} {r : Except Halt Bool}
    {added : Array (Option Ruleset)}
    (h : Adds (body (s.enter nodes) nodes selectors output) expanding r added) :
    Adds (evalRuleset body s selectors nodes output) expanding (r.map fun _ => ())
      (#[ownRuleset selectors output r] ++ added) := by
  intro places
  have hbody := h (places.push none)
  simp only [evalRuleset, runFrom_bind, runFrom_get, runFrom_modify, hbody]
  cases r with
  | error e =>
    have hown : ownRuleset selectors output (.error e) = none := if_neg nofun
    rw [hown, Array.push_eq_append, Array.append_assoc]
    rfl
  | ok declares =>
    show (ite _ _ _ : Eval ι Unit).runFrom _ = _
    split
    · rename_i hfill
      have hown : ownRuleset selectors output (.ok declares) = some ⟨selectors⟩ :=
        if_pos (by simpa [and_assoc] using hfill)
      rw [hown, ← setIfInBounds_push_append places added none]
      rfl
    · rename_i hfill
      have hown : ownRuleset selectors output (.ok declares) = none :=
        if_neg (by simpa [and_assoc] using hfill)
      rw [hown, Array.push_eq_append, Array.append_assoc]
      rfl

/-! ## Bodies -/

section Bodies

variable {body : BodyEval ι}
  (additive : ∀ s nodes context output, Additive (body s nodes context output))
  (s : Scope ι) (context : List Text) (output : Bool)

include additive

theorem evalRuleset_additive (selectors : List Text) (nodes : List (Node ι)) :
    Additive (evalRuleset body s selectors nodes output) := by
  intro expanding
  obtain ⟨r, added, h⟩ := additive (s.enter nodes) nodes selectors output expanding
  exact ⟨_, _, evalRuleset_adds h⟩

theorem evalExpansion_additive (call : Call) (a : Arguments) (c : Candidate ι) :
    Additive (evalExpansion body s call a context output c) := by
  refine .get_bind (f := fun expanding => if maxExpansions ≤ expanding.length then _ else _)
    fun expanding => ?_
  split
  · exact .throw _
  · exact (additive _ _ _ _).whileExpanding

theorem evalExpansions_additive (call : Call) (a : Arguments) (cs : List (Candidate ι)) :
    Additive (evalExpansions body s call a context output cs) := by
  induction cs with
  | nil => exact .pure _
  | cons c rest ih =>
    exact .bind (evalExpansion_additive additive s context output call a c) fun _ =>
      .bind ih fun _ => .pure _

theorem evalTask_additive (t : Task ι) : Additive (evalTask body s context output t) := by
  cases t with
  | none declares => exact .pure _
  | ruleset selectors nodes =>
    exact .bind (evalRuleset_additive additive s output selectors nodes) fun _ => .pure _
  | imported reference nodes => exact additive _ _ _ _
  | detached nodes => exact additive _ _ _ _
  | expansions call a cs => exact evalExpansions_additive additive s context output call a cs

theorem evalNode_additive [DecidableEq ι] (n : Node ι) :
    Additive (evalNode body s context output n) := by
  refine .get_bind (f := fun expanding => Eval.ofExcept (s.task expanding context n) >>= _)
    fun expanding => ?_
  exact .bind (.ofExcept _) fun t => evalTask_additive additive s context output t

theorem evalNodes_additive [DecidableEq ι] (nodes : List (Node ι)) :
    Additive (evalNodes body s context output nodes) := by
  induction nodes with
  | nil => exact .pure _
  | cons n rest ih =>
    exact .bind (evalNode_additive additive s context output n) fun _ => .bind ih fun _ => .pure _

end Bodies

/-- Whatever stands in the output before, a body adds the same to it. -/
theorem evalBody_additive [DecidableEq ι] (depth : Nat) :
    ∀ (s : Scope ι) nodes context output, Additive (evalBody depth s nodes context output) := by
  induction depth with
  | zero => exact fun _ _ _ _ => .throw _
  | succ depth ih =>
    exact fun s nodes context output => evalNodes_additive ih s context output nodes

/-- Given the definitions being expanded, a body comes to one result and adds one list of
places, whatever places there are; and of the rule sets that a block adds, its own comes
first, exactly when its body declares something, there is output, and it has selectors,
and those of its body follow. -/
theorem evalBody_compositional [DecidableEq ι] (depth : Nat) (expanding : List ι) :
    (∀ (s : Scope ι) nodes context output,
      ∃ r added, Adds (evalBody depth s nodes context output) expanding r added) ∧
    ∀ (s : Scope ι) selectors nodes output, ∃ r inner added,
      Adds (evalBody depth (s.enter nodes) nodes selectors output) expanding r inner ∧
      Adds (evalRuleset (evalBody depth) s selectors nodes output) expanding
        (r.map fun _ => ()) added ∧
      added.toList.reduceOption =
        (if r = .ok true ∧ output = true ∧ selectors ≠ [] then [⟨selectors⟩] else []) ++
          inner.toList.reduceOption := by
  refine ⟨fun s nodes context output => evalBody_additive depth s nodes context output expanding,
    fun s selectors nodes output => ?_⟩
  obtain ⟨r, inner, h⟩ := evalBody_additive depth (s.enter nodes) nodes selectors output expanding
  refine ⟨r, inner, _, h, evalRuleset_adds h, ?_⟩
  rw [Array.toList_append, List.reduceOption_append, ownRuleset]
  congr 1
  split <;> rfl

end StyleTypings.Less
