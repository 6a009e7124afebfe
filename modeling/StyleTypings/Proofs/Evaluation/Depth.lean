/-
Depth — what the evaluation of a body does not depend on, and what it leaves alone.

A body that finishes at some depth finishes in the same way at every greater depth
(`evalBody_deepening`), and a body that comes to an end leaves the definitions being
expanded as they were (`evalBody_keeps`).  Both are shown of the evaluation of nodes
over any evaluation of bodies that has the property, and then by induction on the
depth.
-/
import StyleTypings.Less.Evaluation
import StyleTypings.Proofs.Halting

namespace StyleTypings.Less

open Eval

variable {ι α β : Type}

/-! ## Single steps -/

namespace Eval

theorem result_eq_error_iff (x : Eval ι α) (p : Progress ι) (h : Halt) :
    result x p = .error h ↔ (x.runFrom p).1 = .error h := by
  simp only [result, runFrom]
  rcases x.run.run p with ⟨_ | _, _⟩ <;> simp

theorem runFrom_of_result {x : Eval ι α} {p q : Progress ι} {a : α} (h : result x p = .ok (a, q)) :
    x.runFrom p = (.ok a, q) := by
  simp only [result, runFrom] at h ⊢
  split at h
  · rename_i heq
    cases h
    exact heq
  · cases h

@[simp] theorem result_throw (h : Halt) (p : Progress ι) :
    result (throw h : Eval ι α) p = .error h := rfl

@[simp] theorem result_get (p : Progress ι) : result (get : Eval ι (Progress ι)) p = .ok (p, p) :=
  rfl

@[simp] theorem result_modify (f : Progress ι → Progress ι) (p : Progress ι) :
    result (modify f : Eval ι PUnit) p = .ok (⟨⟩, f p) := rfl

@[simp] theorem result_ofExcept_ok (a : α) (p : Progress ι) :
    result (ofExcept (.ok a) : Eval ι α) p = .ok (a, p) := rfl

@[simp] theorem result_ofExcept_error (e : CompileError) (p : Progress ι) :
    result (ofExcept (.error e) : Eval ι α) p = .error (.error e) := rfl

theorem result_whileExpanding (tag : ι) (x : Eval ι α) (p : Progress ι) :
    result (whileExpanding tag x) p =
      (result x { p with expanding := tag :: p.expanding }).map fun r =>
        (r.1, { r.2 with expanding := r.2.expanding.tail }) := by
  simp only [result, whileExpanding, runFrom, ExceptT.run_mk, StateT.run]
  rcases x.run { p with expanding := tag :: p.expanding } with ⟨_ | _, _⟩ <;> rfl

end Eval

/-- An evaluation after which the same definitions are being expanded as before. -/
def Keeps (x : Eval ι α) : Prop := Leads (fun p q => q.expanding = p.expanding) x

namespace Keeps

theorem pure (a : α) : Keeps (Pure.pure a : Eval ι α) := by
  rintro p b q ⟨⟩
  rfl

theorem ofExcept (r : Except CompileError α) : Keeps (Eval.ofExcept r : Eval ι α) := by
  rintro p b q h
  cases r <;> cases h
  rfl

theorem throw (h : Halt) : Keeps (MonadExcept.throw h : Eval ι α) := by
  rintro p b q ⟨⟩

theorem get : Keeps (get : Eval ι (Progress ι)) := by
  rintro p b q ⟨⟩
  rfl

/-- A change of the places alone. -/
theorem modifyPlaces (f : Array (Option Ruleset) → Array (Option Ruleset)) :
    Keeps (modify fun p => { p with places := f p.places } : Eval ι PUnit) := by
  rintro p b q ⟨⟩
  rfl

/-- What is taken away is what was put there, if nothing in between has changed it. -/
theorem whileExpanding (tag : ι) {x : Eval ι α} (hx : Keeps x) : Keeps (whileExpanding tag x) := by
  intro p a q h
  rw [result_whileExpanding] at h
  cases hr : result x { p with expanding := tag :: p.expanding } <;> rw [hr] at h <;> cases h
  rw [hx _ _ _ hr, List.tail_cons]

theorem bind {x : Eval ι α} {f : α → Eval ι β} (hx : Keeps x) (hf : ∀ a, Keeps (f a)) :
    Keeps (x >>= f) :=
  Leads.bind (fun _ _ _ h h' => h'.trans h) hx hf

end Keeps

theorem finishes_whileExpanding {x : Eval ι α} {tag : ι} {p : Progress ι} :
    Finishes (whileExpanding tag x) p ↔
      Finishes x { p with expanding := tag :: p.expanding } := by
  rw [Finishes, Finishes, result_whileExpanding]
  cases result x { p with expanding := tag :: p.expanding } <;> simp [Except.map]

theorem Agrees.whileExpanding {x x' : Eval ι α} (h : Agrees x x') (tag : ι) :
    Agrees (whileExpanding tag x) (whileExpanding tag x') := by
  intro p hfin
  rw [result_whileExpanding, result_whileExpanding, h _ (finishes_whileExpanding.mp hfin)]

/-! ## The definitions being expanded -/

section Keeps

variable {body : BodyEval ι} (keeps : ∀ s nodes context output, Keeps (body s nodes context output))
  (s : Scope ι) (context : List Text) (output : Bool)

include keeps

theorem evalRuleset_keeps (selectors : List Text) (nodes : List (Node ι)) :
    Keeps (evalRuleset body s selectors nodes output) := by
  refine .bind .get fun p => .bind (.modifyPlaces (·.push none)) fun _ =>
    .bind (keeps _ _ _ _) fun declares => ?_
  split
  · exact .modifyPlaces (·.setIfInBounds p.places.size (some ⟨selectors⟩))
  · exact .pure _

theorem evalExpansion_keeps (call : Call) (a : Arguments) (c : Candidate ι) :
    Keeps (evalExpansion body s call a context output c) := by
  refine .bind .get fun p => ?_
  split
  · exact .throw _
  · exact .whileExpanding _ (keeps _ _ _ _)

theorem evalExpansions_keeps (call : Call) (a : Arguments) (cs : List (Candidate ι)) :
    Keeps (evalExpansions body s call a context output cs) := by
  induction cs with
  | nil => exact .pure _
  | cons c rest ih =>
    exact .bind (evalExpansion_keeps keeps s context output call a c) fun _ =>
      .bind ih fun _ => .pure _

theorem evalTask_keeps (t : Task ι) : Keeps (evalTask body s context output t) := by
  cases t with
  | none declares => exact .pure _
  | ruleset selectors nodes =>
    exact .bind (evalRuleset_keeps keeps s output selectors nodes) fun _ => .pure _
  | imported reference nodes => exact keeps _ _ _ _
  | detached nodes => exact keeps _ _ _ _
  | expansions call a cs => exact evalExpansions_keeps keeps s context output call a cs

theorem evalNode_keeps [DecidableEq ι] (n : Node ι) :
    Keeps (evalNode body s context output n) :=
  .bind .get fun _ => .bind (.ofExcept _) fun t => evalTask_keeps keeps s context output t

theorem evalNodes_keeps [DecidableEq ι] (nodes : List (Node ι)) :
    Keeps (evalNodes body s context output nodes) := by
  induction nodes with
  | nil => exact .pure _
  | cons n rest ih =>
    exact .bind (evalNode_keeps keeps s context output n) fun _ => .bind ih fun _ => .pure _

end Keeps

/-- Whatever comes of a body, the same definitions are being expanded afterwards. -/
theorem evalBody_keeps [DecidableEq ι] (depth : Nat) :
    ∀ (s : Scope ι) nodes context output, Keeps (evalBody depth s nodes context output) := by
  induction depth with
  | zero => exact fun _ _ _ _ => .throw _
  | succ depth ih => exact fun s nodes context output => evalNodes_keeps ih s context output nodes

/-! ## Agreement at greater depths -/

section Agrees

variable {body body' : BodyEval ι}
  (agrees : ∀ s nodes context output, Agrees (body s nodes context output)
    (body' s nodes context output))
  (s : Scope ι) (context : List Text) (output : Bool)

include agrees

theorem evalRuleset_agrees (selectors : List Text) (nodes : List (Node ι)) :
    Agrees (evalRuleset body s selectors nodes output)
      (evalRuleset body' s selectors nodes output) :=
  .bind (.refl _) fun _ => .bind (.refl _) fun _ => .bind (agrees _ _ _ _) fun _ => .refl _

theorem evalExpansion_agrees (call : Call) (a : Arguments) (c : Candidate ι) :
    Agrees (evalExpansion body s call a context output c)
      (evalExpansion body' s call a context output c) := by
  refine .bind (.refl _) fun p => ?_
  split
  · exact .refl _
  · exact (agrees _ _ _ _).whileExpanding _

theorem evalExpansions_agrees (call : Call) (a : Arguments) (cs : List (Candidate ι)) :
    Agrees (evalExpansions body s call a context output cs)
      (evalExpansions body' s call a context output cs) := by
  induction cs with
  | nil => exact .refl _
  | cons c rest ih =>
    exact .bind (evalExpansion_agrees agrees s context output call a c) fun _ =>
      .bind ih fun _ => .refl _

theorem evalTask_agrees (t : Task ι) :
    Agrees (evalTask body s context output t) (evalTask body' s context output t) := by
  cases t with
  | none declares => exact .refl _
  | ruleset selectors nodes =>
    exact .bind (evalRuleset_agrees agrees s output selectors nodes) fun _ => .refl _
  | imported reference nodes => exact agrees _ _ _ _
  | detached nodes => exact agrees _ _ _ _
  | expansions call a cs => exact evalExpansions_agrees agrees s context output call a cs

theorem evalNode_agrees [DecidableEq ι] (n : Node ι) :
    Agrees (evalNode body s context output n) (evalNode body' s context output n) :=
  .bind (.refl _) fun _ => .bind (.refl _) fun t => evalTask_agrees agrees s context output t

theorem evalNodes_agrees [DecidableEq ι] (nodes : List (Node ι)) :
    Agrees (evalNodes body s context output nodes) (evalNodes body' s context output nodes) := by
  induction nodes with
  | nil => exact .refl _
  | cons n rest ih =>
    exact .bind (evalNode_agrees agrees s context output n) fun _ => .bind ih fun _ => .refl _

end Agrees

/-- A body that finishes at some depth finishes in the same way at any greater one. -/
theorem evalBody_deepening [DecidableEq ι] (s : Scope ι) (nodes : List (Node ι))
    (context : List Text) (output : Bool) :
    Deepening fun depth => evalBody depth s nodes context output := by
  intro d d' hd
  induction d generalizing d' s nodes context output with
  | zero => exact fun p hfin => absurd rfl hfin
  | succ d ih =>
    obtain ⟨d', rfl⟩ := Nat.exists_eq_add_of_le' (Nat.le_trans (Nat.le_add_left 1 d) hd)
    exact evalNodes_agrees (fun s nodes context output =>
      ih s nodes context output d' (Nat.le_of_succ_le_succ hd)) s context output nodes

end StyleTypings.Less
