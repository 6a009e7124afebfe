/-
Halting — computations that carry a state and may halt.

Both loading and evaluation thread a state through steps that may halt, and both are
cut off at a depth.  What is said of them here holds of any such computations, and of
a sequence if it holds of its parts:

  `Finishes m s`   from the state `s` on, `m` comes to a value or to an error,
                   before its depth is used up
  `Agrees m m'`    wherever `m` finishes, `m'` comes to the same
  `Leads R m`      where `m` comes to a value, `R` relates the states before and after
  `Endless m s`    a family `m`, one computation for each depth, finishes at none

A family that agrees with itself at greater depths is `Deepening`.  Such a family
comes to one result or to none, which is what `endless_bind` is about.
-/
import StyleTypings.Less.Error
import Mathlib.Tactic.Common

namespace StyleTypings.Less

/-- Computations that carry a state of type `σ` and may halt. -/
class Halting (m : Type → Type) [Monad m] (σ : outParam Type) where
  /-- What a computation comes to from a state on. -/
  result {α : Type} : m α → σ → Except Halt (α × σ)
  result_pure {α : Type} (a : α) (s : σ) : result (pure a : m α) s = .ok (a, s)
  result_bind {α β : Type} (x : m α) (f : α → m β) (s : σ) :
    result (x >>= f) s = (result x s).bind fun r => result (f r.1) r.2

export Halting (result)

attribute [simp] Halting.result_pure

/-- Computations that keep the state also where they halt. -/
instance {σ : Type} : Halting (ExceptT Halt (StateM σ)) σ where
  result x s :=
    match x.run.run s with
    | (.ok a, t) => .ok (a, t)
    | (.error h, _) => .error h
  result_pure _ _ := rfl
  result_bind x f s := by
    simp only [ExceptT.run_bind, StateT.run_bind]
    rcases x.run.run s with ⟨_ | _, _⟩ <;> rfl

/-- Computations that lose the state where they halt. -/
instance {σ : Type} : Halting (StateT σ (Except Halt)) σ where
  result x s := x.run s
  result_pure _ _ := rfl
  result_bind x f s := by
    rw [StateT.run_bind]
    rcases x.run s with _ | _ <;> rfl

section

variable {m : Type → Type} [Monad m] {σ : Type} [Halting m σ] {α β : Type}

theorem result_bind_ok {x : m α} {f : α → m β} {s t : σ} {a : α} (h : result x s = .ok (a, t)) :
    result (x >>= f) s = result (f a) t := by
  rw [Halting.result_bind, h]
  rfl

theorem result_bind_error {x : m α} {f : α → m β} {s : σ} {e : Halt}
    (h : result x s = .error e) : result (x >>= f) s = .error e := by
  rw [Halting.result_bind, h]
  rfl

/-- A sequence comes to what its second part comes to after the first. -/
theorem of_result_bind {x : m α} {f : α → m β} {s u : σ} {b : β}
    (h : result (x >>= f) s = .ok (b, u)) :
    ∃ a t, result x s = .ok (a, t) ∧ result (f a) t = .ok (b, u) := by
  cases hr : result x s with
  | error e =>
    rw [result_bind_error hr] at h
    cases h
  | ok r =>
    rw [result_bind_ok hr] at h
    exact ⟨r.1, r.2, rfl, h⟩

/-! ## Finishing -/

/-- A computation comes to a value or to an error. -/
def Finishes (x : m α) (s : σ) : Prop := result x s ≠ .error .unfinished

theorem Finishes.pure (a : α) (s : σ) : Finishes (Pure.pure a : m α) s := by simp [Finishes]

theorem Finishes.of_ok {x : m α} {s : σ} {r : α × σ} (h : result x s = .ok r) : Finishes x s := by
  rw [Finishes, h]
  exact nofun

theorem Finishes.of_bind {x : m α} {f : α → m β} {s : σ} (h : Finishes (x >>= f) s) :
    Finishes x s := by
  intro hx
  exact h (result_bind_error hx)

/-- A sequence finishes if its first part does and whatever follows finishes always. -/
theorem Finishes.bind {x : m α} {f : α → m β} {s : σ} (hx : Finishes x s)
    (hf : ∀ a t, Finishes (f a) t) : Finishes (x >>= f) s := by
  cases hr : result x s with
  | error e =>
    rw [Finishes, hr] at hx
    rw [Finishes, result_bind_error hr]
    simpa using hx
  | ok r =>
    rw [Finishes, result_bind_ok hr]
    exact hf r.1 r.2

/-- A second computation comes to what the first does wherever the first finishes. -/
def Agrees (x x' : m α) : Prop := ∀ s, Finishes x s → result x' s = result x s

theorem Agrees.refl (x : m α) : Agrees x x := fun _ _ => rfl

theorem Agrees.bind {x x' : m α} {f f' : α → m β} (hx : Agrees x x')
    (hf : ∀ a, Agrees (f a) (f' a)) : Agrees (x >>= f) (x' >>= f') := by
  intro s h
  have hrun := hx s h.of_bind
  cases hr : result x s with
  | error e =>
    rw [hr] at hrun
    rw [result_bind_error hrun, result_bind_error hr]
  | ok r =>
    rw [hr] at hrun
    rw [Finishes, result_bind_ok hr] at h
    rw [result_bind_ok hrun, result_bind_ok hr]
    exact hf r.1 r.2 h

/-! ## States before and after -/

/-- Where the computation comes to a value, a relation holds between the state before
and the state after. -/
def Leads (R : σ → σ → Prop) (x : m α) : Prop := ∀ s a t, result x s = .ok (a, t) → R s t

theorem Leads.pure {R : σ → σ → Prop} (refl : ∀ s, R s s) (a : α) :
    Leads R (Pure.pure a : m α) := by
  intro s b t h
  rw [Halting.result_pure] at h
  cases h
  exact refl s

theorem Leads.bind {R : σ → σ → Prop} (trans : ∀ s t u, R s t → R t u → R s u) {x : m α}
    {f : α → m β} (hx : Leads R x) (hf : ∀ a, Leads R (f a)) : Leads R (x >>= f) := by
  intro s b u h
  obtain ⟨a, t, first, second⟩ := of_result_bind h
  exact trans s t u (hx s a t first) (hf a t b u second)

/-! ## Families -/

/-- One computation for each depth, of which none does anything else than those that
finish at less depth. -/
def Deepening (x : Nat → m α) : Prop := ∀ d d', d ≤ d' → Agrees (x d) (x d')

theorem Deepening.const (x : m α) : Deepening fun _ => x := fun _ _ _ => Agrees.refl x

theorem Deepening.bind {x : Nat → m α} {f : Nat → α → m β} (hx : Deepening x)
    (hf : ∀ a, Deepening fun d => f d a) : Deepening fun d => x d >>= f d :=
  fun d d' h => (hx d d' h).bind fun a => hf a d d' h

/-- No depth is enough for the family to finish. -/
def Endless (x : Nat → m α) (s : σ) : Prop := ∀ d, ¬ Finishes (x d) s

/-- At some depth the family comes to a value. -/
def ComesTo (x : Nat → m α) (s : σ) (a : α) (t : σ) : Prop := ∃ d, result (x d) s = .ok (a, t)

theorem ComesTo.leads {R : σ → σ → Prop} {x : Nat → m α} {s t : σ} {a : α} (h : ComesTo x s a t)
    (hx : ∀ d, Leads R (x d)) : R s t := by
  obtain ⟨d, hd⟩ := h
  exact hx d s a t hd

/-- What a family comes to, it comes to wherever it finishes. -/
theorem ComesTo.result_eq {x : Nat → m α} (hx : Deepening x) {s t : σ} {a : α}
    (h : ComesTo x s a t) {d : Nat} (hd : Finishes (x d) s) : result (x d) s = .ok (a, t) := by
  obtain ⟨d₀, h₀⟩ := h
  have heq := hx d (max d d₀) (Nat.le_max_left d d₀) s hd
  rw [← heq, hx d₀ (max d d₀) (Nat.le_max_right d d₀) s (.of_ok h₀), h₀]

/-- A family comes to one value. -/
theorem ComesTo.unique {x : Nat → m α} (hx : Deepening x) {s t : σ} {a : α} (h : ComesTo x s a t)
    {d : Nat} {b : α} {u : σ} (hd : result (x d) s = .ok (b, u)) : a = b ∧ t = u := by
  cases (h.result_eq hx (.of_ok hd)).symm.trans hd
  exact ⟨rfl, rfl⟩

/-- A sequence that finishes does so in what follows on its first part, too. -/
theorem Finishes.of_bind_right {x : Nat → m α} {f : Nat → α → m β} (hx : Deepening x) {s t : σ}
    {a : α} (h : ComesTo x s a t) {d : Nat} (hd : Finishes (x d >>= f d) s) :
    Finishes (f d a) t := by
  have hrun := h.result_eq hx hd.of_bind
  rwa [Finishes, result_bind_ok hrun] at hd

/-- A sequence never finishes because of its first part, or because of what follows
on what the first part comes to. -/
theorem endless_bind {x : Nat → m α} {f : Nat → α → m β} (hx : Deepening x)
    (hf : ∀ a, Deepening fun d => f d a) {s : σ} (h : Endless (fun d => x d >>= f d) s) :
    Endless x s ∨ ∃ a t, ComesTo x s a t ∧ Endless (fun d => f d a) t := by
  by_cases hend : Endless x s
  · exact .inl hend
  unfold Endless at hend
  push Not at hend
  obtain ⟨d₀, h₀⟩ := hend
  have hrun := fun d (hd : d₀ ≤ d) => hx d₀ d hd s h₀
  cases hr : result (x d₀) s with
  | error e =>
    -- An error of the first part ends the sequence.
    refine absurd ?_ (h d₀)
    rw [Finishes, hr] at h₀
    rw [Finishes, result_bind_error hr]
    simpa using h₀
  | ok r =>
    refine .inr ⟨r.1, r.2, ⟨d₀, hr⟩, fun d hd => h (max d₀ d) ?_⟩
    have hfirst := (hrun _ (Nat.le_max_left d₀ d)).trans hr
    have hsecond := hf r.1 d (max d₀ d) (Nat.le_max_right d₀ d) r.2 hd
    rw [Finishes, result_bind_ok hfirst]
    show result (f (max d₀ d) r.1) r.2 ≠ _
    rw [hsecond]
    exact hd

/-! ## One after another

Nodes and definitions are worked off in order, and a pure function combines what
comes of them. -/

section Both

variable {γ : Type} {x : Nat → m α} {y : Nat → m β} {g : α → β → γ}

/-- If two computations in order finish, so does the second after the first. -/
theorem Finishes.of_both (hx : Deepening x) {s t : σ} {a : α} (h : ComesTo x s a t) {d : Nat}
    (hd : Finishes (x d >>= fun a => y d >>= fun b => Pure.pure (g a b)) s) :
    Finishes (y d) t := by
  have hrest :=
    Finishes.of_bind_right (f := fun d a => y d >>= fun b => Pure.pure (g a b)) hx h hd
  exact hrest.of_bind

/-- Two computations in order never finish because of the first, or because of the
second after what the first comes to. -/
theorem endless_both (hx : Deepening x) (hy : Deepening y) {s : σ}
    (h : Endless (fun d => x d >>= fun a => y d >>= fun b => pure (g a b)) s) :
    Endless x s ∨ ∃ a t, ComesTo x s a t ∧ Endless y t := by
  rcases endless_bind hx (fun a => hy.bind fun b => Deepening.const (pure (g a b))) h
    with hend | ⟨a, t, hdone, hend⟩
  · exact .inl hend
  · exact .inr ⟨a, t, hdone, fun d hfin => hend d (hfin.bind fun b r => .pure _ r)⟩

end Both

end

end StyleTypings.Less
