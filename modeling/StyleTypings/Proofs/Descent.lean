/-
Descents — computations that go down without end.

A recursion that is cut off at a depth is looked at from outside: what matters is
which visit makes which others, and whether a visit ends before the depth is used
up.  A visit never ends, at whatever depth, exactly when a run leads down from it for
ever (`Descent.endless_iff`).  Which steps such a run takes for ever is found with
counters: a bounded counter stops some of them, a falling size asks for the others.
-/
import Mathlib.Order.WellFounded

namespace StyleTypings

/-- A recursion with a depth: the visits, which of them a visit enters and by what
kind of step, and whether a visit ends within a depth. -/
structure Descent (K V : Type*) where
  Enters : K → V → V → Prop
  EndsWithin : Nat → V → Prop
  /-- Nothing ends without any depth. -/
  not_endsWithin_zero : ∀ v, ¬ EndsWithin 0 v
  /-- A visit ends only after those that it enters, one level deeper. -/
  endsWithin_of_enters : ∀ {d k v w}, Enters k v w → EndsWithin (d + 1) v → EndsWithin d w
  /-- A visit that never ends enters one that never ends. -/
  exists_enters : ∀ {v}, (∀ d, ¬ EndsWithin d v) → ∃ k w, Enters k v w ∧ ∀ d, ¬ EndsWithin d w

namespace Descent

variable {K V : Type*} (D : Descent K V)

/-- A run that begins with a visit and goes down for ever. -/
structure Run (v : V) where
  visit : Nat → V
  kind : Nat → K
  visit_zero : visit 0 = v
  enters : ∀ n, D.Enters (kind n) (visit n) (visit (n + 1))

variable {D}

/-- No visit of an endless run ends. -/
theorem Run.not_endsWithin {v : V} (r : D.Run v) (d : Nat) :
    ∀ n, ¬ D.EndsWithin d (r.visit n) := by
  induction d with
  | zero => exact fun n => D.not_endsWithin_zero _
  | succ d ih => exact fun n h => ih (n + 1) (D.endsWithin_of_enters (r.enters n) h)

/-- Below a visit that never ends there is a run that never ends. -/
theorem exists_run {v : V} (h : ∀ d, ¬ D.EndsWithin d v) : Nonempty (D.Run v) := by
  let Endless := {w : V // ∀ d, ¬ D.EndsWithin d w}
  have next : ∀ w : Endless, ∃ k, ∃ u : Endless, D.Enters k w.1 u.1 := by
    intro w
    obtain ⟨k, u, hu, hend⟩ := D.exists_enters w.2
    exact ⟨k, ⟨u, hend⟩, hu⟩
  choose kind follow hfollow using next
  let visit : Nat → Endless := Nat.rec ⟨v, h⟩ fun _ w => follow w
  exact ⟨⟨fun n => (visit n).1, fun n => kind (visit n), rfl, fun n => hfollow (visit n)⟩⟩

/-- A visit never ends exactly when a run leads down from it for ever. -/
theorem endless_iff {v : V} : (∀ d, ¬ D.EndsWithin d v) ↔ Nonempty (D.Run v) := by
  constructor
  · exact exists_run
  · rintro ⟨r⟩ d h
    refine r.not_endsWithin d 0 ?_
    rwa [r.visit_zero]

/-! ## Which steps go on for ever -/

/-- Steps that raise a bounded counter, which nothing lowers, come to an end. -/
theorem Run.eventually_not {v : V} (r : D.Run v) {S : K → Prop} (count : V → Nat) (bound : Nat)
    (le_bound : ∀ n, count (r.visit n) ≤ bound)
    (mono : ∀ n, count (r.visit n) ≤ count (r.visit (n + 1)))
    (raises : ∀ n, S (r.kind n) → count (r.visit n) < count (r.visit (n + 1))) :
    ∃ m, ∀ n, m ≤ n → ¬ S (r.kind n) := by
  have hmono : Monotone fun n => count (r.visit n) := monotone_nat_of_le_succ mono
  by_contra hcon
  push Not at hcon
  -- Otherwise the counter gets as high as one likes.
  have high : ∀ c, ∃ n, c ≤ count (r.visit n) := by
    intro c
    induction c with
    | zero => exact ⟨0, Nat.zero_le _⟩
    | succ c ih =>
      obtain ⟨m, hm⟩ := ih
      obtain ⟨n, hn, hS⟩ := hcon m
      exact ⟨n + 1, lt_of_le_of_lt (hm.trans (hmono hn)) (raises n hS)⟩
  obtain ⟨n, hn⟩ := high (bound + 1)
  have := le_bound n
  omega

/-- If all other steps lower a size, there is always another step of the kind. -/
theorem Run.exists_later {v : V} (r : D.Run v) {S : K → Prop} (size : V → Nat) {m : Nat}
    (lowers : ∀ n, m ≤ n → ¬ S (r.kind n) → size (r.visit (n + 1)) < size (r.visit n)) :
    ∃ n, m ≤ n ∧ S (r.kind n) := by
  by_contra hcon
  push Not at hcon
  have falls : ∀ i, size (r.visit (m + i)) + i ≤ size (r.visit m) := by
    intro i
    induction i with
    | zero => simp
    | succ i ih =>
      have := lowers (m + i) (Nat.le_add_right m i) (hcon _ (Nat.le_add_right m i))
      rw [← Nat.add_assoc m i 1]
      omega
  have := falls (size (r.visit m) + 1)
  omega

end Descent

end StyleTypings
