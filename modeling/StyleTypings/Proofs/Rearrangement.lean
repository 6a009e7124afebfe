/-
Rearrangement — definitions hold for a whole block, wherever in it they stand.

The nodes of a block can be rearranged as long as nodes that do more than to define keep
their order, and so do nodes that declare one symbol (`Rearranged`).  Whatever the new order
is, it is come to by swaps of neighbours: its first node has only independent ones before
it in the old order, so it can change places with all of them, and so on with what is left
(`Rearranged.swaps`).  A swap of independent neighbours leaves the result of a style sheet,
and so does every rearrangement of any of its blocks (`evaluates_iff_of_rearranged`).
-/
import StyleTypings.Proofs.Evaluation.Numbering

namespace StyleTypings.Less

open Relation

variable {ι : Type}

/-! ## First occurrences -/

section Lists

variable {α : Type} {p : α → Bool} {a : α} {pre post rest : List α}

/-- If a selection of a list begins with `a`, nothing before `a` is selected. -/
theorem eq_false_of_filter_eq (first : a ∉ pre) (ha : p a = true)
    (h : (pre ++ a :: post).filter p = (a :: rest).filter p) : ∀ b ∈ pre, p b = false := by
  intro b hb
  rw [List.filter_append, List.filter_cons_of_pos ha, List.filter_cons_of_pos ha] at h
  cases hpre : pre.filter p with
  | nil => exact Bool.eq_false_iff.mpr (List.filter_eq_nil_iff.mp hpre b hb)
  | cons c selected =>
    rw [hpre, List.cons_append] at h
    obtain ⟨rfl, _⟩ := List.cons.inj h
    have hmem : c ∈ pre.filter p := hpre ▸ List.mem_cons_self
    exact absurd (List.mem_filter.mp hmem).1 first

/-- The first occurrence of `a` taken away from two lists with the same selection. -/
theorem filter_eq_of_filter_eq (first : a ∉ pre)
    (h : (pre ++ a :: post).filter p = (a :: rest).filter p) :
    (pre ++ post).filter p = rest.filter p := by
  cases ha : p a with
  | false => simpa [ha] using h
  | true =>
    have hpre : pre.filter p = [] :=
      List.filter_eq_nil_iff.mpr fun b hb => Bool.eq_false_iff.mp (eq_false_of_filter_eq first ha h b hb)
    simpa [ha, hpre] using h

end Lists

/-! ## Rearranged nodes -/

/-- The same nodes in another order.  All that are more than definitions keep their order,
and for every symbol so do all that declare it. -/
structure Rearranged (before after : List (Node ι)) : Prop where
  perm : before.Perm after
  fixed : before.filter (! ·.isDefinition) = after.filter (! ·.isDefinition)
  declaring : ∀ x, before.filter (·.declares x) = after.filter (·.declares x)

/-- A node goes to the front, past nodes from which it is independent. -/
theorem swaps_to_front {n : Node ι} {pre : List (Node ι)} (h : ∀ m ∈ pre, Independent m n)
    (post : List (Node ι)) :
    ReflTransGen (Within Step) (pre ++ n :: post) (n :: (pre ++ post)) := by
  induction pre with
  | nil => exact .refl
  | cons m pre ih =>
    have past := (ih fun m' hm' => h m' (List.mem_cons_of_mem m hm')).lift (m :: ·)
      fun _ _ step => Within.later m step
    exact past.tail (.here (.swap (h m List.mem_cons_self) _))

namespace Rearranged

variable {before after : List (Node ι)} {n : Node ι}

/-- The node that comes first has only independent ones before it. -/
theorem independent {pre post : List (Node ι)} (h : Rearranged (pre ++ n :: post) (n :: after))
    (first : n ∉ pre) {m : Node ι} (hm : m ∈ pre) : Independent m n where
  definition := by
    by_contra hnone
    rw [not_or, Bool.not_eq_true, Bool.not_eq_true] at hnone
    have hfixed := eq_false_of_filter_eq first (by simp [hnone.2]) h.fixed m hm
    simp [hnone.1] at hfixed
  symbols x := by
    rintro ⟨hm', hn⟩
    exact absurd hm' (Bool.eq_false_iff.mp (eq_false_of_filter_eq first hn (h.declaring x) m hm))

/-- What is left is rearranged, too. -/
theorem tail {pre post : List (Node ι)} (h : Rearranged (pre ++ n :: post) (n :: after))
    (first : n ∉ pre) : Rearranged (pre ++ post) after where
  perm := (List.perm_middle.symm.trans h.perm).cons_inv
  fixed := filter_eq_of_filter_eq first h.fixed
  declaring x := filter_eq_of_filter_eq first (h.declaring x)

theorem swaps (h : Rearranged before after) : ReflTransGen (Within Step) before after := by
  induction after generalizing before with
  | nil =>
    rw [h.perm.eq_nil]
  | cons n after ih =>
    obtain ⟨pre, post, rfl, first⟩ := List.eq_append_cons_of_mem
      (h.perm.mem_iff.mpr (List.mem_cons_self (a := n)))
    -- The first node of the new order goes to the front, and what is left is rearranged behind it.
    have rest := (ih (h.tail first)).lift (n :: ·) fun _ _ step => Within.later n step
    exact (swaps_to_front (fun _ => h.independent first) post).trans rest

end Rearranged

/-- A rearrangement of the nodes of one block, at whatever depth, leaves the result of a
style sheet. -/
theorem evaluates_iff_of_rearranged {before after : List (Node ι)}
    (h : Within Rearranged before after) (r : Except CompileError Stylesheet) :
    Evaluates (numbered before) r ↔ Evaluates (numbered after) r :=
  h.evaluates_iff Rearranged.swaps r

/-- A block whose variable and mixin are used in it. -/
def usage : Node Nat := .block 0 ".@\x7bv\x7d" [.statement 1 ".m()"]

def definitions : List (Node Nat) :=
  [.statement 2 "@v: b", .block 3 ".m()" [.statement 4 "c: d"]]

/-- Definitions that stand before their use and after it come to the same. -/
theorem evaluates_definitions_last :
    Within Rearranged [.block 5 ".a" (definitions ++ [usage])]
        [.block 5 ".a" (usage :: definitions)] ∧
      Evaluates (numbered [.block 5 ".a" (usage :: definitions)]) (.ok [⟨[".a .b"]⟩]) := by
  have nothing (x : Symbol) : usage.declares x = false := rfl
  have h : Rearranged (definitions ++ [usage]) (usage :: definitions) :=
    ⟨List.perm_append_comm, rfl, fun x => by simp [nothing]⟩
  have within : Within Rearranged [.block 5 ".a" (definitions ++ [usage])]
      [.block 5 ".a" (usage :: definitions)] := .block 5 ".a" [] (.here h)
  exact ⟨within, (evaluates_iff_of_rearranged within _).mp ⟨4, rfl⟩⟩

end StyleTypings.Less
