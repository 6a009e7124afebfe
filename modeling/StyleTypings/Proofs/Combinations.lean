/-
Combinations — a selector with every choice of parents in the place of its references.

A selector that refers to its parent `k` times is joined to every `k`-tuple of parents.
Joining goes from piece to piece and puts every parent behind every text that has come about
so far, so the tuples come in lexicographic order: the parent in the place of the first
reference varies slowest (`joinOne_eq`).  The tuples of places in the list of parents say
which selectors these are, each of them once and whatever parents are the same
(`pairwise_tuples`, `mem_tuples`).
-/
import StyleTypings.Less.Selector
import StyleTypings.Proofs.Files.Slashes
import StyleTypings.Proofs.Separators

namespace StyleTypings

/-! ## Tuples -/

/-- The tuples of so many members of a list.  The first member varies slowest. -/
def tuples {α : Type} (l : List α) : Nat → List (List α)
  | 0 => [[]]
  | k + 1 => l.flatMap fun a => (tuples l k).map (a :: ·)

section Tuples

variable {α β : Type}

theorem mem_tuples {l t : List α} {k : Nat} :
    t ∈ tuples l k ↔ t.length = k ∧ ∀ a ∈ t, a ∈ l := by
  induction k generalizing t with
  | zero =>
    rw [tuples, List.mem_singleton, List.length_eq_zero_iff]
    exact ⟨fun h => ⟨h, by simp [h]⟩, And.left⟩
  | succ k ih =>
    simp only [tuples, List.mem_flatMap, List.mem_map, ih]
    constructor
    · rintro ⟨a, ha, t, ⟨hlength, ht⟩, rfl⟩
      exact ⟨congrArg (· + 1) hlength, List.forall_mem_cons.mpr ⟨ha, ht⟩⟩
    · rintro ⟨hlength, ht⟩
      obtain ⟨a, t, rfl⟩ := List.exists_cons_of_length_eq_add_one hlength
      obtain ⟨ha, ht⟩ := List.forall_mem_cons.mp ht
      exact ⟨a, ha, t, ⟨Nat.succ.inj hlength, ht⟩, rfl⟩

/-- The tuples of a list that increases come in lexicographic order. -/
theorem pairwise_tuples {l : List Nat} (h : l.Pairwise (· < ·)) (k : Nat) :
    (tuples l k).Pairwise (· < ·) := by
  induction k with
  | zero => exact List.pairwise_singleton _ _
  | succ k ih =>
    rw [tuples, List.pairwise_flatMap]
    constructor
    · intro a _
      rw [List.pairwise_map]
      exact ih.imp List.cons_lt_cons_self.mpr
    · refine h.imp ?_
      rintro a b hab _ hx _ hy
      obtain ⟨x, _, rfl⟩ := List.mem_map.mp hx
      obtain ⟨y, _, rfl⟩ := List.mem_map.mp hy
      exact List.cons_lt_cons_iff.mpr (.inl hab)

theorem tuples_map (f : α → β) (l : List α) (k : Nat) :
    tuples (l.map f) k = (tuples l k).map (List.map f) := by
  induction k with
  | zero => rfl
  | succ k ih =>
    simp only [tuples, List.flatMap_map, List.map_flatMap, ih, List.map_map, Function.comp_def,
      List.map_cons]

theorem tuples_singleton (a : α) (k : Nat) : tuples [a] k = [List.replicate k a] := by
  induction k with
  | zero => rfl
  | succ k ih =>
    rw [tuples, List.flatMap_singleton, ih]
    rfl

/-- Tuples of members by their places. -/
theorem tuples_eq_map_range (l : List α) (default : α) (k : Nat) :
    tuples l k = (tuples (List.range l.length) k).map (List.map fun i => l.getD i default) := by
  have members : (List.range l.length).map (fun i => l.getD i default) = l := by
    refine List.ext_getElem (by simp) fun i _ hi => ?_
    simp [hi]
  rw [← tuples_map, members]

end Tuples

namespace Less.Selector

/-! ## Pieces -/

/-- A selector with its references replaced by the parents of a tuple, in order. -/
def fill : Text → List Text → Text
  | [], _ => []
  | c :: rest, [] => c :: fill rest []
  | c :: rest, parent :: parents =>
    if c = '&' then parent ++ fill rest parents else c :: fill rest (parent :: parents)

/-- Pieces with a parent before each. -/
def weave (parents pieces : List Text) : Text := (List.zipWith (· ++ ·) parents pieces).flatten

theorem fill_cons_of_ne {c : Char} (h : c ≠ '&') (t : Text) (parents : List Text) :
    fill (c :: t) parents = c :: fill t parents := by
  cases parents with
  | nil => rfl
  | cons parent parents => rw [fill, if_neg h]

/-- A selector is filled piece by piece. -/
theorem fill_eq {t first : Text} {parents pieces : List Text} (h : t.splitOn '&' = first :: pieces)
    (hlength : parents.length = pieces.length) :
    fill t parents = first ++ weave parents pieces := by
  induction t generalizing first parents pieces with
  | nil =>
    rw [List.splitOn_nil] at h
    cases h
    rw [List.length_eq_zero_iff.mp hlength]
    rfl
  | cons c t ih =>
    rw [List.splitOn_cons_eq_if_modifyHead] at h
    obtain ⟨first', pieces', ht⟩ := List.exists_cons_of_ne_nil (List.splitOn_ne_nil '&' t)
    rw [ht] at h
    split at h
    · rename_i ampersand
      cases h
      obtain ⟨parent, parents, rfl⟩ := List.exists_cons_of_length_eq_add_one hlength
      rw [beq_iff_eq.mp ampersand, fill, if_pos rfl, ih ht (Nat.succ.inj hlength)]
      simp [weave]
    · rename_i other
      cases h
      rw [fill_cons_of_ne (fun same => other (by simp [same])), ih ht hlength]
      rfl

/-! ## Joining -/

/-- Every text that has come about so far goes on with every tuple of parents. -/
theorem foldl_combine_eq (parents starts pieces : List Text) :
    pieces.foldl (combine parents) starts = starts.flatMap fun start =>
      (tuples parents pieces.length).map fun tuple => start ++ weave tuple pieces := by
  induction pieces generalizing starts with
  | nil => simp [tuples, weave]
  | cons piece pieces ih =>
    rw [List.foldl_cons, ih, combine, List.flatMap_assoc]
    refine List.flatMap_congr fun start _ => ?_
    simp only [List.length_cons, tuples, List.flatMap_map, List.map_flatMap, List.map_map]
    refine List.flatMap_congr fun parent _ => List.map_congr_left fun tuple _ => ?_
    simp [weave]

/-- A selector is joined to parents in the place of its references, in every way, or behind
each. -/
theorem joinOne_eq {parents : List Text} (h : parents ≠ []) (selector : Text) :
    joinOne parents selector =
      if selector.count '&' = 0 then parents.map fun parent => parent ++ [' '] ++ selector
      else (tuples parents (selector.count '&')).map (fill selector) := by
  obtain ⟨first, pieces, hsplit⟩ := List.exists_cons_of_ne_nil (List.splitOn_ne_nil '&' selector)
  have hcount : pieces.length = selector.count '&' := by
    have hlength := Text.length_splitOn '&' selector
    rw [hsplit] at hlength
    exact Nat.succ.inj hlength
  rw [joinOne, if_neg (by simpa using h), hsplit, ← hcount]
  cases pieces with
  | nil => rfl
  | cons piece pieces =>
    rw [if_neg (by simp)]
    show (piece :: pieces).foldl (combine parents) [first] = _
    rw [foldl_combine_eq, List.flatMap_singleton]
    refine List.map_congr_left fun tuple htuple => ?_
    exact (fill_eq hsplit (mem_tuples.mp htuple).1).symm

/-- The selectors that one part of a list is joined to: without its references where there
is no parent, behind each parent where it has none, and else one for every tuple of places
in the list of parents. -/
def combinations (parents : List Text) (part : Text) : List Text :=
  if parents = [] then [Text.collapse (part.filter (· != '&'))]
  else if part.count '&' = 0 then parents.map fun parent => parent ++ [' '] ++ part
  else
    (tuples (List.range parents.length) (part.count '&')).map fun places =>
      fill part (places.map fun i => parents.getD i [])

/-- A list is joined to its parents part by part: the parts are what stands between the commas
outside strings and brackets, and each of them that is not blank, collapsed, gives its
combinations in order.  The tuples of places are in lexicographic order, each of them once. -/
theorem join_eq_combinations (parents : List Text) (list : Text) :
    (∃ parts, Parts ',' .none list parts ∧
      join parents list =
        ((parts.map Text.collapse).filter (! ·.isEmpty)).flatMap (combinations parents)) ∧
    ∀ k, (tuples (List.range parents.length) k).Pairwise (· < ·) ∧
      ∀ places, places ∈ tuples (List.range parents.length) k ↔
        places.length = k ∧ ∀ i ∈ places, i < parents.length := by
  constructor
  · refine ⟨splitTop ',' list, parts_splitFrom ',' .none list, ?_⟩
    rw [join]
    refine List.flatMap_congr fun part _ => ?_
    rw [combinations]
    split
    · rename_i orphan
      rw [orphan]
      rfl
    · rename_i parents_ne
      rw [joinOne_eq parents_ne, tuples_eq_map_range parents [], List.map_map]
      rfl
  · intro k
    refine ⟨pairwise_tuples List.pairwise_lt_range k, fun places => ?_⟩
    simp only [mem_tuples, List.mem_range]

/-- Two parents and two references, with a comma in brackets. -/
example : join [".a", ".b"] "& + &, :not(&, c)" =
    [".a + .a", ".a + .b", ".b + .a", ".b + .b", ":not(.a, c)", ":not(.b, c)"] := by decide

end Less.Selector

end StyleTypings
