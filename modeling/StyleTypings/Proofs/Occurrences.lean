/-
Occurrences — what stands in a style sheet, at whatever depth.

A node occurs in nodes if it is one of them or occurs in the body of a block or in an
imported file among them (`Occurs`).  The imported files have an order, that of their
nodes in the tree (`importedFiles`).  A text that has just been read has none
(`importedFiles_parse`): they come in when it is loaded.
-/
import StyleTypings.Less.Import

namespace StyleTypings.Less

variable {ι : Type}

/-- A node is one of the nodes, or occurs in one of them. -/
inductive Occurs (n : Node ι) : List (Node ι) → Prop where
  | here (rest : List (Node ι)) : Occurs n (n :: rest)
  | block (tag : ι) (prelude : Text) {body : List (Node ι)} (rest : List (Node ι))
      (h : Occurs n body) : Occurs n (.block tag prelude body :: rest)
  | imported (file : Location) (reference : Bool) {nodes : List (Node ι)} (rest : List (Node ι))
      (h : Occurs n nodes) : Occurs n (.imported file reference nodes :: rest)
  | later (m : Node ι) {rest : List (Node ι)} (h : Occurs n rest) : Occurs n (m :: rest)

theorem Occurs.of_singleton {n m : Node ι} (h : Occurs n [m]) (rest : List (Node ι)) :
    Occurs n (m :: rest) := by
  cases h with
  | here => exact .here rest
  | block tag prelude _ h => exact .block tag prelude rest h
  | imported file reference _ h => exact .imported file reference rest h
  | later _ h => cases h

mutual

/-- The files that a node imports, in the order of their nodes. -/
def Node.importedFiles : Node ι → List Location
  | .statement _ _ => []
  | .block _ _ body => importedFiles body
  | .imported file _ nodes => file :: importedFiles nodes

/-- The files that nodes import. -/
def importedFiles : List (Node ι) → List Location
  | [] => []
  | n :: rest => n.importedFiles ++ importedFiles rest

end

@[simp] theorem importedFiles_nil : importedFiles ([] : List (Node ι)) = [] := rfl

@[simp] theorem importedFiles_cons (n : Node ι) (rest : List (Node ι)) :
    importedFiles (n :: rest) = n.importedFiles ++ importedFiles rest := by
  rw [importedFiles]

theorem importedFiles_append (nodes rest : List (Node ι)) :
    importedFiles (nodes ++ rest) = importedFiles nodes ++ importedFiles rest := by
  induction nodes with
  | nil => rfl
  | cons n nodes ih => simp [ih]

theorem importedFiles_reverse_eq_nil {nodes : List (Node ι)} (h : importedFiles nodes = []) :
    importedFiles nodes.reverse = [] := by
  induction nodes with
  | nil => rfl
  | cons n nodes ih =>
    rw [importedFiles_cons, List.append_eq_nil_iff] at h
    rw [List.reverse_cons, importedFiles_append, ih h.2, importedFiles_cons, h.1]
    rfl

/-! ## What is read -/

/-- Matching braces makes blocks and no imported files. -/
theorem importedFiles_nodesOfPieces {flaw : Option Flaw} {opened : List OpenBlock}
    {nodes result : List (Node Nat)} {ps : List Piece}
    (before : ∀ o ∈ opened, importedFiles o.before = []) (here : importedFiles nodes = [])
    (h : nodesOfPieces flaw opened nodes ps = .ok result) : importedFiles result = [] := by
  fun_induction nodesOfPieces flaw opened nodes ps with
  | case1 => cases h
  | case2 => cases h
  | case3 nodes =>
    cases h
    exact importedFiles_reverse_eq_nil here
  | case4 opened nodes line text rest ih =>
    exact ih before here h
  | case5 opened nodes line prelude rest ih =>
    exact ih (List.forall_mem_cons.mpr ⟨here, before⟩) rfl h
  | case6 => cases h
  | case7 o opened nodes line rest ih =>
    obtain ⟨first, outer⟩ := List.forall_mem_cons.mp before
    refine ih outer ?_ h
    rw [importedFiles_cons, Node.importedFiles, importedFiles_reverse_eq_nil here, first]
    rfl

theorem importedFiles_parse {t : Text} {nodes : List (Node Nat)} (h : parse t = .ok nodes) :
    importedFiles nodes = [] := by
  unfold parse at h
  cases hstrip : Comment.strip t with
  | error flaw =>
    rw [hstrip] at h
    cases h
  | ok text =>
    rw [hstrip] at h
    exact importedFiles_nodesOfPieces (by simp) rfl h

end StyleTypings.Less
