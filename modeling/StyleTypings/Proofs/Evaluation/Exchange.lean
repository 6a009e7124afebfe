/-
Exchange — one node of a style sheet exchanged for others, before it is numbered.

A style sheet is numbered as it is, so the nodes behind an exchanged one have other numbers
afterwards, and how deep a body is need not be the same.  Both are bridged by a third style
sheet (`Bridge`), numbered like the first, with a single node in the place of the
exchanged one:

  from the first to the third   one node is replaced by one, tags are kept, and so is
                                the depth (`Replaced`)
  from the third to the second  the node is expanded into the others and everything is
                                numbered anew (`Alike`)

What the node may be, and that it compares with the exchanged one, is all that is left to
show of an exchange (`NodeBridge`).  The bridge stands wherever the exchange is made
(`Within.bridge`), and the third style sheet comes to what the second comes to
(`Bridge.evaluates_iff`).
-/
import StyleTypings.Proofs.Evaluation.Numbering
import StyleTypings.Proofs.Evaluation.Replacement
import Mathlib.Data.List.Perm.Subperm

namespace StyleTypings.Less

variable {ι κ : Type}

/-! ## Numbered nodes -/

/-- Whatever occurs in numbered nodes is a node that occurs in them, numbered. -/
theorem occurs_numberNodes {n : Node Nat} : ∀ (nodes : List (Node ι)) (k : Nat),
    n.Occurs (numberNodes k nodes).1 → ∃ (m : Node ι) (j : Nat), m.Occurs nodes ∧ n = (m.number j).1
  | [], k, h => by
    rw [numberNodes] at h
    cases h
  | .statement tag text :: rest, k, h => by
    rw [numberNodes, Node.number] at h
    cases h with
    | head => exact ⟨.statement tag text, k, .head, by rw [Node.number]⟩
    | tail h =>
      obtain ⟨m, j, hm, hn⟩ := occurs_numberNodes rest _ h
      exact ⟨m, j, .tail hm, hn⟩
  | .block tag prelude body :: rest, k, h => by
    rw [numberNodes, Node.number] at h
    cases h with
    | head => exact ⟨.block tag prelude body, k, .head, by rw [Node.number]⟩
    | tail h =>
      obtain ⟨m, j, hm, hn⟩ := occurs_numberNodes rest _ h
      exact ⟨m, j, .tail hm, hn⟩
    | block h =>
      obtain ⟨m, j, hm, hn⟩ := occurs_numberNodes body _ h
      exact ⟨m, j, .block hm, hn⟩
  | .imported file reference nodes :: rest, k, h => by
    rw [numberNodes, Node.number] at h
    cases h with
    | head => exact ⟨.imported file reference nodes, k, .head, by rw [Node.number]⟩
    | tail h =>
      obtain ⟨m, j, hm, hn⟩ := occurs_numberNodes rest _ h
      exact ⟨m, j, .tail hm, hn⟩
    | imported h =>
      obtain ⟨m, j, hm, hn⟩ := occurs_numberNodes nodes _ h
      exact ⟨m, j, .imported hm, hn⟩

/-- Numbering makes no calls. -/
theorem Called.of_numberNodes {nodes : List (Node ι)} {k : Nat} {x : Symbol}
    (h : Called (numberNodes k nodes).1 x) : Called nodes x := by
  obtain ⟨tag, text, hoccurs, hx⟩ := h
  obtain ⟨m, j, hm, hn⟩ := occurs_numberNodes nodes k hoccurs
  cases m <;> rw [Node.number] at hn <;> cases hn
  exact ⟨_, text, hm, hx⟩

theorem Uncalled.numberNodes {sheet : List (Node ι)} {nodes : List (Node κ)}
    (h : Uncalled sheet nodes) (j k : Nat) :
    Uncalled (numberNodes j sheet).1 (numberNodes k nodes).1 := by
  intro b hb
  have hsymbol := List.mem_map_of_mem (f := Binding.symbol) hb
  rw [numberNodes_symbols] at hsymbol
  obtain ⟨b', hb', hsame⟩ := List.mem_map.mp hsymbol
  obtain ⟨name, hname, huncalled⟩ := h b' hb'
  exact ⟨name, hsame.symm.trans hname, mt Called.of_numberNodes huncalled⟩

/-- Where no block can be called, nodes may have any numbers. -/
theorem replaced_numberNodes {sheet : List (Node Nat)} {T : Nat → Nat → Prop}
    {R : Node Nat → Node Nat → Prop} (uncalled : ∀ x, ¬ Called sheet x) :
    ∀ (nodes : List (Node ι)) (j k : Nat),
      Replaced sheet T R (numberNodes j nodes).1 (numberNodes k nodes).1
  | [], j, k => by
    rw [numberNodes, numberNodes]
    exact .nil
  | .statement tag text :: rest, j, k => by
    simp only [numberNodes, Node.number]
    exact .statement j k text (replaced_numberNodes uncalled rest _ _)
  | .block tag prelude body :: rest, j, k => by
    simp only [numberNodes, Node.number]
    exact .block prelude (fun _ _ called => absurd called (uncalled _))
      (replaced_numberNodes uncalled body _ _) (replaced_numberNodes uncalled rest _ _)
  | .imported file reference nodes :: rest, j, k => by
    simp only [numberNodes, Node.number]
    exact .imported file file reference (replaced_numberNodes uncalled nodes _ _)
      (replaced_numberNodes uncalled rest _ _)

/-! ## One node replaced -/

section

variable {sheet : List (Node ι)} {R : Node ι → Node ι → Prop}

mutual

theorem Node.replaced_refl {rest rest' : List (Node ι)} (h : Replaced sheet Eq R rest rest') :
    ∀ n : Node ι, Replaced sheet Eq R (n :: rest) (n :: rest')
  | .statement tag text => .statement tag tag text h
  | .block _ prelude body => .block prelude (fun _ _ _ => rfl) (replaced_refl body) h
  | .imported file reference nodes => .imported file file reference (replaced_refl nodes) h

theorem replaced_refl : ∀ nodes : List (Node ι), Replaced sheet Eq R nodes nodes
  | [] => .nil
  | n :: rest => n.replaced_refl (replaced_refl rest)

end

end

/-- Other nodes put in the place of one at the head of a list. -/
inductive Exchange (Q : Node ι → List (Node ι) → Prop) : List (Node ι) → List (Node ι) → Prop where
  | exchange {n : Node ι} {nodes : List (Node ι)} (h : Q n nodes) (rest : List (Node ι)) :
    Exchange Q (n :: rest) (nodes ++ rest)

/-- No tags are brought. -/
theorem TagsBetween.nil (next : Nat) : TagsBetween next [] next :=
  ⟨le_rfl, .nil, fun _ h => absurd h List.not_mem_nil⟩

/-- A node that is put in the place of one with the number `j`, and that comes to the same as
the nodes that are meant for this place.  It brings no tags but extra ones. -/
structure NodeBridge (R : Node Nat → Node Nat → Prop) (extra : List Nat) (n : Node ι)
    (nodes : List (Node ι)) (j : Nat) (m : Node Nat) : Prop where
  replaced : R (n.number j).1 m
  alike : ∀ k, AlikeUpToTags [m] (numberNodes k nodes).1
  tags : m.blockTags.Subperm ((n.number j).1.blockTags ++ extra)

/-- An import of nodes comes to the same as the nodes. -/
theorem NodeBridge.of_imported {R : Node Nat → Node Nat → Prop} {extra : List Nat} {n : Node ι}
    {nodes : List (Node ι)} {j next : Nat}
    (replaced : R (n.number j).1 (.imported [] false (numberNodes next nodes).1))
    (tags : (blockTagsOf (numberNodes next nodes).1).Subperm ((n.number j).1.blockTags ++ extra)) :
    NodeBridge R extra n nodes j (.imported [] false (numberNodes next nodes).1) where
  replaced := replaced
  alike k := by
    have same := numberNodes_alike nodes next k
    rw [← List.append_nil (numberNodes next nodes).1] at same
    exact .left (.inline [] _ []) same
  tags := tags

/-- Nodes between numbered ones and the nodes of a changed style sheet: they differ from the
former by replaced nodes, and from the latter by steps and tags. -/
structure Bridge (sheet : List (Node Nat)) (R : Node Nat → Node Nat → Prop) (extra : List Nat)
    (before : List (Node Nat)) (after : List (Node ι)) (middle : List (Node Nat)) : Prop where
  replaced : Replaced sheet Eq R before middle
  alike : ∀ k, AlikeUpToTags middle (numberNodes k after).1
  tags : (blockTagsOf middle).Subperm (blockTagsOf before ++ extra)

theorem subperm_append_extra {a a' b extra : List ι} (h : a.Subperm (a' ++ extra)) :
    (a ++ b).Subperm (a' ++ b ++ extra) := by
  have hperm : (a' ++ extra ++ b).Perm (a' ++ b ++ extra) := by
    rw [List.append_assoc, List.append_assoc]
    exact List.perm_append_comm.append_left a'
  exact hperm.subperm_left.mp ((List.subperm_append_right b).mpr h)

/-- A node that can be bridged can be bridged wherever it stands. -/
theorem Within.bridge {Q : Node ι → List (Node ι) → Prop} {sheet : List (Node Nat)}
    {R : Node Nat → Node Nat → Prop} {extra : List Nat}
    (here : ∀ {n nodes}, Q n nodes → ∀ j, ∃ m, NodeBridge R extra n nodes j m)
    {before after : List (Node ι)} (h : Within (Exchange Q) before after) (j : Nat) :
    ∃ middle, Bridge sheet R extra (numberNodes j before).1 after middle := by
  induction h generalizing j with
  | here h =>
    obtain ⟨h, rest⟩ := h
    obtain ⟨m, hm⟩ := here h j
    rw [numberNodes]
    refine ⟨m :: _, .node hm.replaced (replaced_refl _), fun k => ?_, ?_⟩
    · rw [numberNodes_append]
      exact (hm.alike k).append (numberNodes_alike rest _ _)
    · rw [blockTagsOf_cons, blockTagsOf_cons]
      exact subperm_append_extra hm.tags
  | block tag prelude rest _ ih =>
    obtain ⟨middle, hbody⟩ := ih (j + 1)
    rw [numberNodes, Node.number]
    refine ⟨.block j prelude middle :: _, .block prelude (fun _ _ _ => rfl) hbody.replaced
      (replaced_refl _), fun k => ?_, ?_⟩
    · rw [numberNodes, Node.number]
      exact .block prelude trivial (hbody.alike _) (numberNodes_alike rest _ _)
    · rw [blockTagsOf_cons, blockTagsOf_cons, Node.blockTags, Node.blockTags]
      exact (List.subperm_cons j).mpr (subperm_append_extra hbody.tags)
  | imported file reference rest _ ih =>
    obtain ⟨middle, hnodes⟩ := ih j
    rw [numberNodes, Node.number]
    refine ⟨.imported file reference middle :: _, .imported file file reference hnodes.replaced
      (replaced_refl _), fun k => ?_, ?_⟩
    · rw [numberNodes, Node.number]
      exact .imported file file reference (hnodes.alike _) (numberNodes_alike rest _ _)
    · rw [blockTagsOf_cons, blockTagsOf_cons, Node.blockTags, Node.blockTags]
      exact subperm_append_extra hnodes.tags
  | later n _ ih =>
    rw [numberNodes]
    obtain ⟨middle, hrest⟩ := ih (n.number j).2
    refine ⟨(n.number j).1 :: middle, Node.replaced_refl hrest.replaced _, fun k => ?_, ?_⟩
    · rw [numberNodes]
      exact n.number_alike (hrest.alike _) _ _
    · rw [blockTagsOf_cons, blockTagsOf_cons, List.append_assoc]
      exact (List.subperm_append_left _).mpr hrest.tags

/-- Extra tags that no node has yet do not matter. -/
theorem Bridge.evaluates_iff {sheet middle : List (Node Nat)} {before after : List (Node ι)}
    {R : Node Nat → Node Nat → Prop} {extra : List Nat} {last : Nat}
    (h : Bridge sheet R extra (numbered before) after middle)
    (fresh : TagsBetween (numberNodes 0 before).2 extra last) (r : Except CompileError Stylesheet) :
    Evaluates middle r ↔ Evaluates (numbered after) r := by
  have nodup := ((numberNodes_tagsBetween before 0).append fresh).nodup
  obtain ⟨tags, hperm, hsublist⟩ := h.tags
  have hmiddle : (blockTagsOf middle).Nodup := hperm.nodup_iff.mp (nodup.sublist hsublist)
  exact (h.alike 0).evaluates_iff hmiddle (numberNodes_nodup after 0) r

end StyleTypings.Less
