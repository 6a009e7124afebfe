/-
Numbering — the tags of a style sheet, and changes of it in one place.

Tags only tell blocks apart.  Style sheets whose blocks all have tags of their own and that
are alike up to tags, whatever these are, have the same result (`Alike.evaluates_iff`),
and numbering gives every block a tag of its own (`numberNodes_nodup`).  So a change of a
style sheet before it is numbered can be judged as if the nodes kept their tags.

A change is made to one list of nodes, at whatever depth it stands (`Within`).  If what
it does to that list leaves it alike up to tags, it leaves the whole style sheet so.
-/
import StyleTypings.Proofs.Evaluation.Simulation
import Mathlib.Data.List.Nodup
import Mathlib.Logic.Relation

namespace StyleTypings.Less

variable {ι κ : Type}

/-! ## Tags of blocks -/

mutual

/-- The tags of the blocks in a node. -/
def Node.blockTags : Node ι → List ι
  | .statement _ _ => []
  | .block tag _ body => tag :: blockTagsOf body
  | .imported _ _ nodes => blockTagsOf nodes

/-- The tags of the blocks in nodes. -/
def blockTagsOf : List (Node ι) → List ι
  | [] => []
  | n :: rest => n.blockTags ++ blockTagsOf rest

end

@[simp] theorem blockTagsOf_cons (n : Node ι) (rest : List (Node ι)) :
    blockTagsOf (n :: rest) = n.blockTags ++ blockTagsOf rest := by
  rw [blockTagsOf]

theorem blockTagsOf_append (nodes rest : List (Node ι)) :
    blockTagsOf (nodes ++ rest) = blockTagsOf nodes ++ blockTagsOf rest := by
  induction nodes with
  | nil => rfl
  | cons n nodes ih => simp [ih]

theorem Step.blockTags {l m : List (Node ι)} (h : Step l m) :
    (blockTagsOf l).Perm (blockTagsOf m) := by
  cases h with
  | inline file nodes rest =>
    rw [blockTagsOf_cons, Node.blockTags, blockTagsOf_append]
  | @swap m n h rest =>
    simp only [blockTagsOf_cons, ← List.append_assoc]
    exact List.perm_append_comm.append_right _

/-! ## Tags that belong together -/

theorem Alike.mono {T T' : ι → κ → Prop} (hT : ∀ a b, T a b → T' a b) {l : List (Node ι)}
    {l' : List (Node κ)} (h : Alike T l l') : Alike T' l l' := by
  induction h with
  | nil => exact .nil
  | statement tag tag' text _ ih => exact .statement tag tag' text ih
  | block prelude tags _ _ inside ih => exact .block prelude (hT _ _ tags) inside ih
  | imported file file' reference _ _ inside ih => exact .imported file file' reference inside ih
  | left step _ ih => exact .left step ih
  | right step _ ih => exact .right step ih

/-- Lists of nodes that are alike, whatever their tags. -/
abbrev AlikeUpToTags (l : List (Node ι)) (l' : List (Node κ)) : Prop := Alike (fun _ _ => True) l l'

/-- Only so many tags have to belong together as there are blocks. -/
theorem Alike.exists_pairs {T : ι → κ → Prop} {l : List (Node ι)} {l' : List (Node κ)}
    (h : Alike T l l') :
    ∃ pairs : List (ι × κ), Alike (fun a b => (a, b) ∈ pairs) l l' ∧
      (pairs.map (·.1)).Perm (blockTagsOf l) ∧ (pairs.map (·.2)).Perm (blockTagsOf l') := by
  induction h with
  | nil => exact ⟨[], .nil, .nil, .nil⟩
  | statement tag tag' text _ ih =>
    obtain ⟨pairs, halike, hfirst, hsecond⟩ := ih
    exact ⟨pairs, .statement tag tag' text halike, hfirst, hsecond⟩
  | @block tag tag' prelude body rest body' rest' _ _ _ inside ih =>
    obtain ⟨insidePairs, hinside, hfirst, hsecond⟩ := inside
    obtain ⟨pairs, hrest, hfirst', hsecond'⟩ := ih
    refine ⟨(tag, tag') :: (insidePairs ++ pairs), .block prelude List.mem_cons_self
      (hinside.mono fun a b hab => ?_) (hrest.mono fun a b hab => ?_), ?_, ?_⟩
    · exact List.mem_cons_of_mem _ (List.mem_append_left _ hab)
    · exact List.mem_cons_of_mem _ (List.mem_append_right _ hab)
    · simpa [Node.blockTags] using hfirst.append hfirst'
    · simpa [Node.blockTags] using hsecond.append hsecond'
  | imported file file' reference _ _ inside ih =>
    obtain ⟨insidePairs, hinside, hfirst, hsecond⟩ := inside
    obtain ⟨pairs, hrest, hfirst', hsecond'⟩ := ih
    refine ⟨insidePairs ++ pairs, .imported file file' reference
      (hinside.mono fun a b hab => ?_) (hrest.mono fun a b hab => ?_), ?_, ?_⟩
    · exact List.mem_append_left _ hab
    · exact List.mem_append_right _ hab
    · simpa [Node.blockTags] using hfirst.append hfirst'
    · simpa [Node.blockTags] using hsecond.append hsecond'
  | left step _ ih =>
    obtain ⟨pairs, halike, hfirst, hsecond⟩ := ih
    exact ⟨pairs, .left step halike, hfirst.trans step.blockTags.symm, hsecond⟩
  | right step _ ih =>
    obtain ⟨pairs, halike, hfirst, hsecond⟩ := ih
    exact ⟨pairs, .right step halike, hfirst, hsecond.trans step.blockTags.symm⟩

theorem biUnique_of_nodup {pairs : List (ι × κ)} (hfirst : (pairs.map (·.1)).Nodup)
    (hsecond : (pairs.map (·.2)).Nodup) :
    Relator.BiUnique fun a b => (a, b) ∈ pairs := by
  constructor
  · intro a b c hac hbc
    exact congrArg (·.1) (List.inj_on_of_nodup_map hsecond hac hbc rfl)
  · intro a b c hab hac
    exact congrArg (·.2) (List.inj_on_of_nodup_map hfirst hab hac rfl)

/-- Where every block has a tag of its own, it does not matter which. -/
theorem Alike.evaluates_iff [DecidableEq ι] [DecidableEq κ] {T : ι → κ → Prop}
    {l : List (Node ι)} {l' : List (Node κ)} (h : Alike T l l') (nodup : (blockTagsOf l).Nodup)
    (nodup' : (blockTagsOf l').Nodup) (r : Except CompileError Stylesheet) :
    Evaluates l r ↔ Evaluates l' r := by
  obtain ⟨pairs, halike, hfirst, hsecond⟩ := h.exists_pairs
  have unique := biUnique_of_nodup (hfirst.nodup_iff.mpr nodup) (hsecond.nodup_iff.mpr nodup')
  have flipped : Relator.BiUnique (flip fun a b => (a, b) ∈ pairs) :=
    ⟨fun _ _ _ h h' => unique.2 h h', fun _ _ _ h h' => unique.1 h h'⟩
  exact ⟨halike.evaluates unique, halike.symm.evaluates flipped⟩

/-! ## Numbers for tags -/

/-- Different tags, from one number on and below another. -/
structure TagsBetween (first : Nat) (tags : List Nat) (last : Nat) : Prop where
  le : first ≤ last
  nodup : tags.Nodup
  mem : ∀ tag ∈ tags, first ≤ tag ∧ tag < last

namespace TagsBetween

variable {first next last : Nat} {tags tags' : List Nat}

theorem append (h : TagsBetween first tags next) (h' : TagsBetween next tags' last) :
    TagsBetween first (tags ++ tags') last where
  le := h.le.trans h'.le
  nodup := by
    refine List.nodup_append.mpr ⟨h.nodup, h'.nodup, fun tag htag tag' htag' => ?_⟩
    have := h.mem tag htag
    have := h'.mem tag' htag'
    omega
  mem tag htag := by
    have := h.le
    have := h'.le
    obtain htag | htag := List.mem_append.mp htag
    · have := h.mem tag htag
      omega
    · have := h'.mem tag htag
      omega

theorem cons (h : TagsBetween (first + 1) tags last) : TagsBetween first (first :: tags) last := by
  have own : TagsBetween first [first] (first + 1) :=
    ⟨Nat.le_succ first, List.nodup_singleton first, by simp⟩
  exact own.append h

end TagsBetween

mutual

theorem Node.number_tagsBetween : ∀ (n : Node ι) (next : Nat),
    TagsBetween next (n.number next).1.blockTags (n.number next).2
  | .statement tag text, next => ⟨Nat.le_succ next, .nil, nofun⟩
  | .block tag prelude body, next => by
    rw [Node.number, Node.blockTags]
    exact (numberNodes_tagsBetween body (next + 1)).cons
  | .imported file reference nodes, next => by
    rw [Node.number, Node.blockTags]
    exact numberNodes_tagsBetween nodes next

/-- Numbers are given out one after another. -/
theorem numberNodes_tagsBetween : ∀ (nodes : List (Node ι)) (next : Nat),
    TagsBetween next (blockTagsOf (numberNodes next nodes).1) (numberNodes next nodes).2
  | [], next => by
    rw [numberNodes, blockTagsOf]
    exact ⟨le_rfl, .nil, nofun⟩
  | n :: rest, next => by
    rw [numberNodes, blockTagsOf_cons]
    exact (n.number_tagsBetween next).append (numberNodes_tagsBetween rest _)

end

/-- No two blocks have one number. -/
theorem numberNodes_nodup (nodes : List (Node ι)) (next : Nat) :
    (blockTagsOf (numberNodes next nodes).1).Nodup := (numberNodes_tagsBetween nodes next).nodup

theorem numberNodes_append (nodes rest : List (Node ι)) (next : Nat) :
    (numberNodes next (nodes ++ rest)).1 =
      (numberNodes next nodes).1 ++ (numberNodes (numberNodes next nodes).2 rest).1 := by
  induction nodes generalizing next with
  | nil => rfl
  | cons n nodes ih =>
    rw [List.cons_append, numberNodes, numberNodes]
    exact congrArg _ (ih _)

mutual

theorem Node.number_alike {rest rest' : List (Node Nat)} (h : AlikeUpToTags rest rest') :
    ∀ (n : Node ι) (j k : Nat), AlikeUpToTags ((n.number j).1 :: rest) ((n.number k).1 :: rest')
  | .statement tag text, j, k => by
    rw [Node.number, Node.number]
    exact .statement j k text h
  | .block tag prelude body, j, k => by
    rw [Node.number, Node.number]
    exact .block prelude trivial (numberNodes_alike body (j + 1) (k + 1)) h
  | .imported file reference nodes, j, k => by
    rw [Node.number, Node.number]
    exact .imported file file reference (numberNodes_alike nodes j k) h

/-- Nodes numbered from one number on and from another are alike. -/
theorem numberNodes_alike : ∀ (nodes : List (Node ι)) (j k : Nat),
    AlikeUpToTags (numberNodes j nodes).1 (numberNodes k nodes).1
  | [], j, k => by
    rw [numberNodes, numberNodes]
    exact .nil
  | n :: rest, j, k => by
    rw [numberNodes, numberNodes]
    exact n.number_alike (numberNodes_alike rest _ _) j k

end

/-- Nodes and the same nodes numbered, from whatever number on. -/
def Renumbered (nodes : List (Node ι)) (nodes' : List (Node Nat)) : Prop :=
  ∃ k, nodes' = (numberNodes k nodes).1

mutual

theorem Node.number_bindings : ∀ (n : Node ι) (next : Nat),
    List.Forall₂ (Binding.Like (fun _ _ => True) Renumbered) n.bindings (n.number next).1.bindings
  | .statement tag text, next => by
    rw [Node.number]
    exact statement_bindings_like tag next text
  | .block tag prelude body, next => by
    rw [Node.number]
    exact block_bindings_like prelude trivial ⟨next + 1, rfl⟩
  | .imported file reference nodes, next => by
    rw [Node.number, Node.bindings, Node.bindings]
    exact numberNodes_bindings nodes next

/-- Numbering leaves what is declared, up to numbers in the bodies. -/
theorem numberNodes_bindings : ∀ (nodes : List (Node ι)) (next : Nat),
    List.Forall₂ (Binding.Like (fun _ _ => True) Renumbered) (bindingsOf nodes)
      (bindingsOf (numberNodes next nodes).1)
  | [], next => by
    rw [numberNodes]
    exact .nil
  | n :: rest, next => by
    rw [numberNodes, bindingsOf_cons, bindingsOf_cons]
    exact List.rel_append (n.number_bindings next) (numberNodes_bindings rest _)

end

theorem symbols_eq {T : ι → κ → Prop} {B : List (Node ι) → List (Node κ) → Prop} {f : Frame ι}
    {f' : Frame κ} (h : List.Forall₂ (Binding.Like T B) f f') :
    f'.map (·.symbol) = f.map (·.symbol) := by
  induction h with
  | nil => rfl
  | cons hb _ ih => rw [List.map_cons, List.map_cons, hb.symbol, ih]

theorem Node.number_symbols (n : Node ι) (next : Nat) :
    (n.number next).1.bindings.map (·.symbol) = n.bindings.map (·.symbol) :=
  symbols_eq (n.number_bindings next)

theorem numberNodes_symbols (nodes : List (Node ι)) (next : Nat) :
    (bindingsOf (numberNodes next nodes).1).map (·.symbol) = (bindingsOf nodes).map (·.symbol) :=
  symbols_eq (numberNodes_bindings nodes next)

theorem Node.number_declares (n : Node ι) (next : Nat) (x : Symbol) :
    (n.number next).1.declares x = n.declares x := by
  have h := congrArg (List.any · (· = x)) (n.number_symbols next)
  rw [List.any_map, List.any_map] at h
  exact h

theorem Node.number_isDefinition (n : Node ι) (next : Nat) :
    (n.number next).1.isDefinition = n.isDefinition := by
  cases n <;> rw [Node.number] <;> rfl

/-! ## Changes in one place -/

theorem Independent.number {m n : Node ι} (h : Independent m n) (j k : Nat) :
    Independent (m.number j).1 (n.number k).1 where
  definition := by
    rw [m.number_isDefinition, n.number_isDefinition]
    exact h.definition
  symbols x := by
    rw [m.number_declares, n.number_declares]
    exact h.symbols x

theorem Step.append {l m : List (Node ι)} (h : Step l m) (rest : List (Node ι)) :
    Step (l ++ rest) (m ++ rest) := by
  cases h with
  | inline file nodes before =>
    rw [List.cons_append, List.append_assoc]
    exact .inline file nodes (before ++ rest)
  | swap h before => exact .swap h (before ++ rest)

theorem Alike.append {T : ι → κ → Prop} {l m : List (Node ι)} {l' m' : List (Node κ)}
    (h : Alike T l l') (hm : Alike T m m') : Alike T (l ++ m) (l' ++ m') := by
  induction h with
  | nil => exact hm
  | statement tag tag' text _ ih => exact .statement tag tag' text ih
  | block prelude tags inside _ _ ih => exact .block prelude tags inside ih
  | imported file file' reference inside _ _ ih => exact .imported file file' reference inside ih
  | left step _ ih => exact .left (step.append m) ih
  | right step _ ih => exact .right (step.append m') ih

theorem Step.number {l m : List (Node ι)} (h : Step l m) (j k : Nat) :
    AlikeUpToTags (numberNodes j l).1 (numberNodes k m).1 := by
  cases h with
  | inline file nodes rest =>
    rw [numberNodes, Node.number, numberNodes_append]
    exact .left (.inline file _ _) ((numberNodes_alike nodes j k).append (numberNodes_alike rest _ _))
  | @swap m n h rest =>
    simp only [numberNodes]
    exact .left (.swap (h.number _ _) _)
      (n.number_alike (m.number_alike (numberNodes_alike rest _ _) _ _) _ _)

/-- A change of one list of nodes of a style sheet, at whatever depth. -/
inductive Within (R : List (Node ι) → List (Node ι) → Prop) :
    List (Node ι) → List (Node ι) → Prop where
  | here {l l' : List (Node ι)} (h : R l l') : Within R l l'
  | block (tag : ι) (prelude : Text) {body body' : List (Node ι)} (rest : List (Node ι))
      (h : Within R body body') :
    Within R (.block tag prelude body :: rest) (.block tag prelude body' :: rest)
  | imported (file : Location) (reference : Bool) {nodes nodes' : List (Node ι)}
      (rest : List (Node ι)) (h : Within R nodes nodes') :
    Within R (.imported file reference nodes :: rest) (.imported file reference nodes' :: rest)
  | later (n : Node ι) {rest rest' : List (Node ι)} (h : Within R rest rest') :
    Within R (n :: rest) (n :: rest')

namespace Within

variable {l l' : List (Node ι)}

/-- Changes that leave lists of nodes alike up to tags leave style sheets so. -/
theorem number {R : List (Node ι) → List (Node ι) → Prop}
    (alike : ∀ {l l'}, R l l' → ∀ j k, AlikeUpToTags (numberNodes j l).1 (numberNodes k l').1)
    (h : Within R l l') (j k : Nat) : AlikeUpToTags (numberNodes j l).1 (numberNodes k l').1 := by
  induction h generalizing j k with
  | here h => exact alike h j k
  | block tag prelude rest _ ih =>
    simp only [numberNodes, Node.number]
    exact .block prelude trivial (ih _ _) (numberNodes_alike rest _ _)
  | imported file reference rest _ ih =>
    simp only [numberNodes, Node.number]
    exact .imported file file reference (ih _ _) (numberNodes_alike rest _ _)
  | later n _ ih =>
    simp only [numberNodes]
    exact n.number_alike (ih _ _) _ _

theorem evaluates_iff_of_alike {R : List (Node ι) → List (Node ι) → Prop}
    (alike : ∀ {l l'}, R l l' → ∀ j k, AlikeUpToTags (numberNodes j l).1 (numberNodes k l').1)
    (h : Within R l l') (r : Except CompileError Stylesheet) :
    Evaluates (numbered l) r ↔ Evaluates (numbered l') r :=
  (h.number alike 0 0).evaluates_iff (numberNodes_nodup l 0) (numberNodes_nodup l' 0) r

open Relation in
/-- A change that can be made in steps leaves the result, wherever it is made. -/
theorem evaluates_iff {R : List (Node ι) → List (Node ι) → Prop}
    (steps : ∀ {l l'}, R l l' → ReflTransGen (Within Step) l l') (h : Within R l l')
    (r : Except CompileError Stylesheet) :
    Evaluates (numbered l) r ↔ Evaluates (numbered l') r := by
  have hsteps : ReflTransGen (Within Step) l l' := by
    induction h with
    | here h => exact steps h
    | block tag prelude rest _ ih =>
      exact ih.lift (fun body => .block tag prelude body :: rest) fun _ _ h =>
        Within.block tag prelude rest h
    | imported file reference rest _ ih =>
      exact ih.lift (fun nodes => .imported file reference nodes :: rest) fun _ _ h =>
        Within.imported file reference rest h
    | later n _ ih => exact ih.lift (n :: ·) fun _ _ h => Within.later n h
  clear h
  induction hsteps with
  | refl => exact .rfl
  | tail _ step ih => exact ih.trans (step.evaluates_iff_of_alike Step.number r)

end Within

end StyleTypings.Less
