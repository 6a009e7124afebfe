/-
Replacement — a style sheet with other nodes in the place of some of its own.

Nodes are replaced one by one, wherever they stand (`Replaced`).  What it takes for the two
style sheets to compare is said in three parts:

  what is called    the replaced nodes, and those in their places, declare nothing that a
                    call in the style sheet names; so whatever is looked up stands for the
                    same in both (`Replacement.frames`)
  what is entered   every body is one of the style sheet's, so a property of scopes holds
                    throughout if such bodies keep it (`Replacement.invariant`)
  what is replaced  the nodes themselves compare, in scopes that agree, as soon as the
                    bodies that they enter do

The rest is the same in both, and follows (`Replacement.follows`).  Tags have to belong
together only where a block can be called.
-/
import StyleTypings.Proofs.Evaluation.Comparison
import StyleTypings.Proofs.Evaluation.Origin
import StyleTypings.Proofs.Evaluation.Simulation

namespace StyleTypings.Less

variable {ι κ : Type}

/-! ## What is called -/

/-- A statement in a style sheet, at whatever depth, calls a symbol. -/
def Called (sheet : List (Node ι)) (x : Symbol) : Prop :=
  ∃ tag text, (Node.statement tag text).Occurs sheet ∧ x ∈ (Statement.ofText text).calls

/-- All that nodes declare are plain rule sets and mixins that no call in a style sheet
names. -/
def Uncalled (sheet : List (Node ι)) (nodes : List (Node κ)) : Prop :=
  ∀ b ∈ bindingsOf nodes, ∃ name, b.symbol = .mixin name ∧ ¬ Called sheet (.mixin name)

theorem Uncalled.about {sheet : List (Node ι)} {nodes : List (Node κ)} (h : Uncalled sheet nodes)
    {x : Symbol} (read : x.IsRead (Called sheet)) : (bindingsOf nodes).about x = [] := by
  refine List.filter_eq_nil_iff.mpr fun b hb => ?_
  obtain ⟨name, hname, huncalled⟩ := h b hb
  rw [decide_eq_true_iff, hname]
  rintro rfl
  exact huncalled read

/-- A statement that asks for something declares no variable. -/
theorem bindings_of_ofText_ne_inert (tag : ι) {text : Text} (h : Statement.ofText text ≠ .inert) :
    (Node.statement tag text).bindings = [] := by
  rw [Node.bindings]
  split
  · rename_i hassignment
    exact absurd (ofText_of_assignment? (Option.isSome_of_eq_some hassignment)) h
  · rfl

/-- A body of a style sheet: its own nodes, those in a block, or those of an import. -/
inductive BodyOf (sheet : List (Node ι)) : List (Node ι) → Prop where
  | sheet : BodyOf sheet sheet
  | block {tag : ι} {prelude : Text} {body : List (Node ι)}
      (h : (Node.block tag prelude body).Occurs sheet) : BodyOf sheet body
  | imported {file : Location} {reference : Bool} {nodes : List (Node ι)}
      (h : (Node.imported file reference nodes).Occurs sheet) : BodyOf sheet nodes

theorem BodyOf.occurIn {sheet nodes : List (Node ι)} (h : BodyOf sheet nodes) :
    OccurIn sheet nodes := by
  cases h with
  | sheet => exact .refl sheet
  | block h => exact .body h
  | imported h => exact .nodes h

/-- What a body declares a block of the style sheet declares, or the style sheet itself. -/
theorem BodyOf.bindings {sheet nodes : List (Node ι)} (h : BodyOf sheet nodes) :
    (bindingsOf nodes).Sublist (bindingsOf sheet) ∨
      ∃ tag prelude body, (Node.block tag prelude body).Occurs sheet ∧
        (bindingsOf nodes).Sublist (bindingsOf body) := by
  cases h with
  | sheet => exact .inl (.refl _)
  | @block tag prelude _ h => exact .inr ⟨tag, prelude, nodes, h, .refl _⟩
  | @imported file reference _ h =>
    induction h with
    | head =>
      rw [bindingsOf_cons, Node.bindings]
      exact .inl (List.sublist_append_left _ _)
    | tail _ ih =>
      obtain own | ⟨tag, prelude, body, hbody, own⟩ := ih
      · rw [bindingsOf_cons]
        exact .inl (own.trans (List.sublist_append_right _ _))
      · exact .inr ⟨tag, prelude, body, .tail hbody, own⟩
    | @block tag prelude inner _ _ ih =>
      obtain own | ⟨tag, prelude, body, hbody, own⟩ := ih
      · exact .inr ⟨tag, prelude, inner, .head, own⟩
      · exact .inr ⟨tag, prelude, body, .block hbody, own⟩
    | imported _ ih =>
      obtain own | ⟨tag, prelude, body, hbody, own⟩ := ih
      · rw [bindingsOf_cons, Node.bindings]
        exact .inl (own.trans (List.sublist_append_left _ _))
      · exact .inr ⟨tag, prelude, body, .imported hbody, own⟩

/-! ## Replaced nodes -/

/-- Lists of nodes that differ by replaced nodes, at whatever depth.  Blocks that can be
called have tags that belong together. -/
inductive Replaced (sheet : List (Node ι)) (T : ι → κ → Prop) (R : Node ι → Node κ → Prop) :
    List (Node ι) → List (Node κ) → Prop where
  | nil : Replaced sheet T R [] []
  | statement (tag : ι) (tag' : κ) (text : Text) {rest : List (Node ι)} {rest' : List (Node κ)}
      (h : Replaced sheet T R rest rest') :
    Replaced sheet T R (.statement tag text :: rest) (.statement tag' text :: rest')
  | block {tag : ι} {tag' : κ} (prelude : Text) {body rest : List (Node ι)}
      {body' rest' : List (Node κ)}
      (tags : ∀ name ∈ Signature.names prelude, Called sheet (.mixin name) → T tag tag')
      (inside : Replaced sheet T R body body') (h : Replaced sheet T R rest rest') :
    Replaced sheet T R (.block tag prelude body :: rest) (.block tag' prelude body' :: rest')
  | imported (file file' : Location) (reference : Bool) {nodes rest : List (Node ι)}
      {nodes' rest' : List (Node κ)} (inside : Replaced sheet T R nodes nodes')
      (h : Replaced sheet T R rest rest') :
    Replaced sheet T R (.imported file reference nodes :: rest)
      (.imported file' reference nodes' :: rest')
  | node {n : Node ι} {n' : Node κ} {rest : List (Node ι)} {rest' : List (Node κ)} (hn : R n n')
      (h : Replaced sheet T R rest rest') : Replaced sheet T R (n :: rest) (n' :: rest')

/-- The nodes of a style sheet that are replaced, and what holds of its scopes. -/
structure Replacement (ι κ : Type) where
  sheet : List (Node ι)
  tags : ι → κ → Prop
  nodes : Node ι → Node κ → Prop
  invariant : Scope ι → Prop
  unique : Relator.BiUnique tags
  /-- Neither node declares what is looked up. -/
  unread : ∀ {n n'}, nodes n n' → ∀ x, x.IsRead (Called sheet) →
    n.bindings.about x = [] ∧ n'.bindings.about x = []
  enter : ∀ {s body}, invariant s → BodyOf sheet body → invariant (s.enter body)
  withValues : ∀ {s}, invariant s → ∀ values, invariant (s.withValues values)

/-- Tags that are kept. -/
theorem biUnique_eq : Relator.BiUnique (Eq : ι → ι → Prop) :=
  ⟨fun _ _ _ h h' => h.trans h'.symm, fun _ _ _ h h' => h.symm.trans h'⟩

namespace Replacement

variable (R : Replacement ι κ)

/-- A body of the first style sheet and the one in its place. -/
def Bodies (nodes : List (Node ι)) (nodes' : List (Node κ)) : Prop :=
  BodyOf R.sheet nodes ∧ Replaced R.sheet R.tags R.nodes nodes nodes'

/-- Scopes that agree about what is called. -/
structure Scopes (s : Scope ι) (s' : Scope κ) : Prop where
  agree : s.Agree R.tags R.Bodies (Called R.sheet) s'
  invariant : R.invariant s

variable {R}

theorem block_agrees {tag : ι} {tag' : κ} {prelude : Text} {body : List (Node ι)}
    {body' : List (Node κ)}
    (tags : ∀ name ∈ Signature.names prelude, Called R.sheet (.mixin name) → R.tags tag tag')
    (h : R.Bodies body body') :
    (Node.block tag prelude body).bindings.Agree R.tags R.Bodies (Called R.sheet)
      (Node.block tag' prelude body').bindings := by
  intro x read
  by_cases belong : R.tags tag tag'
  · exact Frame.Like.of_forall₂ (block_bindings_like prelude belong h) x
  rw [Node.bindings, Node.bindings]
  split
  · exact Frame.Like.of_forall₂ (.cons (.detached _ h) .nil) x
  · -- Nothing calls the block, so all its bindings are passed over.
    have nothing : ∀ name ∈ Signature.names prelude, .mixin name ≠ x := by
      rintro name hname rfl
      exact belong (tags name hname read)
    have about {α : Type} (d : Definition α) :
        Frame.about ((Signature.names prelude).map fun name => .mixin name d) x = [] := by
      refine List.filter_eq_nil_iff.mpr fun b hb => ?_
      obtain ⟨name, hname, rfl⟩ := List.mem_map.mp hb
      rw [decide_eq_true_iff]
      exact nothing name hname
    rw [about, about]
    exact .nil

/-- What is looked up is declared by both lists alike. -/
theorem frames_of_occurIn {nodes : List (Node ι)} {nodes' : List (Node κ)}
    (occur : OccurIn R.sheet nodes) (h : Replaced R.sheet R.tags R.nodes nodes nodes') :
    (bindingsOf nodes).Agree R.tags R.Bodies (Called R.sheet) (bindingsOf nodes') := by
  have cons : ∀ {n : Node ι} {n' : Node κ} {rest rest'},
      n.bindings.Agree R.tags R.Bodies (Called R.sheet) n'.bindings →
      (bindingsOf rest).Agree R.tags R.Bodies (Called R.sheet) (bindingsOf rest') →
      (bindingsOf (n :: rest)).Agree R.tags R.Bodies (Called R.sheet) (bindingsOf (n' :: rest')) := by
    intro n n' rest rest' hn hrest x read
    rw [bindingsOf_cons, bindingsOf_cons, Frame.about_append, Frame.about_append]
    exact List.rel_append (hn x read) (hrest x read)
  induction h with
  | nil => exact fun x _ => .nil
  | statement tag tag' text _ ih =>
    have hn := Frame.Like.of_forall₂ (statement_bindings_like (T := R.tags) (B := R.Bodies) tag tag' text)
    exact cons (hn.agree _) (ih occur.cons)
  | block prelude tags inside _ _ ih =>
    have hbody : BodyOf R.sheet _ := .block (occur _ List.mem_cons_self)
    exact cons (block_agrees tags ⟨hbody, inside⟩) (ih occur.cons)
  | imported file file' reference inside _ insideFrames ih =>
    have hnodes := insideFrames (.nodes (occur _ List.mem_cons_self))
    refine cons ?_ (ih occur.cons)
    rw [Node.bindings, Node.bindings]
    exact hnodes
  | node hn _ ih =>
    refine cons (fun x read => ?_) (ih occur.cons)
    obtain ⟨hbefore, hafter⟩ := R.unread hn x read
    rw [hbefore, hafter]
    exact .nil

theorem frames (nodes : List (Node ι)) (nodes' : List (Node κ)) (h : R.Bodies nodes nodes') :
    (bindingsOf nodes).Agree R.tags R.Bodies (Called R.sheet) (bindingsOf nodes') :=
  frames_of_occurIn h.1.occurIn h.2

namespace Scopes

variable {s : Scope ι} {s' : Scope κ} (hs : R.Scopes s s')

include hs

theorem enter {nodes : List (Node ι)} {nodes' : List (Node κ)} (h : R.Bodies nodes nodes') :
    R.Scopes (s.enter nodes) (s'.enter nodes') where
  agree := hs.agree.enter frames h
  invariant := R.enter hs.invariant h.1

theorem candidate {c : Candidate ι} {c' : Candidate κ} (h : c.Like R.tags R.Bodies c')
    (a : Arguments) : R.Scopes (c.scope s a) (c'.scope s' a) where
  agree := h.agree hs.agree frames a
  invariant := R.withValues (R.enter hs.invariant h.definition.body.1) _

end Scopes

variable [DecidableEq ι] [DecidableEq κ]

variable (R) in
/-- The bodies, the scopes that agree, and the same definitions being expanded in both. -/
def pairing : Pairing ι κ where
  tags := R.tags
  bodies := R.Bodies
  scopes := R.Scopes
  expanding e e' := ∀ {tag tag'}, R.tags tag tag' →
    e.length = e'.length ∧ e.contains tag = e'.contains tag'
  enter hs h := hs.enter h
  expand hs h a := hs.candidate h a
  push {tag tag' e e'} htag he := by
    intro other other' hother
    obtain ⟨hlength, hcontains⟩ := he hother
    have same : (other == tag) = (other' == tag') :=
      Bool.eq_iff_iff.mpr (by simpa using Relator.rel_eq R.unique hother htag)
    exact ⟨congrArg (· + 1) hlength, by rw [List.contains_cons, List.contains_cons, same, hcontains]⟩
  room htag he := by rw [(he htag).1]

variable (C : OutcomeRelation)

/-- The style sheets compare body by body if the replaced nodes do. -/
theorem follows
    (imports : ∀ file reference nodes, (Node.imported file reference nodes).Occurs R.sheet →
      C.Import reference)
    (replaced : ∀ depth, R.pairing.Follows C depth → ∀ {n n'}, R.nodes n n' → n.Occurs R.sheet →
      ∀ {s s'}, R.Scopes s s' → ∀ context output {e e'}, R.pairing.expanding e e' →
        C.Rel depth output context (outcome (evalNode (evalBody depth) s context output n) e)
          fun d => outcome (evalNode (evalBody d) s' context output n') e')
    (depth : Nat) : R.pairing.Follows C depth := by
  refine R.pairing.follows_of_nodes C ?_ depth
  intro depth follows nodes nodes' h s s' hs context output e e' he
  obtain ⟨hbody, h⟩ := h
  have occur := hbody.occurIn
  -- The rest of a body is no body of the style sheet, but its nodes occur in it all the same.
  clear hbody
  induction h with
  | nil => exact C.const _
  | statement tag tag' text _ ih =>
    have calls : ∀ x ∈ (Statement.ofText text).calls, Called R.sheet x := fun x hx =>
      ⟨tag, text, occur _ List.mem_cons_self, hx⟩
    have asks := statementTask_like hs.agree frames (fun htag => (he htag).2) calls
    exact cons_compares (node_compares follows hs context output he asks nofun) (ih occur.cons)
  | block prelude tags inside _ _ ih =>
    have hbody : R.Bodies _ _ := ⟨.block (occur _ List.mem_cons_self), inside⟩
    have asks := blockTask_like (T := R.tags) hs.agree.rawValue? context prelude hbody
    exact cons_compares (node_compares follows hs context output he asks nofun) (ih occur.cons)
  | imported file file' reference inside _ _ ih =>
    have hn := occur _ List.mem_cons_self
    have hnodes : R.Bodies _ _ := ⟨.imported hn, inside⟩
    refine cons_compares
      (node_compares follows hs context output he (.ok (.imported reference hnodes)) ?_) (ih occur.cons)
    rintro _ _ _ ⟨⟩
    exact imports _ _ _ hn
  | node hn _ ih =>
    exact cons_compares (replaced depth follows hn (occur _ List.mem_cons_self) hs context output he)
      (ih occur.cons)

/-- What the style sheets come to compares. -/
theorem compares {depth : Nat} (follows : R.pairing.Follows C depth) {sheet' : List (Node κ)}
    (h : Replaced R.sheet R.tags R.nodes R.sheet sheet')
    (start : R.invariant (Scope.enter [] R.sheet)) :
    C.Rel depth true [] (outcome (evalBody depth (Scope.enter [] R.sheet) R.sheet [] true) [])
      fun d => outcome (evalBody d (Scope.enter [] sheet') sheet' [] true) [] := by
  have bodies : R.Bodies R.sheet sheet' := ⟨.sheet, h⟩
  have scopes : R.Scopes (Scope.enter [] R.sheet) (Scope.enter [] sheet') :=
    ⟨.enter .nil frames bodies, start⟩
  exact follows bodies scopes [] true fun _ => ⟨rfl, rfl⟩

end Replacement

end StyleTypings.Less
