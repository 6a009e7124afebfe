/-
At-rules — blocks of at-rules that belong to the selectors around them.

`@media` and its like do not select anything.  With the at-rule the selectors around it
come once more, in a rule set of the at-rule's own, if its body declares something for
them; without it, its body says so to the body around it, and the selectors come where
that leads to, which may be a call or several calls away.  What is the same in both, of
every part of an evaluation, is the selectors of its rule sets together with those that
it declares something for (`Selects`).  So as long as no call names what the body
declares, the nodes of the body in the place of the block leave whether a style sheet has
a result, and the selectors in it (`selectors_of_dissolved`).
-/
import StyleTypings.Proofs.Evaluation.Exchange

namespace StyleTypings.Less

variable {ι κ : Type}

/-! ## Preludes that name nothing -/

/-- No part of a prelude between commas begins with a dot or a hash. -/
def Nameless (prelude : Text) : Prop :=
  ∀ part ∈ splitTop ',' prelude, (Text.trim part).head? ≠ some '.' ∧ (Text.trim part).head? ≠ some '#'

instance (prelude : Text) : Decidable (Nameless prelude) :=
  inferInstanceAs (Decidable (∀ part ∈ splitTop ',' prelude, _ ∧ _))

theorem takeMixinName?_eq_none {t : Text} (h : t.head? ≠ some '.' ∧ t.head? ≠ some '#') :
    takeMixinName? t = none := by
  cases t with
  | nil => rfl
  | cons c rest =>
    rw [takeMixinName?, if_neg]
    simpa using h

theorem names_of_nameless {atRule : Text} (h : Nameless ('@' :: atRule)) :
    Signature.names ('@' :: atRule) = [] := by
  have hread : Signature.read? ('@' :: atRule) = none := by
    rw [Signature.read?, takeMixinName?_eq_none (by simp)]
  have hlist : Signature.ofList ('@' :: atRule) = [] := by
    refine List.filterMap_eq_nil_iff.mpr fun part hpart => ?_
    rw [Signature.read?, takeMixinName?_eq_none (h part hpart)]
  rw [Signature.names, hread, hlist]
  rfl

/-! ## Blocks that can be dissolved -/

/-- The block of an at-rule that belongs to the selectors around it.  Its prelude names
nothing, and nothing that it declares is called in a style sheet. -/
structure Transparent (sheet : List (Node ι)) (prelude : Text) (body : List (Node κ)) : Prop where
  atRule : ∃ name, prelude = '@' :: name ∧ Selector.bubbles name = true
  attached : detachedName? prelude = none
  nameless : Nameless prelude
  uncalled : Uncalled sheet body

namespace Transparent

variable {sheet : List (Node ι)} {prelude : Text} {body : List (Node ι)}

theorem bindings (h : Transparent sheet prelude body) (tag : ι) :
    (Node.block tag prelude body).bindings = [] := by
  obtain ⟨name, rfl, _⟩ := h.atRule
  simp only [Node.bindings, h.attached, names_of_nameless h.nameless, List.map_nil]

theorem task [DecidableEq ι] (h : Transparent sheet prelude body) (tag : ι) (s : Scope ι)
    (expanding : List ι) (context : List Text) :
    s.task expanding context (.block tag prelude body) = .ok (.ruleset context body) := by
  obtain ⟨name, rfl, hbubbles⟩ := h.atRule
  simp [Scope.task, Scope.blockTask, h.attached, hbubbles]

theorem numberNodes {body : List (Node κ)} (h : Transparent sheet prelude body) (j k : Nat) :
    Transparent (numberNodes j sheet).1 prelude (Less.numberNodes k body).1 :=
  ⟨h.atRule, h.attached, h.nameless, h.uncalled.numberNodes j k⟩

end Transparent

/-- The nodes of such a block in its place. -/
inductive Dissolved (sheet : List (Node ι)) : Node ι → List (Node ι) → Prop where
  | dissolve (tag : ι) {prelude : Text} {body : List (Node ι)} (h : Transparent sheet prelude body) :
    Dissolved sheet (.block tag prelude body) body

/-! ## Selectors -/

/-- What a result selects where it stands: the selectors of its rule sets, and those around
it if it declares something for them. -/
def Selects (context : List Text) (r : Bool × Stylesheet) (selector : Text) : Prop :=
  selector ∈ Stylesheet.selectors r.2 ∨ (r.1 = true ∧ selector ∈ context)

theorem selects_both (context : List Text) (r r' : Bool × Stylesheet) (selector : Text) :
    Selects context (r.1 || r'.1, r.2 ++ r'.2) selector ↔
      Selects context r selector ∨ Selects context r' selector := by
  simp only [Selects, Stylesheet.selectors, List.flatMap_append, List.mem_append, Bool.or_eq_true]
  tauto

/-- A block selects what its body does for the block's own selectors. -/
theorem selects_block (context selectors : List Text) (r : Bool × Stylesheet) (selector : Text) :
    Selects context (false, ownRulesets selectors true r.1 ++ r.2) selector ↔
      Selects selectors r selector := by
  obtain ⟨declares, sheet⟩ := r
  have own : selector ∈ Stylesheet.selectors (ownRulesets selectors true declares) ↔
      declares = true ∧ selector ∈ selectors := by
    cases declares <;> cases selectors <;> simp [ownRulesets, Stylesheet.selectors]
  simp only [Selects, Stylesheet.selectors, List.flatMap_append, List.mem_append, Bool.false_eq_true,
    false_and, or_false] at own ⊢
  rw [own, or_comm]

/-- The same error, or results that select the same where they stand. -/
abbrev SelectAlike (context : List Text) : Except Halt (Bool × Stylesheet) →
    Except Halt (Bool × Stylesheet) → Prop :=
  ResultLike fun r r' => ∀ selector, Selects context r selector ↔ Selects context r' selector

namespace SelectAlike

variable {context : List Text} {o o' x x' : Except Halt (Bool × Stylesheet)}

theorem refl (o : Except Halt (Bool × Stylesheet)) : SelectAlike context o o := by
  cases o with
  | ok r => exact .ok fun _ => .rfl
  | error e => exact .error e

theorem both (h : SelectAlike context o x) (h' : SelectAlike context o' x') :
    SelectAlike context (bothOutcomes o o') (bothOutcomes x x') := by
  cases h with
  | error e => exact .error e
  | ok h =>
    cases h' with
    | error e => exact .error e
    | ok h' =>
      refine .ok fun selector => ?_
      rw [selects_both, selects_both, h, h']

/-- A block is made of bodies that select the same for its selectors, or of one of them: the
other says to the context what it declares. -/
theorem block {selectors : List Text} (h : SelectAlike selectors o x) :
    SelectAlike context (o.map fun r => (false, ownRulesets selectors true r.1 ++ r.2))
      (x.map fun r => (false, ownRulesets selectors true r.1 ++ r.2)) := by
  cases h with
  | error e => exact .error e
  | ok h =>
    refine .ok fun selector => ?_
    rw [selects_block, selects_block, h]

theorem left_block (h : SelectAlike context o x) :
    SelectAlike context (o.map fun r => (false, ownRulesets context true r.1 ++ r.2)) x := by
  cases h with
  | error e => exact .error e
  | ok h =>
    refine .ok fun selector => ?_
    rw [selects_block, h]

end SelectAlike

/-- With output, outcomes at the same depth that select the same. -/
def selecting : OutcomeRelation where
  Rel depth output context o x := output = true → SelectAlike context o (x depth)
  Import reference := reference = false
  cutOff h _ := h ▸ .refl _
  deeper h := h
  const o _ := .refl o
  both _ _ hx hy out := (hx out).both (hy out)
  block h out := by
    subst out
    exact (h rfl).block
  imported himport h out := h (by rw [out, himport]; rfl)

/-! ## Style sheets -/

/-- The block of an at-rule, and an import of its nodes, which takes as many steps. -/
inductive Dissolving (sheet : List (Node ι)) : Node ι → Node ι → Prop where
  | dissolve (tag : ι) {prelude : Text} {body : List (Node ι)} (h : Transparent sheet prelude body) :
    Dissolving sheet (.block tag prelude body) (.imported [] false body)

/-- Blocks of at-rules dissolved in a style sheet. -/
def dissolving (sheet : List (Node Nat)) : Replacement Nat Nat where
  sheet := sheet
  tags := Eq
  nodes := Dissolving sheet
  invariant _ := True
  unique := biUnique_eq
  unread := by
    rintro _ _ ⟨tag, h⟩ x read
    rw [h.bindings, Node.bindings]
    exact ⟨rfl, h.uncalled.about read⟩
  enter _ _ := trivial
  withValues _ _ := trivial

/-- The body of the at-rule is the same in both, and no call sees in which frame its blocks
are declared. -/
theorem dissolving_follows {sheet : List (Node Nat)}
    (output : ∀ file nodes, ¬ (Node.imported file true nodes).Occurs sheet) (depth : Nat) :
    (dissolving sheet).pairing.Follows selecting depth := by
  refine (dissolving sheet).follows selecting ?_ ?_ depth
  · intro file reference nodes hn
    cases reference with
    | false => rfl
    | true => exact absurd hn (output file nodes)
  · rintro depth follows _ _ @⟨tag, prelude, body, h⟩ hn s s' hs context out e e' he rfl
    -- The frame of the at-rule is on one of the scopes only, and nothing is looked up in it.
    have bodies : (dissolving sheet).Bodies body body := ⟨.block hn, replaced_refl body⟩
    have scopes : (dissolving sheet).Scopes (s.enter body) s' :=
      ⟨hs.agree.cons_left fun x read => h.uncalled.about read, trivial⟩
    have inside := follows bodies scopes context true he rfl
    show SelectAlike context _ (outcome (evalNode (evalBody depth) s' context true _) e')
    rw [outcome_evalNode_ok _ _ _ _ (h.task tag s e context), outcome_evalTask_ruleset,
      outcome_evalNode_ok _ _ _ _ rfl]
    exact inside.left_block

theorem Dissolved.bridge {sheet : List (Node ι)} {n : Node ι} {body : List (Node ι)}
    (h : Dissolved sheet n body) (j : Nat) :
    ∃ m, NodeBridge (Dissolving (numbered sheet)) [] n body j m := by
  obtain @⟨tag, prelude, _, h⟩ := h
  refine ⟨.imported [] false (numberNodes (j + 1) body).1, .of_imported ?_ ?_⟩
  · rw [Node.number]
    exact .dissolve j (h.numberNodes 0 (j + 1))
  · rw [Node.number, Node.blockTags, List.append_nil]
    exact (List.sublist_cons_self _ _).subperm

/-- Rule sets with the same selectors, in whatever order and number. -/
def SameSelectors (r r' : Stylesheet) : Prop :=
  ∀ selector, selector ∈ r.selectors ↔ selector ∈ r'.selectors

/-- Around a whole style sheet there are no selectors. -/
theorem SelectAlike.sameSelectors {o o' : Except Halt (Bool × Stylesheet)}
    (h : SelectAlike [] o o') : ResultLike SameSelectors (o.map (·.2)) (o'.map (·.2)) := by
  cases h with
  | error e => exact .error e
  | ok h => exact .ok fun selector => by simpa [Selects] using h selector

/-- What compares with a result is a result. -/
theorem ResultLike.exists_result {α β : Type} {R : α → β → Prop} {r : Except CompileError α}
    {o : Except Halt β} (h : ResultLike R (r.mapError Halt.error) o) :
    ∃ r' : Except CompileError β, o = r'.mapError Halt.error ∧ ResultLike R r r' := by
  cases r with
  | ok a =>
    cases h with
    | ok h => exact ⟨.ok _, rfl, .ok h⟩
  | error e =>
    cases h with
    | error => exact ⟨.error e, rfl, .error e⟩

/-- The nodes of an at-rule's block in its place, at whatever depth, leave whether a style
sheet without imports by reference has a result, its error, and its selectors. -/
theorem selectors_of_dissolved {before after : List (Node ι)}
    (h : Within (Exchange (Dissolved before)) before after)
    (output : ∀ file nodes, ¬ (Node.imported file true nodes).Occurs before) :
    (∀ r, Evaluates (numbered before) r →
      ∃ r', Evaluates (numbered after) r' ∧ ResultLike SameSelectors r r') ∧
    ∀ r', Evaluates (numbered after) r' →
      ∃ r, Evaluates (numbered before) r ∧ ResultLike SameSelectors r r' := by
  obtain ⟨middle, bridge⟩ :
      ∃ middle, Bridge (numbered before) _ [] (numbered before) after middle :=
    h.bridge Dissolved.bridge 0
  have output' : ∀ file nodes, ¬ (Node.imported file true nodes).Occurs (numbered before) := by
    intro file nodes hn
    obtain ⟨m, j, hm, hnumber⟩ := occurs_numberNodes before 0 hn
    cases m <;> rw [Node.number] at hnumber <;> cases hnumber
    exact output file _ hm
  have same (depth : Nat) : ResultLike SameSelectors (evaluateWithin depth (numbered before))
      (evaluateWithin depth middle) := by
    have compares := (dissolving (numbered before)).compares selecting
      (dissolving_follows output' depth) bridge.replaced trivial
    rw [evaluateWithin_eq, evaluateWithin_eq]
    exact SelectAlike.sameSelectors (compares rfl)
  constructor
  · rintro r ⟨depth, hr⟩
    obtain ⟨r', hr', hlike⟩ := (hr ▸ same depth).exists_result
    exact ⟨r', (bridge.evaluates_iff (.nil _) r').mp ⟨depth, hr'⟩, hlike⟩
  · intro r' hafter
    obtain ⟨depth, hmiddle⟩ := (bridge.evaluates_iff (.nil _) r').mpr hafter
    obtain ⟨r, hr, hlike⟩ := (hmiddle ▸ (same depth).symm).exists_result
    exact ⟨r, ⟨depth, hr⟩, hlike.symm⟩

/-- A mixin, and a rule set that calls it. -/
def calling (body : List (Node Nat)) : List (Node Nat) :=
  [.block 0 ".m()" body, .block 1 ".a" [.statement 2 ".m()"]]

def printed : List (Node Nat) := [.statement 4 "c: d", .block 5 ".b" [.statement 6 "c: d"]]

theorem transparent_printed :
    Transparent (calling [.block 3 "@media print" printed]) "@media print" printed where
  atRule := ⟨"media print", rfl, rfl⟩
  attached := rfl
  nameless := by decide
  uncalled := by
    intro b hb
    obtain rfl : b = .mixin ".b" ⟨5, ".b", [.statement 6 "c: d"]⟩ := List.mem_singleton.mp hb
    refine ⟨".b", rfl, ?_⟩
    rintro ⟨tag, text, h, hx⟩
    simp only [calling, printed, Node.occurs_cons, Node.inside, Node.not_occurs_nil,
      Node.statement.injEq, reduceCtorEq, or_self, or_false, false_or] at h
    obtain (⟨rfl, rfl⟩ | ⟨rfl, rfl⟩) | ⟨rfl, rfl⟩ := h <;> revert hx <;> decide

/-- In a mixin, the rule set of an at-rule is made for the selectors of the call, and so is
what stands in its place. -/
theorem selectors_calling_printed :
    Within (Exchange (Dissolved (calling [.block 3 "@media print" printed])))
        (calling [.block 3 "@media print" printed]) (calling printed) ∧
      (∀ file nodes, ¬ (Node.imported file true nodes).Occurs
        (calling [.block 3 "@media print" printed])) ∧
      Evaluates (numbered (calling [.block 3 "@media print" printed]))
        (.ok [⟨[".a"]⟩, ⟨[".a .b"]⟩]) ∧
      ∃ r', Evaluates (numbered (calling printed)) r' ∧
        ResultLike SameSelectors (.ok [⟨[".a"]⟩, ⟨[".a .b"]⟩]) r' := by
  have exchange : Exchange (Dissolved (calling [.block 3 "@media print" printed]))
      [.block 3 "@media print" printed] printed :=
    .exchange (Dissolved.dissolve 3 transparent_printed) []
  have within : Within (Exchange (Dissolved (calling [.block 3 "@media print" printed])))
      (calling [.block 3 "@media print" printed]) (calling printed) :=
    .block 0 ".m()" _ (.here exchange)
  have output : ∀ file nodes, ¬ (Node.imported file true nodes).Occurs
      (calling [.block 3 "@media print" printed]) := by
    simp [calling, printed, Node.occurs_cons, Node.inside, Node.not_occurs_nil]
  have result : Evaluates (numbered (calling [.block 3 "@media print" printed]))
      (.ok [⟨[".a"]⟩, ⟨[".a .b"]⟩]) := ⟨5, rfl⟩
  exact ⟨within, output, result, (selectors_of_dissolved within output).1 _ result⟩

end StyleTypings.Less
