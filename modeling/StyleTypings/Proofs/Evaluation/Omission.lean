/-
Omission — a style sheet without some of its imports.

Imports by reference give no output.  If they declare nothing either, what is left of them
is that they can say, for the block around them, that something is declared for it.
Leaving them out changes bodies and definitions throughout the scopes, but nothing that is
looked up, so every node that is left asks for what it asked for before, and

  a body declares       no more than before
  its rule sets         are some of those before, in order, and all of them exactly
                        when every block that declares something still does

The last is shown part by part (`Thins`), along with the bodies that a part enters, by
induction on the depth (`thinsWithin`).
-/
import StyleTypings.Proofs.Evaluation.Silence
import StyleTypings.Proofs.Evaluation.Simulation

namespace StyleTypings.Less

variable {ι : Type}

/-! ## Leaving out -/

section Leaving

variable (f : Location)

mutual

/-- A node without the imports of a file. -/
def Node.without : Node ι → List (Node ι)
  | .statement tag text => [.statement tag text]
  | .block tag prelude body => [.block tag prelude (without body)]
  | .imported file reference nodes =>
    if file = f then [] else [.imported file reference (without nodes)]

/-- Nodes without the imports of a file, at whatever depth. -/
def without : List (Node ι) → List (Node ι)
  | [] => []
  | n :: rest => n.without ++ without rest

end

mutual

/-- Whether the imports of a file in a node are by reference and declare nothing. -/
def Node.Quiet : Node ι → Prop
  | .statement _ _ => True
  | .block _ _ body => Quiet body
  | .imported file reference nodes =>
    if file = f then reference = true ∧ bindingsOf nodes = [] else Quiet nodes

/-- Whether the imports of a file among nodes, at whatever depth, are by reference and
declare nothing. -/
def Quiet : List (Node ι) → Prop
  | [] => True
  | n :: rest => n.Quiet ∧ Quiet rest

end

/-- The second nodes are the first without the imports of a file, and these are quiet. -/
def Omits (nodes nodes' : List (Node ι)) : Prop := Quiet f nodes ∧ nodes' = without f nodes

/-- A binding without the imports of a file in its body. -/
def Binding.without : Binding ι → Binding ι
  | .variable name value => .variable name value
  | .mixin name d => .mixin name { d with body := Less.without f d.body }
  | .detached name body => .detached name (Less.without f body)

def Scope.without (s : Scope ι) : Scope ι := s.map (List.map (Binding.without f))

def Candidate.without (c : Candidate ι) : Candidate ι :=
  { c with definition := { c.definition with body := Less.without f c.definition.body } }

/-- The visit of a body without the imports of a file. -/
def Visit.without (v : Visit ι) : Visit ι :=
  { v with scope := v.scope.without f, nodes := Less.without f v.nodes }

end Leaving

variable {f : Location}

/-! ## Scopes -/

theorem bindingsOf_singleton (n : Node ι) : bindingsOf [n] = n.bindings := by
  rw [bindingsOf_cons, bindingsOf, List.append_nil]

mutual

theorem Node.Quiet.bindings : ∀ {n : Node ι}, n.Quiet f →
    List.Forall₂ (Binding.Like Eq (Omits f)) n.bindings (bindingsOf (n.without f))
  | .statement tag text, _ => by
    rw [Node.without, bindingsOf_singleton]
    exact statement_bindings_like tag tag text
  | .block tag prelude body, h => by
    rw [Node.without, bindingsOf_singleton]
    exact block_bindings_like prelude rfl ⟨h, rfl⟩
  | .imported file reference nodes, h => by
    rw [Node.Quiet] at h
    rw [Node.without, Node.bindings]
    split at h
    · rw [if_pos ‹_›, h.2]
      exact .nil
    · rw [if_neg ‹_›, bindingsOf_singleton]
      exact h.bindings

/-- What is declared is declared without the imports, too. -/
theorem Quiet.bindings : ∀ {nodes : List (Node ι)}, Quiet f nodes →
    List.Forall₂ (Binding.Like Eq (Omits f)) (bindingsOf nodes) (bindingsOf (without f nodes))
  | [], _ => .nil
  | n :: rest, h => by
    rw [bindingsOf_cons, without, bindingsOf_append]
    rw [Quiet] at h
    exact List.rel_append h.1.bindings h.2.bindings

end

theorem Omits.frames (nodes nodes' : List (Node ι)) (h : Omits f nodes nodes') :
    (bindingsOf nodes).Like Eq (Omits f) (bindingsOf nodes') := by
  obtain ⟨quiet, rfl⟩ := h
  exact .of_forall₂ quiet.bindings

theorem Binding.eq_without {b b' : Binding ι} (h : b.Like Eq (Omits f) b') : b' = b.without f := by
  cases h with
  | «variable» => rfl
  | mixin name hd =>
    obtain ⟨htag, hprelude, _, hbody⟩ := hd
    rw [Binding.without, ← hbody, htag, hprelude]
  | detached name hbody => rw [Binding.without, hbody.2]

theorem Quiet.bindingsOf_without {nodes : List (Node ι)} (h : Quiet f nodes) :
    bindingsOf (without f nodes) = (bindingsOf nodes).map (Binding.without f) := by
  have hbindings := h.bindings
  generalize bindingsOf nodes = bs, bindingsOf (without f nodes) = bs' at hbindings
  induction hbindings with
  | nil => rfl
  | cons hb _ ih => rw [List.map_cons, ih, Binding.eq_without hb]

namespace Scope

variable {s : Scope ι}

theorem without_enter {nodes : List (Node ι)} (h : Quiet f nodes) :
    (s.enter nodes).without f = (s.without f).enter (Less.without f nodes) := by
  rw [Scope.enter, Scope.enter, h.bindingsOf_without]
  rfl

theorem without_withValues (values : List (Text × Text)) :
    (s.withValues values).without f = (s.without f).withValues values := by
  cases s <;> simp [Scope.withValues, Scope.without, Binding.without]

end Scope

/-- In the bodies that a scope leads to, the imports of a file are quiet. -/
def Scope.Quiet (f : Location) (s : Scope ι) : Prop := s.Like Eq (Omits f) (s.without f)

theorem Scope.Quiet.enter {s : Scope ι} (hs : s.Quiet f) {nodes : List (Node ι)}
    (h : Less.Quiet f nodes) : (s.enter nodes).Quiet f := by
  rw [Scope.Quiet, Scope.without_enter h]
  exact Scope.Like.enter hs Omits.frames ⟨h, rfl⟩

theorem Candidate.scope_without {c c' : Candidate ι} (h : c.Like Eq (Omits f) c') (s : Scope ι)
    (a : Arguments) : (c.scope s a).without f = c'.scope (s.without f) a := by
  obtain ⟨quiet, hbody⟩ := h.definition.body
  rw [Candidate.scope, Candidate.scope, Scope.without_withValues, Scope.without_enter quiet,
    hbody, h.signature]

/-- A node is an import that is left out, or it is left with a body like its own. -/
theorem Node.Quiet.left_or_out {n : Node ι} (h : n.Quiet f) :
    (∃ file nodes, n = .imported file true nodes ∧ n.without f = []) ∨
      ∃ n', n.without f = [n'] ∧ n.Like Eq (Omits f) n' := by
  cases n with
  | statement tag text => exact .inr ⟨_, by rw [Node.without], .statement tag tag text⟩
  | block tag prelude body =>
    rw [Node.Quiet] at h
    exact .inr ⟨_, by rw [Node.without], .block prelude rfl ⟨h, rfl⟩⟩
  | imported file reference nodes =>
    rw [Node.Quiet] at h
    split at h
    · obtain ⟨rfl, _⟩ := h
      exact .inl ⟨file, nodes, rfl, by rw [Node.without, if_pos ‹_›]⟩
    · exact .inr ⟨_, by rw [Node.without, if_neg ‹_›], .imported file file reference ⟨h, rfl⟩⟩

/-! ## Blocks that still declare something -/

variable [DecidableEq ι]

namespace Visit

variable {v : Visit ι}

/-- The body comes to an end and declares something for its context. -/
def Declares (v : Visit ι) : Prop := ∃ q, ComesTo v.eval v.progress true q

theorem eval_additive (v : Visit ι) (depth : Nat) : Additive (v.eval depth) :=
  evalBody_additive depth v.scope v.nodes v.context v.output

theorem declares_iff {depth : Nat} {o : Bool × Stylesheet}
    (h : outcome (v.eval depth) v.progress.expanding = .ok o) : v.Declares ↔ o.1 = true := by
  obtain ⟨q, hresult, _⟩ := (v.eval_additive depth).result_of_outcome h
  constructor
  · rintro ⟨q', hcomes⟩
    exact (hcomes.unique (evalBody_deepening v.scope v.nodes v.context v.output) hresult).1.symm
  · intro declares
    exact ⟨q, depth, declares ▸ hresult⟩

/-- If the block of a body has a rule set, it has one without the imports of a file. -/
def KeepsOwn (f : Location) (v : Visit ι) : Prop :=
  v.output = true → v.context ≠ [] → v.Declares → (v.without f).Declares

/-- All blocks that a visit comes to keep their rule sets. -/
def Keeps (f : Location) (v : Visit ι) : Prop :=
  ∀ u, v.Reaches u → ∀ w, u.Enters .block w → w.KeepsOwn f

/-- A body that is entered keeps its rule sets and, if it is that of a block, the block's. -/
def KeepsEntered (f : Location) (k : Visit.Kind) (v : Visit ι) : Prop :=
  (k = .block → v.KeepsOwn f) ∧ v.Keeps f

theorem keepsEntered_iff {k : Visit.Kind} (h : k ≠ .block) : v.KeepsEntered f k ↔ v.Keeps f := by
  simp [KeepsEntered, h]

theorem keeps_iff : v.Keeps f ↔ ∀ k w, v.Enters k w → w.KeepsEntered f k := by
  constructor
  · intro h k w hw
    refine ⟨?_, fun u hu => h u (.head ⟨k, hw⟩ hu)⟩
    rintro rfl
    exact h v .refl w hw
  · intro h u hu w hw
    obtain rfl | ⟨u', ⟨k, hstep⟩, hrest⟩ := hu.cases_head
    · exact (h .block w hw).1 rfl
    · exact (h k u' hstep).2 u hrest w hw

/-- Without output there are no rule sets to be kept. -/
theorem keeps_of_output_eq_false (h : v.output = false) : v.Keeps f := by
  intro u hu w hw houtput
  rw [output_of_reaches (hu.tail ⟨.block, hw⟩) houtput] at h
  cases h

end Visit

/-! ## Parts -/

/-- What a part comes to is, without the imports of a file, another value: nothing is
declared that is not before, and the rule sets are some of those before, and all of them
exactly under a condition. -/
def Thins (o : Bool × Stylesheet) (o' : Except Halt (Bool × Stylesheet)) (all : Prop) : Prop :=
  ∃ declares r, o' = .ok (declares, r) ∧ (declares = true → o.1 = true) ∧ r.Sublist o.2 ∧
    (r = o.2 ↔ all)

namespace Thins

variable {declares others : Bool} {r t : Stylesheet}
  {o' x' : Except Halt (Bool × Stylesheet)} {all rest : Prop}

theorem congr {o : Bool × Stylesheet} (h : Thins o o' all) (hall : all ↔ rest) :
    Thins o o' rest := by
  obtain ⟨declares, r, ho, hdeclares, hr, hiff⟩ := h
  exact ⟨declares, r, ho, hdeclares, hr, hiff.trans hall⟩

/-- Nothing changes about a part that enters no body. -/
theorem refl (o : Bool × Stylesheet) (h : all) : Thins o (.ok o) all :=
  ⟨o.1, o.2, rfl, id, .refl _, by simp [h]⟩

/-- Two lists with parts left out of both are whole exactly when both are. -/
theorem append_eq_append_iff {α : Type} {l m l' m' : List α} (hl : l'.Sublist l)
    (hm : m'.Sublist m) : l' ++ m' = l ++ m ↔ l' = l ∧ m' = m := by
  constructor
  · intro h
    have hlengths := congrArg List.length h
    rw [List.length_append, List.length_append] at hlengths
    have := hl.length_le
    have := hm.length_le
    exact ⟨hl.eq_of_length (by omega), hm.eq_of_length (by omega)⟩
  · rintro ⟨rfl, rfl⟩
    rfl

theorem both (h : Thins (declares, r) o' all) (h' : Thins (others, t) x' rest) :
    Thins (declares || others, r ++ t) (bothOutcomes o' x') (all ∧ rest) := by
  obtain ⟨d, r', rfl, hd, hr, hiff⟩ := h
  obtain ⟨d', t', rfl, hd', ht, hiff'⟩ := h'
  refine ⟨d || d', r' ++ t', bothOutcomes_ok _ _ _, ?_, hr.append ht, ?_⟩
  · rw [Bool.or_eq_true, Bool.or_eq_true]
    exact Or.imp hd hd'
  · rw [append_eq_append_iff hr ht, hiff, hiff']

/-- Before a part there is one that is left out and has no rule sets. -/
theorem skip (h : Thins (others, t) x' rest) (here : Bool) : Thins (here || others, t) x' rest := by
  obtain ⟨d, t', rfl, hd, ht, hiff⟩ := h
  exact ⟨d, t', rfl, fun h => Bool.or_eq_true_iff.mpr (.inr (hd h)), ht, hiff⟩

end Thins

/-- Bodies with quiet imports thin out at a depth. -/
def ThinsWithin (ι : Type) [DecidableEq ι] (f : Location) (depth : Nat) : Prop :=
  ∀ v : Visit ι, v.scope.Quiet f → Quiet f v.nodes → ∀ o,
    outcome (v.eval depth) v.progress.expanding = .ok o →
      Thins o (outcome ((v.without f).eval depth) v.progress.expanding) (v.Keeps f)

/-! ### Blocks -/

/-- A block that declares no more than before has its own rule set still exactly when, if it
has output and selectors, it still declares something. -/
theorem ownRulesets_thins {declares others : Bool} (h : declares = true → others = true)
    (selectors : List Text) (output : Bool) :
    (ownRulesets selectors output declares).Sublist (ownRulesets selectors output others) ∧
      (ownRulesets selectors output declares = ownRulesets selectors output others ↔
        (output = true → selectors ≠ [] → others = true → declares = true)) := by
  cases declares with
  | true => simp [h rfl]
  | false => cases others <;> cases output <;> cases selectors <;> simp [ownRulesets]

theorem thins_ruleset {v : Visit ι} {depth : Nat} {o : Bool × Stylesheet}
    (h : outcome (v.eval depth) v.progress.expanding = .ok o)
    (thins : Thins o (outcome ((v.without f).eval depth) v.progress.expanding) (v.Keeps f)) :
    Thins (false, ownRulesets v.context v.output o.1 ++ o.2)
      ((outcome ((v.without f).eval depth) v.progress.expanding).map fun r =>
        (false, ownRulesets v.context v.output r.1 ++ r.2))
      (v.KeepsEntered f .block) := by
  obtain ⟨declares, r, ho, hdeclares, hr, hiff⟩ := thins
  obtain ⟨hown, hsame⟩ := ownRulesets_thins hdeclares v.context v.output
  have hkeeps : v.KeepsOwn f ↔
      (v.output = true → v.context ≠ [] → o.1 = true → declares = true) := by
    rw [Visit.KeepsOwn, Visit.declares_iff h, Visit.declares_iff (v := v.without f) ho]
  refine ⟨false, ownRulesets v.context v.output declares ++ r, by rw [ho]; rfl, nofun,
    hown.append hr, ?_⟩
  rw [Thins.append_eq_append_iff hown hr, hiff, hsame, Visit.KeepsEntered, hkeeps]
  simp

/-! ### What is entered -/

section Entering

variable {depth : Nat} {s : Scope ι} {context : List Text} {output : Bool} {p q : Progress ι}
  {declares : Bool} (X : Visit.Kind → Visit ι → Prop)

theorem enters_ruleset_iff {selectors : List Text} {nodes : List (Node ι)} :
    (∀ k v, Task.Enters s context output (.ruleset selectors nodes) p k v → X k v) ↔
      X .block ⟨s.enter nodes, nodes, selectors, output,
        { p with places := p.places.push none }⟩ := by
  refine ⟨fun h => h _ _ .ruleset, fun h k v enters => ?_⟩
  cases enters
  exact h

theorem enters_imported_iff {reference : Bool} {nodes : List (Node ι)} :
    (∀ k v, Task.Enters s context output (.imported reference nodes) p k v → X k v) ↔
      X .imported ⟨s, nodes, context, output && ! reference, p⟩ := by
  refine ⟨fun h => h _ _ .imported, fun h k v enters => ?_⟩
  cases enters
  exact h

theorem enters_detached_iff {nodes : List (Node ι)} :
    (∀ k v, Task.Enters s context output (.detached nodes) p k v → X k v) ↔
      X .detached ⟨s.enter nodes, nodes, context, output, p⟩ := by
  refine ⟨fun h => h _ _ .detached, fun h k v enters => ?_⟩
  cases enters
  exact h

/-- Definitions enter the body of the first, and once that is done, what those after it
enter. -/
theorem enters_expansions_iff {call : Call} {a : Arguments} {c : Candidate ι}
    (rest : List (Candidate ι)) (room : p.expanding.length < maxExpansions)
    (done : result (evalExpansion (evalBody depth) s call a context output c) p =
      .ok (declares, q)) :
    (∀ k v, Task.Enters s context output (.expansions call a (c :: rest)) p k v → X k v) ↔
      X .expansion ⟨c.scope s a, c.definition.body, context, output,
        { p with expanding := c.definition.tag :: p.expanding }⟩ ∧
      ∀ k v, Task.Enters s context output (.expansions call a rest) q k v → X k v := by
  constructor
  · intro h
    exact ⟨h _ _ (.expansion room), fun k v enters => h k v (.later ⟨depth, done⟩ enters)⟩
  · rintro ⟨first, later⟩ k v enters
    cases enters with
    | expansion => exact first
    | later done' enters =>
      obtain ⟨_, rfl⟩ := done'.unique (evalExpansion_deepening s context output call a c) done
      exact later k v enters

/-- Nodes enter what the first asks for, and once that is done, what those after it enter. -/
theorem enters_nodes_iff {n : Node ι} (rest : List (Node ι)) {t : Task ι}
    (asks : s.task p.expanding context n = .ok t)
    (done : result (evalNode (evalBody depth) s context output n) p = .ok (declares, q)) :
    (∀ k v, NodesEnter s context output (n :: rest) p k v → X k v) ↔
      (∀ k v, t.Enters s context output p k v → X k v) ∧
      ∀ k v, NodesEnter s context output rest q k v → X k v := by
  constructor
  · intro h
    exact ⟨fun k v enters => h k v (.here asks enters),
      fun k v enters => h k v (.later ⟨depth, done⟩ enters)⟩
  · rintro ⟨first, later⟩ k v enters
    cases enters with
    | here asks' enters =>
      cases asks.symm.trans asks'
      exact first k v enters
    | later done' enters =>
      obtain ⟨_, rfl⟩ := done'.unique (evalNode_deepening s context output n) done
      exact later k v enters

end Entering

/-! ### Nodes -/

section Nodes

variable {depth : Nat} (ih : ThinsWithin ι f depth) {s : Scope ι} (hs : s.Quiet f)
  (context : List Text) (output : Bool)

include ih hs

theorem expansion_thins (call : Call) (a : Arguments) {c c' : Candidate ι}
    (h : c.Like Eq (Omits f) c') {p : Progress ι} {o : Bool × Stylesheet}
    (room : p.expanding.length < maxExpansions)
    (ho : outcome (evalExpansion (evalBody depth) s call a context output c) p.expanding = .ok o) :
    Thins o
      (outcome (evalExpansion (evalBody depth) (s.without f) call a context output c') p.expanding)
      (Visit.KeepsEntered f .expansion ⟨c.scope s a, c.definition.body, context, output,
        { p with expanding := c.definition.tag :: p.expanding }⟩) := by
  rw [outcome_evalExpansion_room _ _ _ _ _ _ _ room] at ho ⊢
  obtain ⟨quiet, hbody⟩ := h.definition.body
  have hscope := Candidate.scope_without h s a
  have hquiet : (c.scope s a).Quiet f := by
    rw [Scope.Quiet, hscope]
    exact h.scope hs Omits.frames a
  rw [Visit.keepsEntered_iff (k := .expansion) (by decide), ← hscope, hbody, ← h.definition.tag]
  exact ih ⟨c.scope s a, c.definition.body, context, output, ⟨p.places, c.definition.tag :: p.expanding⟩⟩
    hquiet quiet o ho

theorem expansions_thin (call : Call) (a : Arguments) {cs cs' : List (Candidate ι)}
    (h : List.Forall₂ (Candidate.Like Eq (Omits f)) cs cs') {p : Progress ι}
    {o : Bool × Stylesheet}
    (ho : outcome (evalExpansions (evalBody depth) s call a context output cs) p.expanding = .ok o) :
    Thins o
      (outcome (evalExpansions (evalBody depth) (s.without f) call a context output cs') p.expanding)
      (∀ k v, Task.Enters s context output (.expansions call a cs) p k v → v.KeepsEntered f k) := by
  induction h generalizing p o with
  | nil =>
    cases ho
    exact .refl _ fun k v enters => by cases enters
  | @cons c c' rest rest' hc _ ih' =>
    rw [outcome_evalExpansions_cons] at ho ⊢
    obtain ⟨here, before, others, after, hfirst, hrest, rfl⟩ := bothOutcomes_eq_ok ho
    have room : p.expanding.length < maxExpansions := by
      by_contra hfull
      rw [outcome_evalExpansion_full _ _ _ _ _ _ _ (Nat.le_of_not_lt hfull)] at hfirst
      cases hfirst
    obtain ⟨q, done, hq⟩ := (evalExpansion_additive (evalBody_additive depth) s context output call
      a c).result_of_outcome hfirst
    have first := expansion_thins ih hs context output call a hc room hfirst
    have later := ih' (p := q) (hq ▸ hrest)
    rw [hq] at later
    exact (first.both later).congr (enters_expansions_iff _ rest room done).symm

theorem task_thins {t t' : Task ι} (h : t.Like Eq (Omits f) t') {p : Progress ι}
    {o : Bool × Stylesheet}
    (ho : outcome (evalTask (evalBody depth) s context output t) p.expanding = .ok o) :
    Thins o (outcome (evalTask (evalBody depth) (s.without f) context output t') p.expanding)
      (∀ k v, t.Enters s context output p k v → v.KeepsEntered f k) := by
  cases h with
  | none declares =>
    cases ho
    exact .refl _ fun k v enters => by cases enters
  | @ruleset nodes _ selectors hnodes =>
    obtain ⟨quiet, rfl⟩ := hnodes
    let v : Visit ι :=
      ⟨s.enter nodes, nodes, selectors, output, { p with places := p.places.push none }⟩
    refine Thins.congr ?_ (enters_ruleset_iff (Visit.KeepsEntered f)).symm
    rw [outcome_evalTask_ruleset] at ho ⊢
    rw [← Scope.without_enter quiet]
    change (outcome (v.eval depth) v.progress.expanding).map _ = _ at ho
    cases hbody : outcome (v.eval depth) v.progress.expanding with
    | error e =>
      rw [hbody] at ho
      cases ho
    | ok r =>
      rw [hbody] at ho
      cases ho
      exact thins_ruleset hbody (ih v (hs.enter quiet) quiet r hbody)
  | @imported nodes _ reference hnodes =>
    obtain ⟨quiet, rfl⟩ := hnodes
    have thins := ih ⟨s, nodes, context, output && ! reference, p⟩ hs quiet o ho
    rw [enters_imported_iff, Visit.keepsEntered_iff (k := .imported) (by decide)]
    exact thins
  | @detached nodes _ hnodes =>
    obtain ⟨quiet, rfl⟩ := hnodes
    have thins := ih ⟨s.enter nodes, nodes, context, output, p⟩ (hs.enter quiet) quiet o ho
    rw [Visit.without, Scope.without_enter quiet] at thins
    rw [enters_detached_iff, Visit.keepsEntered_iff (k := .detached) (by decide)]
    exact thins
  | expansions call a hcs => exact expansions_thin ih hs context output call a hcs ho

/-- A node that is left does not do more than before. -/
theorem node_thins {n n' : Node ι} (h : n.Like Eq (Omits f) n') {p : Progress ι}
    {t : Task ι} (asks : s.task p.expanding context n = .ok t) {o : Bool × Stylesheet}
    (ho : outcome (evalNode (evalBody depth) s context output n) p.expanding = .ok o) :
    Thins o (outcome (evalNode (evalBody depth) (s.without f) context output n') p.expanding)
      (∀ k v, t.Enters s context output p k v → v.KeepsEntered f k) := by
  have unique : Relator.BiUnique (@Eq ι) :=
    ⟨fun _ _ _ h h' => h.trans h'.symm, fun _ _ _ h h' => h.symm.trans h'⟩
  have same : List.Forall₂ Eq p.expanding p.expanding := List.forall₂_refl _
  have htask := task_like hs Omits.frames unique same context h
  rw [asks] at htask
  generalize asks' : (s.without f).task p.expanding context n' = r' at htask
  cases htask with
  | ok ht =>
    rw [outcome_evalNode_ok _ _ _ _ asks] at ho
    rw [outcome_evalNode_ok _ _ _ _ asks']
    exact task_thins ih hs context output ht ho

omit ih hs in
/-- A node with an outcome asks for a task. -/
theorem exists_task_of_outcome {n : Node ι} {expanding : List ι} {o : Bool × Stylesheet}
    (ho : outcome (evalNode (evalBody depth) s context output n) expanding = .ok o) :
    ∃ t, s.task expanding context n = .ok t := by
  cases asks : s.task expanding context n with
  | ok t => exact ⟨t, rfl⟩
  | error e =>
    rw [outcome_evalNode_error _ _ _ _ asks] at ho
    cases ho

theorem nodes_thin : ∀ {nodes : List (Node ι)}, Quiet f nodes → ∀ {p : Progress ι}
    {o : Bool × Stylesheet},
    outcome (evalNodes (evalBody depth) s context output nodes) p.expanding = .ok o →
      Thins o
        (outcome (evalNodes (evalBody depth) (s.without f) context output (without f nodes))
          p.expanding)
        (∀ k v, NodesEnter s context output nodes p k v → v.KeepsEntered f k)
  | [], _, p, o, ho => by
    cases ho
    exact .refl _ fun k v enters => by cases enters
  | n :: rest, quiet, p, o, ho => by
    rw [Quiet] at quiet
    rw [outcome_evalNodes_cons] at ho
    obtain ⟨here, before, others, after, hfirst, hrest, rfl⟩ := bothOutcomes_eq_ok ho
    obtain ⟨t, asks⟩ := exists_task_of_outcome context output hfirst
    obtain ⟨q, done, hq⟩ := (evalNode_additive (evalBody_additive depth) s context output
      n).result_of_outcome hfirst
    have later := nodes_thin quiet.2 (p := q) (hq ▸ hrest)
    rw [hq] at later
    refine Thins.congr ?_ (enters_nodes_iff (Visit.KeepsEntered f) rest asks done).symm
    rw [without]
    obtain ⟨file, nodes, rfl, hout⟩ | ⟨n', hleft, hlike⟩ := quiet.1.left_or_out
    · -- The import has no output, so neither it nor anything below it loses a rule set.
      cases asks
      rw [outcome_evalNode_ok (t := .imported true nodes) _ _ _ _ rfl, evalTask, Bool.not_true,
        Bool.and_false] at hfirst
      obtain rfl := evalBody_silent depth s nodes context _ _ _ hfirst
      have silent : ∀ k v, Task.Enters s context output (.imported true nodes) p k v →
          v.KeepsEntered f k := by
        rw [enters_imported_iff, Visit.keepsEntered_iff (k := .imported) (by decide)]
        exact Visit.keeps_of_output_eq_false (Bool.and_false output)
      rw [hout, List.nil_append, List.nil_append]
      exact (later.skip here).congr (by simp only [eq_true silent, true_and])
    · rw [hleft, List.singleton_append, outcome_evalNodes_cons]
      exact (node_thins ih hs context output hlike asks hfirst).both later

end Nodes

/-- Bodies with quiet imports thin out. -/
theorem thinsWithin (depth : Nat) : ThinsWithin ι f depth := by
  induction depth with
  | zero =>
    intro v _ _ o ho
    cases ho
  | succ depth ih =>
    intro v hscope hnodes o ho
    exact (nodes_thin ih hscope v.context v.output hnodes ho).congr Visit.keeps_iff.symm

end StyleTypings.Less
