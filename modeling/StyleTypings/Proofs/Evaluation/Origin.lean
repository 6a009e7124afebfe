/-
Origin — where the bodies of an evaluation come from.

An evaluation makes no nodes: whatever body it enters, and whatever body a name stands
for in a scope, consists of nodes that occur in the style sheet.  So what no node of
the style sheet asks for is never done.
-/
import StyleTypings.Proofs.Evaluation.Ending

namespace StyleTypings.Less

variable {ι : Type}

/-! ## Occurrences -/

/-- A node stands somewhere in nodes, at whatever depth. -/
inductive Node.Occurs (n : Node ι) : List (Node ι) → Prop where
  | head {rest : List (Node ι)} : n.Occurs (n :: rest)
  | tail {m : Node ι} {rest : List (Node ι)} (later : n.Occurs rest) : n.Occurs (m :: rest)
  | block {tag : ι} {prelude : Text} {body rest : List (Node ι)} (inside : n.Occurs body) :
    n.Occurs (.block tag prelude body :: rest)
  | imported {file : Location} {reference : Bool} {nodes rest : List (Node ι)}
      (inside : n.Occurs nodes) : n.Occurs (.imported file reference nodes :: rest)

theorem Node.Occurs.of_mem {n : Node ι} {nodes : List (Node ι)} (h : n ∈ nodes) : n.Occurs nodes := by
  induction h with
  | head => exact .head
  | tail m _ ih => exact .tail ih

/-- The nodes that stand in a node. -/
def Node.inside : Node ι → List (Node ι)
  | .statement _ _ => []
  | .block _ _ body => body
  | .imported _ _ nodes => nodes

theorem Node.not_occurs_nil (n : Node ι) : ¬ n.Occurs [] := nofun

theorem Node.occurs_cons {n m : Node ι} {rest : List (Node ι)} :
    n.Occurs (m :: rest) ↔ n = m ∨ n.Occurs m.inside ∨ n.Occurs rest := by
  constructor
  · intro h
    cases h with
    | head => exact .inl rfl
    | tail later => exact .inr (.inr later)
    | block inside => exact .inr (.inl inside)
    | imported inside => exact .inr (.inl inside)
  · rintro (rfl | inside | later)
    · exact .head
    · cases m with
      | statement => cases inside
      | block => exact .block inside
      | imported => exact .imported inside
    · exact .tail later

/-- Every node of a list occurs in a tree. -/
def OccurIn (tree nodes : List (Node ι)) : Prop := ∀ n ∈ nodes, n.Occurs tree

theorem OccurIn.refl (tree : List (Node ι)) : OccurIn tree tree := fun _ => .of_mem

theorem OccurIn.cons {tree rest : List (Node ι)} {n : Node ι} (h : OccurIn tree (n :: rest)) :
    OccurIn tree rest :=
  fun m hm => h m (List.mem_cons_of_mem n hm)

/-- Whatever occurs in the body of a node occurs where the node does. -/
theorem Node.Occurs.of_block {tree body : List (Node ι)} {tag : ι} {prelude : Text} {n : Node ι}
    (h : (Node.block tag prelude body).Occurs tree) (inside : n.Occurs body) : n.Occurs tree := by
  induction h with
  | head => exact .block inside
  | tail _ ih => exact .tail ih
  | block _ ih => exact .block ih
  | imported _ ih => exact .imported ih

theorem Node.Occurs.of_imported {tree nodes : List (Node ι)} {file : Location} {reference : Bool}
    {n : Node ι} (h : (Node.imported file reference nodes).Occurs tree) (inside : n.Occurs nodes) :
    n.Occurs tree := by
  induction h with
  | head => exact .imported inside
  | tail _ ih => exact .tail ih
  | block _ ih => exact .block ih
  | imported _ ih => exact .imported ih

theorem OccurIn.body {tree body : List (Node ι)} {tag : ι} {prelude : Text}
    (h : (Node.block tag prelude body).Occurs tree) : OccurIn tree body :=
  fun _ hn => h.of_block (.of_mem hn)

theorem OccurIn.nodes {tree nodes : List (Node ι)} {file : Location} {reference : Bool}
    (h : (Node.imported file reference nodes).Occurs tree) : OccurIn tree nodes :=
  fun _ hn => h.of_imported (.of_mem hn)

/-! ## Scopes -/

/-- The body that a name stands for by a binding. -/
def Binding.body : Binding ι → List (Node ι)
  | .variable _ _ => []
  | .mixin _ d => d.body
  | .detached _ nodes => nodes

/-- All bodies in a scope come from a tree. -/
def Scope.From (tree : List (Node ι)) (s : Scope ι) : Prop :=
  ∀ f ∈ s, ∀ b ∈ f, OccurIn tree b.body

variable {tree : List (Node ι)}

mutual

theorem Node.bindings_from : ∀ n : Node ι, n.Occurs tree → ∀ b ∈ n.bindings, OccurIn tree b.body
  | .statement tag text, _, b, hb => by
    rw [Node.bindings] at hb
    split at hb
    · rw [List.mem_singleton.mp hb]
      exact nofun
    · cases hb
  | .block tag prelude body, h, b, hb => by
    rw [Node.bindings] at hb
    split at hb
    · rw [List.mem_singleton.mp hb]
      exact .body h
    · obtain ⟨name, _, rfl⟩ := List.mem_map.mp hb
      exact .body h
  | .imported file reference nodes, h, b, hb => by
    rw [Node.bindings] at hb
    exact bindingsOf_from nodes (.nodes h) b hb

theorem bindingsOf_from : ∀ nodes : List (Node ι), OccurIn tree nodes →
    ∀ b ∈ bindingsOf nodes, OccurIn tree b.body
  | [], _, b, hb => by
    rw [bindingsOf] at hb
    cases hb
  | n :: rest, h, b, hb => by
    rw [bindingsOf] at hb
    obtain hb | hb := List.mem_append.mp hb
    · exact n.bindings_from (h n List.mem_cons_self) b hb
    · exact bindingsOf_from rest h.cons b hb

end

namespace Scope.From

variable {s : Scope ι}

theorem nil : Scope.From tree ([] : Scope ι) := nofun

theorem enter (h : s.From tree) {nodes : List (Node ι)} (hnodes : OccurIn tree nodes) :
    (s.enter nodes).From tree := by
  rintro f (_ | ⟨_, hf⟩)
  · exact bindingsOf_from nodes hnodes
  · exact h f hf

theorem withValues (h : s.From tree) (values : List (Text × Text)) :
    (s.withValues values).From tree := by
  have passed : ∀ b ∈ values.map fun v => Binding.variable (ι := ι) v.1 v.2, OccurIn tree b.body := by
    intro b hb
    obtain ⟨v, _, rfl⟩ := List.mem_map.mp hb
    exact nofun
  cases s with
  | nil =>
    rintro f (_ | ⟨_, hf⟩)
    · exact passed
    · cases hf
  | cons g outer =>
    rintro f (_ | ⟨_, hf⟩) b hb
    · obtain hb | hb := List.mem_append.mp hb
      · exact h g List.mem_cons_self b hb
      · exact passed b hb
    · exact h f (List.mem_cons_of_mem g hf) b hb

theorem detached? (h : s.From tree) {name : Text} {nodes : List (Node ι)}
    (hname : s.detached? name = some nodes) : OccurIn tree nodes := by
  obtain ⟨f, hf, hlast⟩ := List.exists_of_findSome?_eq_some hname
  obtain ⟨b, hb, hbody⟩ := List.mem_filterMap.mp (List.mem_of_getLast? hlast)
  have := h f hf b hb
  cases b <;> simp only [Binding.detached?] at hbody <;> grind [Binding.body]

theorem mixins (h : s.From tree) {name : Text} : ∀ d ∈ s.mixins name, OccurIn tree d.body := by
  induction s with
  | nil => exact nofun
  | cons f outer ih =>
    intro d hd
    rw [Scope.mixins] at hd
    split at hd
    · exact ih (fun g hg => h g (List.mem_cons_of_mem f hg)) d hd
    · obtain ⟨b, hb, hbody⟩ := List.mem_filterMap.mp hd
      have := h f List.mem_cons_self b hb
      cases b <;> simp only [Binding.mixin?] at hbody <;> grind [Binding.body]

theorem find (h : s.From tree) (path : List Text) : ∀ d ∈ s.find path, OccurIn tree d.body := by
  induction path generalizing s with
  | nil => exact nofun
  | cons name names ih =>
    cases names with
    | nil => exact h.mixins
    | cons next names =>
      intro d hd
      obtain ⟨block, hblock, hd⟩ := List.mem_flatMap.mp hd
      exact ih (nil.enter (h.mixins block hblock)) d hd

end Scope.From

/-! ## Visits -/

/-- The bodies that a task is about come from a tree. -/
def Task.From (tree : List (Node ι)) : Task ι → Prop
  | .none _ => True
  | .ruleset _ nodes => OccurIn tree nodes
  | .imported _ nodes => OccurIn tree nodes
  | .detached nodes => OccurIn tree nodes
  | .expansions _ _ cs => ∀ c ∈ cs, OccurIn tree c.definition.body

/-- The body of a visit and all bodies in its scope come from a tree. -/
structure Visit.From (tree : List (Node ι)) (v : Visit ι) : Prop where
  nodes : OccurIn tree v.nodes
  scope : v.scope.From tree

theorem Visit.start_from (nodes : List (Node ι)) : (Visit.start nodes).From nodes :=
  ⟨.refl nodes, Scope.From.nil.enter (.refl nodes)⟩

variable [DecidableEq ι]

/-- A node asks only for bodies that occur where the node and its scope do. -/
theorem task_from {s : Scope ι} {expanding : List ι} {context : List Text} {n : Node ι} {t : Task ι}
    (hs : s.From tree) (hn : n.Occurs tree) (h : s.task expanding context n = .ok t) :
    t.From tree := by
  cases n with
  | statement tag text =>
    obtain ⟨_, rfl⟩ | ⟨_, _, _, hname, rfl⟩ | ⟨call, _, _, _, rfl, hcs⟩ := statementTask_cases h
    · trivial
    · exact hs.detached? hname
    · exact fun c hc => hs.find call.path _ (hcs c hc)
  | block tag prelude body =>
    obtain ⟨_, rfl⟩ | ⟨_, rfl⟩ := blockTask_cases h
    · trivial
    · exact .body hn
  | imported file reference nodes =>
    cases h
    exact .nodes hn

theorem Task.Enters.from {s : Scope ι} {context : List Text} {output : Bool} {t : Task ι}
    {p : Progress ι} {k : Visit.Kind} {v : Visit ι} (h : t.Enters s context output p k v)
    (hs : s.From tree) (ht : t.From tree) : v.From tree := by
  induction h with
  | ruleset => exact ⟨ht, hs.enter ht⟩
  | imported => exact ⟨ht, hs⟩
  | detached => exact ⟨ht, hs.enter ht⟩
  | expansion room =>
    have hbody := ht _ List.mem_cons_self
    exact ⟨hbody, (hs.enter hbody).withValues _⟩
  | later _ _ ih => exact ih fun c hc => ht c (List.mem_cons_of_mem _ hc)

theorem NodesEnter.from {s : Scope ι} {context : List Text} {output : Bool} {nodes : List (Node ι)}
    {p : Progress ι} {k : Visit.Kind} {v : Visit ι} (h : NodesEnter s context output nodes p k v)
    (hs : s.From tree) (hnodes : OccurIn tree nodes) : v.From tree := by
  induction h with
  | here asks enters => exact enters.from hs (task_from hs (hnodes _ List.mem_cons_self) asks)
  | later _ _ ih => exact ih hnodes.cons

/-- All that an evaluation visits comes from the style sheet. -/
theorem run_from {nodes : List (Node ι)} (run : evaluation.Run (Visit.start nodes)) (n : Nat) :
    (run.visit n).From nodes := by
  induction n with
  | zero =>
    rw [run.visit_zero]
    exact Visit.start_from nodes
  | succ n ih => exact NodesEnter.from (run.enters n) ih.scope ih.nodes

/-! ## Style sheets without calls of detached rule sets -/

theorem Task.Enters.eq_detached {s : Scope ι} {context : List Text} {output : Bool} {t : Task ι}
    {p : Progress ι} {v : Visit ι} (h : t.Enters s context output p .detached v) :
    ∃ nodes, t = .detached nodes := by
  cases h with
  | detached => exact ⟨_, rfl⟩
  | later _ enters => cases enters.of_expansions.1

/-- A detached rule set is entered for a statement that calls it. -/
theorem NodesEnter.detachedCall {s : Scope ι} {context : List Text} {output : Bool}
    {nodes : List (Node ι)} {p : Progress ι} {k : Visit.Kind} {v : Visit ι}
    (h : NodesEnter s context output nodes p k v) (hk : k = .detached) :
    ∃ tag text name, .statement tag text ∈ nodes ∧ Statement.ofText text = .detachedCall name := by
  induction h with
  | @here n rest p t k v asks enters =>
    subst hk
    obtain ⟨_, rfl⟩ := enters.eq_detached
    cases n with
    | statement tag text =>
      obtain ⟨_, ht⟩ | ⟨name, _, hcall, _⟩ | ⟨_, _, _, _, ht, _⟩ := statementTask_cases asks
      · cases ht
      · exact ⟨tag, text, name, List.mem_cons_self, hcall⟩
      · cases ht
    | block tag prelude body =>
      obtain ⟨_, ht⟩ | ⟨_, ht⟩ := blockTask_cases asks <;> cases ht
    | imported file reference nodes => cases asks
  | later _ _ ih =>
    obtain ⟨tag, text, name, hmem, hcall⟩ := ih hk
    exact ⟨tag, text, name, List.mem_cons_of_mem _ hmem, hcall⟩

/-- Without calls of detached rule sets every style sheet comes to an end, whatever the
mixins and plain rule sets in it call. -/
theorem ends_of_no_detachedCall (nodes : List (Node ι))
    (h : ∀ tag text name, (Node.statement tag text).Occurs nodes →
      Statement.ofText text ≠ .detachedCall name) : Ends nodes := by
  by_contra hends
  obtain ⟨run, _, hdetached⟩ := callsForEver_of_not_ends hends
  obtain ⟨n, _, hn⟩ := hdetached 0
  obtain ⟨tag, text, name, hmem, hcall⟩ := NodesEnter.detachedCall (run.enters n) hn
  exact h tag text name ((run_from run n).nodes _ hmem) hcall

end StyleTypings.Less
