/-
Tasks — what the nodes of a body can ask for.

A statement asks for a detached rule set or for expansions, a block for a rule set
with the block's own nodes, an imported file for its own nodes; every one of them may
ask for nothing.  These are all the ways into another body.
-/
import StyleTypings.Less.Evaluation
import StyleTypings.Proofs.Failures

namespace StyleTypings.Less

variable {ι : Type}

/-! ## Blocks -/

theorem selectorBlockTask_cases {s : Scope ι} {context : List Text} {prelude : Text}
    {nodes : List (Node ι)} {t : Task ι} (h : s.selectorBlockTask context prelude nodes = .ok t) :
    (∃ declares, t = .none declares) ∨ ∃ selectors, t = .ruleset selectors nodes := by
  rw [Scope.selectorBlockTask] at h
  obtain ⟨holds, _, h⟩ := ok_of_bind h
  cases holds with
  | true =>
    obtain ⟨list, _, h⟩ := ok_of_bind h
    cases h
    exact .inr ⟨_, rfl⟩
  | false =>
    cases h
    exact .inl ⟨_, rfl⟩

theorem blockTask_cases {s : Scope ι} {context : List Text} {prelude : Text}
    {nodes : List (Node ι)} {t : Task ι} (h : s.blockTask context prelude nodes = .ok t) :
    (∃ declares, t = .none declares) ∨ ∃ selectors, t = .ruleset selectors nodes := by
  unfold Scope.blockTask at h
  split at h
  · split at h
    · cases h
      exact .inr ⟨_, rfl⟩
    · cases h
      exact .inl ⟨_, rfl⟩
  · split at h
    · cases h
      exact .inl ⟨_, rfl⟩
    · exact selectorBlockTask_cases h

/-! ## Selection -/

theorem mem_candidates {name : Text} {a : Arguments} {ds : List (Definition ι)} {c : Candidate ι} :
    c ∈ candidates name a ds ↔ c.definition ∈ ds ∧
      Signature.forCall? c.definition.prelude name = some c.signature ∧
        c.signature.accepts a = true := by
  constructor
  · intro h
    obtain ⟨d, hd, hc⟩ := List.mem_filterMap.mp h
    obtain ⟨signature, taken, rfl⟩ := Option.map_eq_some_iff.mp hc
    exact ⟨hd, Option.filter_eq_some_iff.mp taken⟩
  · rintro ⟨hd, hs, accepts⟩
    refine List.mem_filterMap.mpr ⟨c.definition, hd, ?_⟩
    rw [Option.filter_eq_some_iff.mpr ⟨hs, accepts⟩]
    rfl

theorem mem_expanded {chosen : List (Candidate ι × Selection)} {c : Candidate ι}
    (h : c ∈ expanded chosen) : ∃ selection, (c, selection) ∈ chosen := by
  obtain ⟨⟨d, selection⟩, hd, rfl⟩ := List.mem_map.mp h
  exact ⟨selection, (List.mem_filter.mp hd).1⟩

variable [DecidableEq ι]

/-- The first of the candidates has its selection before the others have theirs. -/
theorem selected_cons_eq_ok {caller : Scope ι} {a : Arguments} {expanding : List ι}
    {c : Candidate ι} {rest : List (Candidate ι)} {chosen : List (Candidate ι × Selection)}
    (h : selected caller a expanding (c :: rest) = .ok chosen) :
    ∃ here others, c.selection caller a expanding = .ok here ∧
      selected caller a expanding rest = .ok others ∧
      chosen = (here.map fun s => (c, s)).toList ++ others := by
  rw [selected] at h
  obtain ⟨here, hhere, h⟩ := ok_of_bind h
  obtain ⟨others, hothers, h⟩ := ok_of_bind h
  exact ⟨here, others, hhere, hothers, (Except.ok.inj h).symm⟩

theorem mem_selected {caller : Scope ι} {a : Arguments} {expanding : List ι}
    {cs : List (Candidate ι)} {chosen : List (Candidate ι × Selection)}
    (h : selected caller a expanding cs = .ok chosen) : ∀ r ∈ chosen, r.1 ∈ cs := by
  induction cs generalizing chosen with
  | nil =>
    cases h
    exact nofun
  | cons c rest ih =>
    obtain ⟨here, others, _, hothers, rfl⟩ := selected_cons_eq_ok h
    intro r hr
    obtain hr | hr := List.mem_append.mp hr
    · obtain ⟨selection, _, rfl⟩ := Option.map_eq_some_iff.mp (Option.mem_toList.mp hr)
      exact List.mem_cons_self
    · exact List.mem_cons_of_mem c (ih hothers r hr)

/-- A call asks for the expansions that are selected with the arguments as they are where
it stands. -/
theorem callTask_cases {s : Scope ι} {expanding : List ι} {call : Call} {t : Task ι}
    (h : s.callTask expanding call = .ok t) :
    ∃ a chosen, s.arguments call.arguments = .ok a ∧
      selected s a expanding (candidates (call.path.getLast?.getD []) a (s.find call.path)) =
        .ok chosen ∧
      t = .expansions call a (expanded chosen) := by
  unfold Scope.callTask at h
  simp only at h
  split at h
  · cases h
  · obtain ⟨a, ha, h⟩ := ok_of_bind h
    split at h
    · cases h
    · obtain ⟨chosen, hchosen, h⟩ := ok_of_bind h
      exact ⟨a, chosen, ha, hchosen, (Except.ok.inj h).symm⟩

/-- A call asks for the expansions that are selected among the definitions that take its
arguments, if there are any. -/
theorem callTask_of_selected {s : Scope ι} {expanding : List ι} {call : Call} {a : Arguments}
    {cs : List (Candidate ι)} {chosen : List (Candidate ι × Selection)}
    (ha : s.arguments call.arguments = .ok a)
    (takers : candidates (call.path.getLast?.getD []) a (s.find call.path) = cs)
    (nonempty : cs ≠ []) (hchosen : selected s a expanding cs = .ok chosen) :
    s.callTask expanding call = .ok (.expansions call a (expanded chosen)) := by
  have found : (s.find call.path).isEmpty = false := by
    rw [List.isEmpty_eq_false_iff]
    intro none
    rw [none] at takers
    exact nonempty takers.symm
  have taken : cs.isEmpty = false := List.isEmpty_eq_false_iff.mpr nonempty
  simp only [Scope.callTask, found, Bool.false_eq_true, if_false, ha, bind, Except.bind, takers,
    taken, hchosen]
  rfl

/-- A call asks for definitions that its path leads to. -/
theorem callTask_eq_ok {s : Scope ι} {expanding : List ι} {call : Call} {t : Task ι}
    (h : s.callTask expanding call = .ok t) :
    ∃ a cs, t = .expansions call a cs ∧ ∀ c ∈ cs, c.definition ∈ s.find call.path := by
  obtain ⟨a, chosen, _, hchosen, rfl⟩ := callTask_cases h
  refine ⟨a, _, rfl, fun c hc => ?_⟩
  obtain ⟨selection, hselection⟩ := mem_expanded hc
  exact (mem_candidates.mp (mem_selected hchosen _ hselection)).1

/-! ## Statements -/

theorem statementTask_cases {s : Scope ι} {expanding : List ι} {text : Text} {t : Task ι}
    (h : s.statementTask expanding text = .ok t) :
    (∃ declares, t = .none declares) ∨
    (∃ name nodes, Statement.ofText text = .detachedCall name ∧ s.detached? name = some nodes ∧
      t = .detached nodes) ∨
    ∃ call a cs, Statement.ofText text = .call call ∧ t = .expansions call a cs ∧
      ∀ c ∈ cs, c.definition ∈ s.find call.path := by
  unfold Scope.statementTask at h
  cases hs : Statement.ofText text with
  | declaration =>
    simp only [hs, Except.ok.injEq] at h
    exact .inl ⟨true, h.symm⟩
  | call c =>
    simp only [hs] at h
    obtain ⟨a, cs, ht, hcs⟩ := callTask_eq_ok h
    exact .inr (.inr ⟨c, a, cs, rfl, ht, hcs⟩)
  | detachedCall name =>
    simp only [hs] at h
    cases hd : s.detached? name with
    | none => rw [hd] at h; cases h
    | some nodes =>
      simp only [hd, Except.ok.injEq] at h
      exact .inr (.inl ⟨name, nodes, rfl, hd, h.symm⟩)
  | inert =>
    simp only [hs, Except.ok.injEq] at h
    exact .inl ⟨false, h.symm⟩

/-! ## Nodes -/

/-- A rule set that a node asks for has the body that the node holds. -/
theorem task_ruleset {s : Scope ι} {expanding : List ι} {context : List Text} {n : Node ι}
    {selectors : List Text} {nodes : List (Node ι)}
    (h : s.task expanding context n = .ok (.ruleset selectors nodes)) :
    ∃ tag prelude, n = .block tag prelude nodes := by
  cases n with
  | statement tag text =>
    obtain ⟨_, ht⟩ | ⟨_, _, _, _, ht⟩ | ⟨_, _, _, _, ht, _⟩ := statementTask_cases h <;> cases ht
  | block tag prelude body =>
    obtain ⟨_, ht⟩ | ⟨_, ht⟩ := blockTask_cases h <;> cases ht
    exact ⟨tag, prelude, rfl⟩
  | imported file reference body => cases h

theorem task_imported {s : Scope ι} {expanding : List ι} {context : List Text} {n : Node ι}
    {reference : Bool} {nodes : List (Node ι)}
    (h : s.task expanding context n = .ok (.imported reference nodes)) :
    ∃ file, n = .imported file reference nodes := by
  cases n with
  | statement tag text =>
    obtain ⟨_, ht⟩ | ⟨_, _, _, _, ht⟩ | ⟨_, _, _, _, ht, _⟩ := statementTask_cases h <;> cases ht
  | block tag prelude body =>
    obtain ⟨_, ht⟩ | ⟨_, ht⟩ := blockTask_cases h <;> cases ht
  | imported file reference' body =>
    cases h
    exact ⟨file, rfl⟩

end StyleTypings.Less
