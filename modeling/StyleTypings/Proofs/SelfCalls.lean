/-
Self-calls — a plain rule set that calls itself where it stands.

A plain rule set is not expanded where it is being expanded already.  But a rule set that
stands at the top of a style sheet is not being expanded while it is evaluated there: it
only is while a call is.  So a call of itself in its own body is expanded once, and in that
expansion it is passed over.  The body declares the same for the same selectors a second
time, which makes no difference, and the blocks inside it make their rule sets a second
time, which does:

    .a { color: red; .b { c: d } .a; }      makes   .a   .a .b   .a .b

What the rule set comes to with the call is put together from what it comes to without
(`evaluates_selfCall`).  The results are the same just when the blocks inside make no rule
sets, and there is an error in both cases or in none.

The rest of the style sheets compares by twin scopes.  The body of the rule set calls
nothing, so its expansion, which is one frame further in, comes to the same as the body
where it stands (`outcome_of_callsNothing`).
-/
import StyleTypings.Proofs.Declarations
import StyleTypings.Proofs.Evaluation.Twins

namespace StyleTypings.Less

variable {ι : Type}

/-! ## Bodies that call nothing -/

/-- A body that calls nothing, and the same body with numbers for tags. -/
def renumbering (body : List (Node ι)) : Replacement ι Nat where
  sheet := body
  tags _ _ := False
  nodes _ _ := False
  invariant _ := True
  unique := ⟨nofun, nofun⟩
  unread := nofun
  enter _ _ := trivial
  withValues _ _ := trivial

mutual

theorem Node.replaced_number {sheet : List (Node ι)} {T : ι → Nat → Prop}
    {R : Node ι → Node Nat → Prop} (uncalled : ∀ x, ¬ Called sheet x) {rest : List (Node ι)}
    {rest' : List (Node Nat)} (h : Replaced sheet T R rest rest') :
    ∀ (n : Node ι) (k : Nat), Replaced sheet T R (n :: rest) ((n.number k).1 :: rest')
  | .statement tag text, k => by
    rw [Node.number]
    exact .statement tag k text h
  | .block tag prelude body, k => by
    rw [Node.number]
    exact .block prelude (fun _ _ called => absurd called (uncalled _))
      (replaced_number uncalled body _) h
  | .imported file reference nodes, k => by
    rw [Node.number]
    exact .imported file file reference (replaced_number uncalled nodes _) h

/-- Where no block can be called, its tag may be any number. -/
theorem replaced_number {sheet : List (Node ι)} {T : ι → Nat → Prop}
    {R : Node ι → Node Nat → Prop} (uncalled : ∀ x, ¬ Called sheet x) :
    ∀ (nodes : List (Node ι)) (k : Nat), Replaced sheet T R nodes (numberNodes k nodes).1
  | [], k => by
    rw [numberNodes]
    exact .nil
  | n :: rest, k => by
    rw [numberNodes]
    exact n.replaced_number uncalled (replaced_number uncalled rest _) k

end

section CallsNothing

variable [DecidableEq ι] {nodes : List (Node ι)} (callsNothing : ∀ x, ¬ Called nodes x)

include callsNothing

/-- What a body comes to that calls nothing depends on the values of variables alone. -/
theorem outcome_numberNodes {s : Scope ι} {s' : Scope Nat} (same : s.rawValue? = s'.rawValue?)
    (k depth : Nat) (context : List Text) (output : Bool) (expanding : List ι)
    (expanding' : List Nat) :
    outcome (evalBody depth s nodes context output) expanding =
      outcome (evalBody depth s' (numberNodes k nodes).1 context output) expanding' := by
  have follows : (renumbering nodes).pairing.Follows identical depth := by
    refine (renumbering nodes).follows identical (fun _ _ _ _ => trivial) ?_ depth
    intro depth _ n n' hn
    cases hn
  have scopes : (renumbering nodes).Scopes s s' :=
    ⟨⟨same, fun _ called => absurd called (callsNothing _),
      fun _ called => absurd called (callsNothing _)⟩, trivial⟩
  exact follows ⟨.sheet, replaced_number callsNothing nodes k⟩ scopes context output nofun

end CallsNothing

theorem outcome_of_callsNothing {nodes : List (Node Nat)} (callsNothing : ∀ x, ¬ Called nodes x)
    {s s' : Scope Nat} (same : s.rawValue? = s'.rawValue?) (depth : Nat) (context : List Text)
    (output : Bool) (expanding expanding' : List Nat) :
    outcome (evalBody depth s nodes context output) expanding =
      outcome (evalBody depth s' nodes context output) expanding' := by
  rw [outcome_numberNodes callsNothing same 0 depth context output expanding [],
    outcome_numberNodes callsNothing rfl 0 depth context output expanding' []]

/-! ## Rule sets that call themselves -/

/-- A plain rule set with a call in its body, between the other nodes of it. -/
structure SelfCall (ι : Type) where
  name : Text
  tag : ι
  front : List (Node ι)
  mark : ι
  text : Text
  back : List (Node ι)

/-- The block of a definition. -/
def Definition.block (d : Definition ι) : Node ι := .block d.tag d.prelude d.body

namespace SelfCall

/-- The nodes of the body without the call. -/
def body (c : SelfCall ι) : List (Node ι) := c.front ++ c.back

def without (c : SelfCall ι) : Definition ι := ⟨c.tag, c.name, c.body⟩

def withCall (c : SelfCall ι) : Definition ι :=
  ⟨c.tag, c.name, c.front ++ .statement c.mark c.text :: c.back⟩

/-- The rule set stands at the top of a style sheet and is the only block of its name there.
It calls itself, and its body calls nothing else. -/
structure Alone (c : SelfCall ι) (before after : List (Node ι)) : Prop where
  isName : ClassLike c.name
  call : CallsPlainly c.name c.text
  only : ∀ tag prelude inner, (Node.block tag prelude inner).Occurs (before ++ c.body ++ after) →
    c.name ∉ Signature.names prelude
  callsNothing : ∀ x, ¬ Called c.body x

/-- The rule sets that the blocks among some nodes of the body make where the rule set
stands. -/
def Makes [DecidableEq ι] (c : SelfCall ι) (before after nodes : List (Node ι))
    (r : Stylesheet) : Prop :=
  ∃ depth declares, outcome (evalNodes (evalBody depth)
    ((Scope.enter [] (before ++ c.without.block :: after)).enter c.body) [c.name] true nodes) [] =
      .ok (declares, r)

namespace Alone

variable {c : SelfCall ι} {before after : List (Node ι)} (h : c.Alone before after)

include h

theorem twinDefinitions : TwinDefinitions (before ++ c.body ++ after) c.without c.withCall where
  isName := h.isName
  only := h.only
  body _ hn := .of_mem (List.mem_append_left _ (List.mem_append_right _ hn))
  tag := rfl
  prelude := rfl
  call := ⟨c.front, c.back, c.mark, c.text, rfl, rfl, h.call⟩

/-- The style sheets with the call and without are twins. -/
theorem twins : Twins (before ++ c.body ++ after) c.without c.withCall
    (Scope.enter [] (before ++ c.without.block :: after))
    (Scope.enter [] (before ++ c.withCall.block :: after)) := by
  have t := h.twinDefinitions
  have inBefore : OccurIn (before ++ c.body ++ after) before := fun _ hn =>
    .of_mem (List.mem_append_left _ (List.mem_append_left _ hn))
  have inAfter : OccurIn (before ++ c.body ++ after) after := fun _ hn =>
    .of_mem (List.mem_append_right _ hn)
  have frame (d : Definition ι) (hd : d.prelude = c.name) :
      bindingsOf (before ++ d.block :: after) =
        bindingsOf before ++ .mixin c.name d :: bindingsOf after := by
    rw [bindingsOf_append, bindingsOf_cons, Definition.block, hd, h.isName.bindings, ← hd]
    rfl
  have none : (bindingsOf before).filterMap (Binding.mixin? c.name) = [] :=
    t.mixins_eq_nil inBefore
  have none' : (bindingsOf after).filterMap (Binding.mixin? c.name) = [] :=
    t.mixins_eq_nil inAfter
  have own (d : Definition ι) (hd : d.prelude = c.name) :
      (Scope.enter [] (before ++ d.block :: after)).mixins c.name = [d] := by
    have found : Frame.mixins (bindingsOf (before ++ d.block :: after)) c.name = [d] := by
      rw [frame d hd, Frame.mixins, List.filterMap_append, List.filterMap_cons, none, none']
      simp [Binding.mixin?]
    rw [Scope.enter, Scope.mixins_cons, found, if_neg (List.cons_ne_nil d [])]
  refine ⟨?_, ?_, ?_, ?_, own _ rfl, own _ rfl⟩
  · rintro f (_ | ⟨_, hf⟩) b hb
    · rw [frame c.without rfl, List.mem_append, List.mem_cons] at hb
      obtain hb | rfl | hb := hb
      · exact bindingsOf_from before inBefore b hb
      · exact t.body
      · exact bindingsOf_from after inAfter b hb
    · cases hf
  · funext x
    simp [Scope.enter, Scope.rawValue?_cons, frame c.without rfl, frame c.withCall rfl,
      Frame.rawValue?, Binding.rawValue?]
  · funext x
    simp [Scope.enter, Scope.detached?_cons, frame c.without rfl, frame c.withCall rfl,
      Frame.detached?, Binding.detached?]
  · intro x other
    have hx : ¬ c.name = x := fun same => other same.symm
    simp [Scope.enter, Scope.mixins_cons, frame c.without rfl, frame c.withCall rfl,
      Frame.mixins, Binding.mixin?, hx]

end Alone

end SelfCall

/-! ## Outcomes -/

/-- The outcome of two parts with both of them once more in between. -/
def repeated (x y : Except Halt (Bool × Stylesheet)) : Except Halt (Bool × Stylesheet) :=
  bothOutcomes x (bothOutcomes (bothOutcomes x y) y)

/-- The outcome of a style sheet from those of the nodes before a rule set, of its body, and of
the nodes after it. -/
def around (name : Text) (first body last : Except Halt (Bool × Stylesheet)) :
    Except Halt (Bool × Stylesheet) :=
  bothOutcomes first
    (bothOutcomes (body.map fun r => (false, ownRulesets [name] true r.1 ++ r.2)) last)

section Around

variable {name : Text} {first x y last : Except Halt (Bool × Stylesheet)}

theorem Settled.of_around {body : Except Halt (Bool × Stylesheet)}
    (h : Settled (around name first body last)) :
    Settled first ∧ ∀ r, first = .ok r → Settled body := by
  refine ⟨h.of_bind, ?_⟩
  rintro ⟨a, r⟩ rfl
  rw [around, bothOutcomes_ok] at h
  exact h.of_map.of_bind.of_map

theorem around_eq_error_iff {e : Halt} :
    around name first (repeated x y) last = .error e ↔
      around name first (bothOutcomes x y) last = .error e := by
  rcases first with _ | ⟨a, r₀⟩
  · exact .rfl
  rcases x with _ | ⟨b, r₁⟩
  · exact .rfl
  rcases y with _ | ⟨b', r₂⟩
  · exact .rfl
  rcases last with _ | ⟨a', r₃⟩
  · exact .rfl
  · exact ⟨nofun, nofun⟩

theorem around_eq_ok {declares : Bool} {r : Stylesheet}
    (h : around name first (bothOutcomes x y) last = .ok (declares, r)) :
    ∃ a b b' a' r₀ r₁ r₂ r₃, x = .ok (b, r₁) ∧ y = .ok (b', r₂) ∧ r = r₀ ++ r₁ ++ r₂ ++ r₃ ∧
      around name first (repeated x y) last =
        .ok (a || a', r₀ ++ r₁ ++ (r₁ ++ r₂) ++ r₂ ++ r₃) := by
  rcases first with _ | ⟨a, before⟩
  · cases h
  rcases x with _ | ⟨b, r₁⟩
  · cases h
  rcases y with _ | ⟨b', r₂⟩
  · cases h
  rcases last with _ | ⟨a', r₃⟩
  · cases h
  refine ⟨a, b, b', a', before ++ ownRulesets [name] true (b || b'), r₁, r₂, r₃, rfl, rfl, ?_, ?_⟩
  · cases h
    simp [List.append_assoc]
  · have same : (b || ((b || b') || b')) = (b || b') := by cases b <;> cases b' <;> rfl
    show Except.ok (a || (false || a'), before ++ ((ownRulesets [name] true (b || ((b || b') || b')) ++
      (r₁ ++ ((r₁ ++ r₂) ++ r₂))) ++ r₃)) = _
    rw [same, Bool.false_or]
    simp only [List.append_assoc]

end Around

/-- What a style sheet comes to at a depth. -/
def sheetOutcome [DecidableEq ι] (nodes : List (Node ι)) (depth : Nat) :
    Except Halt (Bool × Stylesheet) :=
  outcome (evalBody depth (Scope.enter [] nodes) nodes [] true) []

/-- A style sheet with a rule set at its top comes to what its nodes come to, with the rule set
of the name in between. -/
theorem outcome_around [DecidableEq ι] (d : Definition ι) (isName : ClassLike d.prelude)
    (before after : List (Node ι)) (depth : Nat) :
    let s := Scope.enter [] (before ++ d.block :: after)
    sheetOutcome (before ++ d.block :: after) (depth + 1) =
      around d.prelude (outcome (evalNodes (evalBody depth) s [] true before) [])
        (outcome (evalBody depth (s.enter d.body) d.body [d.prelude] true) [])
        (outcome (evalNodes (evalBody depth) s [] true after) []) := by
  intro s
  have asks : s.task [] [] d.block = .ok (.ruleset [d.prelude] d.body) := isName.blockTask s d.body
  rw [sheetOutcome, evalBody, outcome_evalNodes_append, outcome_evalNodes_cons,
    outcome_evalNode_ok _ _ _ _ asks, outcome_evalTask_ruleset]
  rfl

variable {c : SelfCall Nat} {before after : List (Node Nat)}

/-- In the rule set where it stands, the call of it comes to what its body comes to without
the call. -/
theorem SelfCall.Alone.outcome_call (h : c.Alone before after) (depth : Nat) :
    let s := Scope.enter [] (before ++ c.without.block :: after)
    let s' := Scope.enter [] (before ++ c.withCall.block :: after)
    outcome (evalNode (evalBody depth) (s'.enter c.withCall.body) [c.name] true
        (.statement c.mark c.text)) [] =
      outcome (evalBody depth (s.enter c.body) c.body [c.name] true) [] := by
  intro s s'
  have t := h.twinDefinitions
  have inside : Twins (before ++ c.body ++ after) c.without c.withCall (s.enter c.body)
      (s'.enter c.withCall.body) := h.twins.enterOwn t
  obtain ⟨call, hcall, path, harguments⟩ := h.call
  have asks : (s'.enter c.withCall.body).task [] [c.name] (.statement c.mark c.text) =
      .ok (.expansions call ⟨[], []⟩ [c.withCall.plainly]) := by
    rw [Scope.task, Scope.statementTask, hcall]
    simp only
    rw [callTask_of_plain (d := c.withCall) h.isName inside.own' [] path,
      arguments_of_plainly _ harguments]
    rfl
  have frames : ((s.enter c.body).enter c.body).rawValue? = (s.enter c.body).rawValue? := by
    funext x
    simp only [Scope.enter, Scope.rawValue?_cons, ← Option.or_assoc, Option.or_self]
  have room : ([] : List Nat).length < maxExpansions := by decide
  calc outcome (evalNode (evalBody depth) (s'.enter c.withCall.body) [c.name] true
        (.statement c.mark c.text)) []
      = outcome (evalExpansion (evalBody depth) (s'.enter c.withCall.body) call ⟨[], []⟩ [c.name]
          true c.withCall.plainly) [] := by
        rw [outcome_evalNode_ok _ _ _ _ asks, evalTask, outcome_evalExpansions_cons]
        exact bothOutcomes_before_nothing _
    _ = outcome (evalBody depth ((s'.enter c.withCall.body).enter c.withCall.body) c.withCall.body
          [c.name] true) [c.tag] := by
        rw [outcome_evalExpansion_room _ _ _ _ _ _ _ room, Definition.plainly_scope]
        rfl
    _ = outcome (evalBody depth ((s.enter c.body).enter c.body) c.body [c.name] true) [c.tag] :=
        ((twinOutcomes t depth).own (inside.enterOwn t) [c.name] true List.mem_cons_self).symm
    _ = outcome (evalBody depth (s.enter c.body) c.body [c.name] true) [] :=
        outcome_of_callsNothing h.callsNothing frames depth [c.name] true [c.tag] []

/-- The call stands among the nodes of the body, and the rest is the same. -/
theorem SelfCall.Alone.outcome_withCall (h : c.Alone before after) (depth : Nat) :
    let s := Scope.enter [] (before ++ c.without.block :: after)
    sheetOutcome (before ++ c.withCall.block :: after) (depth + 2) =
      around c.name (outcome (evalNodes (evalBody (depth + 1)) s [] true before) [])
        (bothOutcomes (outcome (evalNodes (evalBody depth) (s.enter c.body) [c.name] true c.front) [])
          (bothOutcomes (outcome (evalBody depth (s.enter c.body) c.body [c.name] true) [])
            (outcome (evalNodes (evalBody depth) (s.enter c.body) [c.name] true c.back) [])))
        (outcome (evalNodes (evalBody (depth + 1)) s [] true after) []) := by
  intro s
  let s' := Scope.enter [] (before ++ c.withCall.block :: after)
  have t := h.twinDefinitions
  have inside : Twins (before ++ c.body ++ after) c.without c.withCall (s.enter c.body)
      (s'.enter c.withCall.body) := h.twins.enterOwn t
  -- All nodes but the call compare, those of the rule set inside it and the others around it.
  have own (nodes : List (Node Nat)) (sub : ∀ n ∈ nodes, n ∈ before ++ c.body ++ after) :
      outcome (evalNodes (evalBody depth) (s.enter c.body) [c.name] true nodes) [] =
        outcome (evalNodes (evalBody depth) (s'.enter c.withCall.body) [c.name] true nodes) [] :=
    evalNodes_twins inside t (twinOutcomes t depth) [c.name] true fun n hn => .of_mem (sub n hn)
  have other (nodes : List (Node Nat)) (sub : ∀ n ∈ nodes, n ∈ before ++ c.body ++ after) :
      outcome (evalNodes (evalBody (depth + 1)) s [] true nodes) [] =
        outcome (evalNodes (evalBody (depth + 1)) s' [] true nodes) [] :=
    evalNodes_twins h.twins t (twinOutcomes t (depth + 1)) [] true fun n hn => .of_mem (sub n hn)
  have body : outcome (evalBody (depth + 1) (s'.enter c.withCall.body) c.withCall.body [c.name] true)
      [] = _ := outcome_evalNodes_append _ _ _ _ c.front _
  rw [outcome_evalNodes_cons, h.outcome_call, ← own c.front fun n hn => by simp [SelfCall.body, hn],
    ← own c.back fun n hn => by simp [SelfCall.body, hn]] at body
  rw [outcome_around c.withCall h.isName before after, ← body,
    other before fun n hn => by simp [hn], other after fun n hn => by simp [hn]]
  rfl

/-- Outcomes of the style sheet without the call and with it: what the two halves of the body
come to stands once more between them. -/
structure SelfCall.Repeats (c : SelfCall Nat) (before after : List (Node Nat))
    (o o' first x y last : Except Halt (Bool × Stylesheet)) : Prop where
  without : o = around c.name first (bothOutcomes x y) last
  withCall : o' = around c.name first (repeated x y) last
  front : ∀ b r, x = .ok (b, r) → c.Makes before after c.front r
  back : ∀ b r, y = .ok (b, r) → c.Makes before after c.back r

/-- At depths that are enough for one of them, the outcomes of the two style sheets are put
together alike. -/
theorem SelfCall.Alone.repeats (h : c.Alone before after) (depth : Nat)
    (settled : Settled (sheetOutcome (before ++ c.without.block :: after) (depth + 1)) ∨
      Settled (sheetOutcome (before ++ c.withCall.block :: after) (depth + 2))) :
    ∃ first x y last, c.Repeats before after
      (sheetOutcome (before ++ c.without.block :: after) (depth + 2))
      (sheetOutcome (before ++ c.withCall.block :: after) (depth + 2)) first x y last := by
  let s := Scope.enter [] (before ++ c.without.block :: after)
  let first (k : Nat) := outcome (evalNodes (evalBody k) s [] true before) []
  let body (k : Nat) := outcome (evalBody k (s.enter c.body) c.body [c.name] true) []
  let x := outcome (evalNodes (evalBody depth) (s.enter c.body) [c.name] true c.front) []
  let y := outcome (evalNodes (evalBody depth) (s.enter c.body) [c.name] true c.back) []
  have parts : body (depth + 1) = bothOutcomes x y := outcome_evalNodes_append _ _ _ _ _ _
  have without := outcome_around c.without h.isName before after
  have withCall := h.outcome_withCall depth
  refine ⟨first (depth + 1), x, y, outcome (evalNodes (evalBody (depth + 1)) s [] true after) [],
    (without (depth + 1)).trans (parts ▸ rfl), withCall.trans ?_, fun b r hr => ⟨depth, b, hr⟩,
    fun b r hr => ⟨depth, b, hr⟩⟩
  -- It matters what the expansion comes to only after the nodes before it.
  show around c.name (first (depth + 1)) (bothOutcomes x (bothOutcomes (body depth) y)) _ = _
  cases hfirst : first (depth + 1) with
  | error e => rfl
  | ok r =>
    cases hx : x with
    | error e => rfl
    | ok r' =>
      have enough : Settled (body depth) := by
        obtain settled | settled := settled
        · rw [without depth] at settled
          obtain ⟨before, inside⟩ := settled.of_around
          have same : first (depth + 1) = first depth :=
            outcome_evalNodes_of_le (Nat.le_succ depth) before
          exact inside r (same.symm.trans hfirst)
        · rw [withCall] at settled
          have inside := settled.of_around.2 r hfirst
          replace inside : Settled (bothOutcomes x (bothOutcomes (body depth) y)) := inside
          rw [hx, bothOutcomes_ok] at inside
          exact inside.of_map.of_bind
      have same : body (depth + 1) = body depth :=
        (evalBody_deepening (s.enter c.body) c.body [c.name] true).steady [] depth (depth + 1)
          (Nat.le_succ depth) enough
      rw [← same, parts, hx, repeated]

/-! ## Style sheets -/

section Depths

variable [DecidableEq ι] {nodes : List (Node ι)} {r : Except CompileError Stylesheet}

theorem Evaluates.of_sheetOutcome (depth : Nat)
    (h : (sheetOutcome nodes depth).map (·.2) = r.mapError Halt.error) : Evaluates nodes r :=
  (evaluates_iff nodes r).mpr ⟨depth, h⟩

/-- The result of a style sheet is its outcome at all depths that are enough. -/
theorem Evaluates.sheetOutcome (h : Evaluates nodes r) :
    ∃ depth, ∀ d ≥ depth, (sheetOutcome nodes d).map (·.2) = r.mapError Halt.error := by
  obtain ⟨depth, hdepth⟩ := (evaluates_iff nodes r).mp h
  refine ⟨depth, fun d hd => ?_⟩
  have settled : Settled (Less.sheetOutcome nodes depth) := .of_map (hdepth ▸ settled_mapError r)
  have same : Less.sheetOutcome nodes d = Less.sheetOutcome nodes depth :=
    (evalBody_deepening (Scope.enter [] nodes) nodes [] true).steady [] depth d hd settled
  rw [same]
  exact hdepth

end Depths

theorem map_eq_error_iff {o : Except Halt (Bool × Stylesheet)} {e : CompileError} :
    o.map (·.2) = (Except.error e : Except CompileError Stylesheet).mapError Halt.error ↔
      o = .error (.error e) := by
  cases o <;> simp [Except.map, Except.mapError]

theorem map_eq_ok_iff {o : Except Halt (Bool × Stylesheet)} {r : Stylesheet} :
    o.map (·.2) = (Except.ok r : Except CompileError Stylesheet).mapError Halt.error ↔
      ∃ declares, o = .ok (declares, r) := by
  cases o <;> simp [Except.map, Except.mapError, Prod.ext_iff]

namespace SelfCall.Alone

variable (h : c.Alone before after) {r : Except CompileError Stylesheet}

include h

theorem repeats_of_without (hr : Evaluates (before ++ c.without.block :: after) r) :
    ∃ depth first x y last, c.Repeats before after
        (sheetOutcome (before ++ c.without.block :: after) depth)
        (sheetOutcome (before ++ c.withCall.block :: after) depth) first x y last ∧
      (sheetOutcome (before ++ c.without.block :: after) depth).map (·.2) =
        r.mapError Halt.error := by
  obtain ⟨depth, hdepth⟩ := hr.sheetOutcome
  have settled := Settled.of_map (hdepth (depth + 1) (Nat.le_succ depth) ▸ settled_mapError r)
  obtain ⟨first, x, y, last, repeats⟩ := h.repeats depth (.inl settled)
  exact ⟨depth + 2, first, x, y, last, repeats, hdepth _ (Nat.le_add_right depth 2)⟩

theorem repeats_of_withCall (hr : Evaluates (before ++ c.withCall.block :: after) r) :
    ∃ depth first x y last, c.Repeats before after
        (sheetOutcome (before ++ c.without.block :: after) depth)
        (sheetOutcome (before ++ c.withCall.block :: after) depth) first x y last ∧
      (sheetOutcome (before ++ c.withCall.block :: after) depth).map (·.2) =
        r.mapError Halt.error := by
  obtain ⟨depth, hdepth⟩ := hr.sheetOutcome
  have settled := Settled.of_map (hdepth (depth + 2) (Nat.le_add_right depth 2) ▸ settled_mapError r)
  obtain ⟨first, x, y, last, repeats⟩ := h.repeats depth (.inr settled)
  exact ⟨depth + 2, first, x, y, last, repeats, hdepth _ (Nat.le_add_right depth 2)⟩

/-- There is an error with the call just when there is one without. -/
theorem evaluates_error_iff (e : CompileError) :
    Evaluates (before ++ c.withCall.block :: after) (.error e) ↔
      Evaluates (before ++ c.without.block :: after) (.error e) := by
  constructor
  · intro he
    obtain ⟨depth, _, _, _, _, repeats, ho⟩ := h.repeats_of_withCall he
    rw [map_eq_error_iff, repeats.withCall, around_eq_error_iff, ← repeats.without,
      ← map_eq_error_iff] at ho
    exact .of_sheetOutcome depth ho
  · intro he
    obtain ⟨depth, _, _, _, _, repeats, ho⟩ := h.repeats_of_without he
    rw [map_eq_error_iff, repeats.without, ← around_eq_error_iff, ← repeats.withCall,
      ← map_eq_error_iff] at ho
    exact .of_sheetOutcome depth ho

theorem exists_evaluates_without {r : Stylesheet}
    (hr : Evaluates (before ++ c.withCall.block :: after) (.ok r)) :
    ∃ r, Evaluates (before ++ c.without.block :: after) (.ok r) := by
  obtain ⟨depth, _, _, _, _, repeats, ho⟩ := h.repeats_of_withCall hr
  obtain ⟨declares, ho⟩ := map_eq_ok_iff.mp ho
  cases hwithout : sheetOutcome (before ++ c.without.block :: after) depth with
  | error e =>
    rw [repeats.without, ← around_eq_error_iff, ← repeats.withCall, ho] at hwithout
    cases hwithout
  | ok o => exact ⟨o.2, .of_sheetOutcome depth (by rw [hwithout]; rfl)⟩

/-- What the body makes with the call, from what it makes without. -/
theorem evaluates_withCall {r : Stylesheet}
    (hr : Evaluates (before ++ c.without.block :: after) (.ok r)) :
    ∃ r₀ r₁ r₂ r₃, c.Makes before after c.front r₁ ∧ c.Makes before after c.back r₂ ∧
      r = r₀ ++ r₁ ++ r₂ ++ r₃ ∧
      Evaluates (before ++ c.withCall.block :: after)
        (.ok (r₀ ++ r₁ ++ (r₁ ++ r₂) ++ r₂ ++ r₃)) := by
  obtain ⟨depth, _, _, _, _, repeats, ho⟩ := h.repeats_of_without hr
  obtain ⟨declares, ho⟩ := map_eq_ok_iff.mp ho
  rw [repeats.without] at ho
  obtain ⟨a, b, b', a', r₀, r₁, r₂, r₃, hx, hy, rfl, hrepeated⟩ := around_eq_ok ho
  refine ⟨r₀, r₁, r₂, r₃, repeats.front b r₁ hx, repeats.back b' r₂ hy, rfl,
    .of_sheetOutcome depth ?_⟩
  rw [repeats.withCall, hrepeated]
  rfl

end SelfCall.Alone

/-! ## Numbers for tags -/

theorem Node.occurs_append {n : Node ι} {nodes rest : List (Node ι)} :
    n.Occurs (nodes ++ rest) ↔ n.Occurs nodes ∨ n.Occurs rest := by
  induction nodes with
  | nil => simp [Node.not_occurs_nil]
  | cons m nodes ih => simp only [List.cons_append, Node.occurs_cons, ih, or_assoc]

theorem called_append {nodes rest : List (Node ι)} {x : Symbol} :
    Called (nodes ++ rest) x ↔ Called nodes x ∨ Called rest x := by
  simp only [Called, Node.occurs_append, or_and_right, exists_or]

/-- The block of a mixin that occurs in numbered nodes occurs in them without numbers. -/
theorem exists_occurs_of_numberNodes {nodes : List (Node ι)} {k tag : Nat} {prelude : Text}
    {inner : List (Node Nat)} (h : (Node.block tag prelude inner).Occurs (numberNodes k nodes).1) :
    ∃ tag inner, (Node.block tag prelude inner).Occurs nodes := by
  obtain ⟨m, j, hm, hn⟩ := occurs_numberNodes nodes k h
  cases m <;> rw [Node.number] at hn <;> cases hn
  exact ⟨_, _, hm⟩

/-- Numbering leaves the values of variables. -/
theorem values_numberNodes (nodes : List (Node ι)) (k : Nat) (name : Text) :
    (bindingsOf (numberNodes k nodes).1).filterMap (Binding.rawValue? name) =
      (bindingsOf nodes).filterMap (Binding.rawValue? name) := by
  have like := Frame.Like.of_forall₂ (numberNodes_bindings nodes k) (.variable name)
  have values := filterMap_like like (fun _ => Binding.rawValue?_eq_none)
    (fun _ => Binding.rawValue?_eq_none) fun _ _ hb => hb.rawValue? name
  rw [List.forall₂_eq_eq_eq] at values
  exact values.symm

/-- The rule set in a numbered style sheet, with the call. -/
def SelfCall.number (c : SelfCall ι) (k : Nat) : SelfCall Nat where
  name := c.name
  tag := k
  front := (numberNodes (k + 1) c.front).1
  mark := (numberNodes (k + 1) c.front).2
  text := c.text
  back := (numberNodes ((numberNodes (k + 1) c.front).2 + 1) c.back).1

namespace SelfCall

variable {c : SelfCall ι} {before after : List (Node ι)}

theorem number_withCall (c : SelfCall ι) (k : Nat) :
    (c.withCall.block.number k).1 = (c.number k).withCall.block := by
  have inside : (numberNodes (k + 1) (c.front ++ .statement c.mark c.text :: c.back)).1 =
      (c.number k).withCall.body := by
    rw [numberNodes_append, numberNodes, Node.number]
    rfl
  rw [Definition.block, Node.number]
  show Node.block k c.name (numberNodes (k + 1) c.withCall.body).1 = _
  exact congrArg (Node.block k c.name) inside

/-- The rule set in a numbered style sheet is the rule set, numbered. -/
theorem numbered_withCall (c : SelfCall ι) (before after : List (Node ι)) :
    ∃ k j, numbered (before ++ c.withCall.block :: after) =
      (numberNodes 0 before).1 ++ (c.number k).withCall.block :: (numberNodes j after).1 := by
  refine ⟨(numberNodes 0 before).2, (c.withCall.block.number (numberNodes 0 before).2).2, ?_⟩
  rw [numbered, numberNodes_append, numberNodes]
  show _ ++ (c.withCall.block.number _).1 :: _ = _
  rw [number_withCall]

namespace Alone

variable (h : c.Alone before after) (k j : Nat)

include h

/-- The conditions hold with numbers for tags. -/
theorem number : (c.number k).Alone (numberNodes 0 before).1 (numberNodes j after).1 where
  isName := h.isName
  call := h.call
  only := by
    intro tag prelude inner occurs
    have occurs : ∃ tag inner, (Node.block tag prelude inner).Occurs (before ++ c.body ++ after) := by
      simp only [body, Node.occurs_append] at occurs ⊢
      obtain (occurs | occurs | occurs) | occurs := occurs <;>
        obtain ⟨tag, inner, occurs⟩ := exists_occurs_of_numberNodes occurs <;>
        exact ⟨tag, inner, by tauto⟩
    obtain ⟨tag, inner, occurs⟩ := occurs
    exact h.only tag prelude inner occurs
  callsNothing := by
    intro x called
    obtain called | called := called_append.mp called
    · exact h.callsNothing x (called_append.mpr (.inl called.of_numberNodes))
    · exact h.callsNothing x (called_append.mpr (.inr called.of_numberNodes))

end Alone

/-- Without the call the numbers are others, which makes no difference. -/
theorem evaluates_number_iff {k j : Nat}
    (hk : numbered (before ++ c.withCall.block :: after) =
      (numberNodes 0 before).1 ++ (c.number k).withCall.block :: (numberNodes j after).1)
    (r : Except CompileError Stylesheet) :
    Evaluates ((numberNodes 0 before).1 ++ (c.number k).without.block :: (numberNodes j after).1) r ↔
      Evaluates (numbered (before ++ c.without.block :: after)) r := by
  have alike : AlikeUpToTags
      ((numberNodes 0 before).1 ++ (c.number k).without.block :: (numberNodes j after).1)
      (numbered (before ++ c.without.block :: after)) := by
    rw [numbered, numberNodes_append, numberNodes, Definition.block, Definition.block, Node.number]
    refine (numberNodes_alike before 0 0).append (.block c.name trivial ?_ (numberNodes_alike after j _))
    show AlikeUpToTags ((c.number k).front ++ (c.number k).back)
      (numberNodes _ (c.front ++ c.back)).1
    rw [numberNodes_append]
    exact (numberNodes_alike c.front _ _).append (numberNodes_alike c.back _ _)
  have tags : blockTagsOf ((numberNodes 0 before).1 ++ (c.number k).without.block ::
      (numberNodes j after).1) = blockTagsOf (numbered (before ++ c.withCall.block :: after)) := by
    rw [hk]
    simp [blockTagsOf_append, Definition.block, Node.blockTags, without, withCall, body]
  exact alike.evaluates_iff (tags ▸ numberNodes_nodup _ 0) (numberNodes_nodup _ 0) r

theorem makes_of_number [DecidableEq ι] {nodes : List (Node ι)}
    (callsNothing : ∀ x, ¬ Called nodes x) {k j i : Nat} {r : Stylesheet}
    (isName : ClassLike c.name)
    (h : (c.number k).Makes (numberNodes 0 before).1 (numberNodes j after).1 (numberNodes i nodes).1 r) :
    c.Makes before after nodes r := by
  obtain ⟨depth, declares, h⟩ := h
  refine ⟨depth, declares, ?_⟩
  have same : ((Scope.enter [] (before ++ c.without.block :: after)).enter c.body).rawValue? =
      ((Scope.enter [] ((numberNodes 0 before).1 ++ (c.number k).without.block ::
        (numberNodes j after).1)).enter (c.number k).body).rawValue? := by
    funext x
    simp only [Scope.enter, Scope.rawValue?_cons, Frame.rawValue?, bindingsOf_append, bindingsOf_cons,
      Definition.block, body, number, without, isName.bindings, List.filterMap_append, values_numberNodes]
    rfl
  rw [← h]
  exact outcome_numberNodes callsNothing same i (depth + 1) [c.name] true [] []

end SelfCall

/-! ## The result -/

/-- A plain rule set at the top of a style sheet, the only definition of its name, with a body
that calls nothing, comes to the same with a call of itself in its body and without exactly
when the blocks inside it make no rule sets, or there is an error.  What these blocks make, in
front of the call and behind it, is made once more between the two. -/
theorem evaluates_selfCall [DecidableEq ι] {c : SelfCall ι} {before after : List (Node ι)}
    (h : c.Alone before after) :
    (∀ e, Evaluates (numbered (before ++ c.withCall.block :: after)) (.error e) ↔
      Evaluates (numbered (before ++ c.without.block :: after)) (.error e)) ∧
    (∀ r, Evaluates (numbered (before ++ c.withCall.block :: after)) (.ok r) →
      ∃ r, Evaluates (numbered (before ++ c.without.block :: after)) (.ok r)) ∧
    ∀ r, Evaluates (numbered (before ++ c.without.block :: after)) (.ok r) →
      ∃ r₀ r₁ r₂ r₃, c.Makes before after c.front r₁ ∧ c.Makes before after c.back r₂ ∧
        r = r₀ ++ r₁ ++ r₂ ++ r₃ ∧
        Evaluates (numbered (before ++ c.withCall.block :: after))
          (.ok (r₀ ++ r₁ ++ (r₁ ++ r₂) ++ r₂ ++ r₃)) ∧
        (Evaluates (numbered (before ++ c.withCall.block :: after)) (.ok r) ↔ r₁ = [] ∧ r₂ = []) := by
  obtain ⟨k, j, hk⟩ := c.numbered_withCall before after
  have same := SelfCall.evaluates_number_iff hk
  have alone := h.number k j
  have front : ∀ x, ¬ Called c.front x := fun x called =>
    h.callsNothing x (called_append.mpr (.inl called))
  have back : ∀ x, ¬ Called c.back x := fun x called =>
    h.callsNothing x (called_append.mpr (.inr called))
  rw [hk]
  refine ⟨fun e => (alone.evaluates_error_iff e).trans (same _), fun r hr => ?_, fun r hr => ?_⟩
  · obtain ⟨r', hr'⟩ := alone.exists_evaluates_without hr
    exact ⟨r', (same _).mp hr'⟩
  obtain ⟨r₀, r₁, r₂, r₃, makesFront, makesBack, rfl, hwithCall⟩ :=
    alone.evaluates_withCall ((same _).mpr hr)
  refine ⟨r₀, r₁, r₂, r₃, SelfCall.makes_of_number front h.isName makesFront,
    SelfCall.makes_of_number back h.isName makesBack, rfl, hwithCall, ?_⟩
  constructor
  · intro unchanged
    have lengths := congrArg List.length (Except.ok.inj (unchanged.unique hwithCall))
    simp only [List.length_append] at lengths
    constructor <;> refine List.length_eq_zero_iff.mp ?_ <;> omega
  · rintro ⟨rfl, rfl⟩
    simpa using hwithCall

/-- The rule set `.a` with a declaration, the rule set `.b` and a call of itself. -/
def selfCalling : SelfCall Nat where
  name := ".a"
  tag := 0
  front := [.statement 1 "color: red", .block 2 ".b" [.statement 3 "c: d"]]
  mark := 4
  text := ".a"
  back := []

theorem selfCalling_alone : selfCalling.Alone [] [] where
  isName := .point (t := ['a']) (by decide) (List.forall_mem_singleton.mpr (by decide +kernel))
  call := ⟨_, rfl, rfl, nofun⟩
  only := by
    intro tag prelude inner occurs
    simp only [selfCalling, SelfCall.body, List.append_nil, List.nil_append, Node.occurs_cons,
      Node.inside, Node.not_occurs_nil, Node.block.injEq, reduceCtorEq, or_self, or_false,
      false_or] at occurs
    obtain ⟨_, rfl, _⟩ := occurs
    decide
  callsNothing := by
    rintro x ⟨tag, text, occurs, hx⟩
    simp only [selfCalling, SelfCall.body, List.append_nil, Node.occurs_cons, Node.inside,
      Node.not_occurs_nil, Node.statement.injEq, reduceCtorEq, or_self, or_false, false_or] at occurs
    obtain ⟨rfl, rfl⟩ | ⟨rfl, rfl⟩ := occurs <;> cases hx

/-- The rule set inside is made twice. -/
theorem evaluates_selfCalling :
    selfCalling.Alone [] [] ∧
      Evaluates (numbered [selfCalling.without.block]) (.ok [⟨[".a"]⟩, ⟨[".a .b"]⟩]) ∧
      Evaluates (numbered [selfCalling.withCall.block])
        (.ok [⟨[".a"]⟩, ⟨[".a .b"]⟩, ⟨[".a .b"]⟩]) ∧
      ¬ Evaluates (numbered [selfCalling.withCall.block]) (.ok [⟨[".a"]⟩, ⟨[".a .b"]⟩]) := by
  have without : Evaluates (numbered [selfCalling.without.block])
      (.ok [⟨[".a"]⟩, ⟨[".a .b"]⟩]) := ⟨6, rfl⟩
  have withCall : Evaluates (numbered [selfCalling.withCall.block])
      (.ok [⟨[".a"]⟩, ⟨[".a .b"]⟩, ⟨[".a .b"]⟩]) := ⟨6, rfl⟩
  obtain ⟨r₀, r₁, r₂, r₃, _, _, hr, twice, unchanged⟩ :=
    (evaluates_selfCall selfCalling_alone).2.2 _ without
  refine ⟨selfCalling_alone, without, withCall, fun same => ?_⟩
  obtain ⟨rfl, rfl⟩ := unchanged.mp same
  have lengths := congrArg List.length (Except.ok.inj (withCall.unique twice))
  have lengths' := congrArg List.length hr
  simp only [List.length_append, List.length_cons, List.length_nil] at lengths lengths'
  omega

/-- A call of a plain rule set in its own body does not always leave the result. -/
theorem not_forall_evaluates_selfCall :
    ¬ ∀ (c : SelfCall Nat) (before after : List (Node Nat)), c.Alone before after →
      ∀ r, Evaluates (numbered (before ++ c.withCall.block :: after)) r ↔
        Evaluates (numbered (before ++ c.without.block :: after)) r := by
  intro h
  have without : Evaluates (numbered [selfCalling.without.block])
      (.ok [⟨[".a"]⟩, ⟨[".a .b"]⟩]) := ⟨6, rfl⟩
  have withCall : Evaluates (numbered [selfCalling.withCall.block])
      (.ok [⟨[".a"]⟩, ⟨[".a .b"]⟩, ⟨[".a .b"]⟩]) := ⟨6, rfl⟩
  have same := (h selfCalling [] [] selfCalling_alone _).mpr without
  exact absurd (Except.ok.inj (same.unique withCall)) (by decide)

end StyleTypings.Less
