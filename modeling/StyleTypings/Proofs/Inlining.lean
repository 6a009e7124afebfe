/-
Inlining — the nodes of a mixin without parameters in the place of a call.

A mixin that is called without arguments is expanded in the scope of the call, with one
more frame for what its body declares, for the selectors around the call and with or
without output as they are.  The nodes of its body in the place of the call are evaluated
in the scope of the call itself, which declares what they declare, and they count for
nothing among the definitions being expanded.  None of this makes a difference if no call
names what they declare and they call nothing themselves.  So a style sheet that has rule
sets has the same ones, in the same order, with any of the calls inlined
(`evaluates_of_callInlined`).  It may have some where it had none: a call takes one of the
expansions that are allowed inside each other, and the nodes in its place do not.

The two style sheets are the same around the calls, which compare with the nodes in their
place (`Inlinable.follows`), because the body compares with a copy of it that has tags of
its own and is evaluated a frame further out (`copying_follows`).
-/
import StyleTypings.Proofs.Evaluation.Exchange

namespace StyleTypings.Less

variable {ι κ : Type}

/-! ## Mixins without parameters -/

/-- How a mixin is declared that has a list of parameters with nothing in it, and no guard. -/
def Signature.plain (m : Text) : Signature := ⟨m, [], false, true, none⟩

/-- A mixin without parameters that a style sheet defines once, for all of it.  It calls
nothing, and nothing that it declares is called. -/
structure Inlinable (sheet : List (Node ι)) (m : Text) (body : List (Node ι)) : Prop where
  defined : ∃ tag prelude, Frame.mixins (bindingsOf sheet) m = [⟨tag, prelude, body⟩] ∧
    Signature.read? prelude = some (.plain m)
  only : ∀ tag prelude inner, (Node.block tag prelude inner).Occurs sheet →
    Frame.mixins (bindingsOf inner) m = []
  callsNothing : ∀ x, ¬ Called body x
  uncalled : Uncalled sheet body

/-- A statement calls a mixin without arguments. -/
def CallsPlainly (m text : Text) : Prop :=
  ∃ c, Statement.ofText text = .call c ∧ c.path = [m] ∧
    ∀ t, c.arguments = some t → splitArguments t = []

/-- The nodes of a mixin in the place of a call. -/
inductive CallInlined (m : Text) (body : List (Node ι)) : Node ι → List (Node ι) → Prop where
  | inline (tag : ι) {text : Text} (h : CallsPlainly m text) :
    CallInlined m body (.statement tag text) body

/-! ## Calls -/

section Calls

variable {s : Scope ι} {m text : Text} {d : Definition ι}

/-- A call without arguments passes none. -/
theorem arguments_of_plainly (s : Scope ι) {written : Option Text}
    (h : ∀ t, written = some t → splitArguments t = []) : s.arguments written = .ok ⟨[], []⟩ := by
  cases written with
  | none => rfl
  | some t =>
    rw [Scope.arguments, h t rfl]
    rfl

/-- A call without arguments of a mixin that takes none, and has a list of parameters and no
guard, asks for its body. -/
theorem task_of_callsPlainly [DecidableEq ι] (h : CallsPlainly m text) (defined : s.mixins m = [d])
    {signature : Signature} (read : Signature.read? d.prelude = some signature)
    (parametric : signature.parametric = true) (unguarded : signature.guard = none)
    (takes : signature.accepts ⟨[], []⟩ = true) (expanding : List ι) (context : List Text) (tag : ι) :
    ∃ call, s.task expanding context (.statement tag text) =
      .ok (.expansions call ⟨[], []⟩ [⟨d, signature⟩]) := by
  obtain ⟨c, hc, hpath, harguments⟩ := h
  have hfind : s.find c.path = [d] := by rw [hpath, Scope.find, defined]
  have takers : candidates (c.path.getLast?.getD []) ⟨[], []⟩ (s.find c.path) = [⟨d, signature⟩] := by
    rw [hfind]
    simp only [candidates, List.filterMap_cons, Signature.forCall?, read, Option.filter, takes]
    rfl
  have entered : Candidate.isReentry expanding ⟨d, signature⟩ = false := by
    rw [Candidate.isReentry, parametric]
    rfl
  have chosen : selected s ⟨[], []⟩ expanding [⟨d, signature⟩] = .ok [(⟨d, signature⟩, .always)] := by
    rw [selected, Candidate.selection, entered, if_neg Bool.false_ne_true, unguarded]
    rfl
  refine ⟨c, ?_⟩
  rw [Scope.task, Scope.statementTask, hc]
  exact callTask_of_selected (arguments_of_plainly s harguments) takers (List.cons_ne_nil _ _) chosen

theorem scope_plain (a : Arguments) : Candidate.scope ⟨d, .plain m⟩ s a = s.enter d.body := by
  simp [Candidate.scope, Signature.bind, Signature.plain, Signature.bindFrom, Scope.enter,
    Scope.withValues]

/-- A call without arguments comes to what the body comes to, if it comes to anything. -/
theorem outcome_of_callsPlainly [DecidableEq ι] (h : CallsPlainly m text)
    (defined : s.mixins m = [d]) (plain : Signature.read? d.prelude = some (.plain m))
    (depth : Nat) (context : List Text) (output : Bool) {expanding : List ι} (tag : ι)
    {r : Bool × Stylesheet}
    (hr : outcome (evalNode (evalBody depth) s context output (.statement tag text)) expanding =
      .ok r) :
    outcome (evalBody depth (s.enter d.body) d.body context output) (d.tag :: expanding) = .ok r := by
  obtain ⟨call, asks⟩ := task_of_callsPlainly h defined plain rfl rfl rfl expanding context tag
  have one : outcome (evalExpansion (evalBody depth) s call ⟨[], []⟩ context output ⟨d, .plain m⟩)
      expanding = .ok r := by
    rw [outcome_evalNode_ok _ _ _ _ asks, evalTask, outcome_evalExpansions_cons] at hr
    exact (bothOutcomes_before_nothing _).symm.trans hr
  -- Without room for one more expansion the call would be an error.
  obtain room | full := Nat.lt_or_ge expanding.length maxExpansions
  · rwa [outcome_evalExpansion_room _ _ _ _ _ _ _ room, scope_plain] at one
  · rw [outcome_evalExpansion_full _ _ _ _ _ _ _ full] at one
    cases one

end Calls

/-! ## Comparison -/

/-- What one part comes to the other comes to at the same depth, unless it is an error. -/
def succeeding : OutcomeRelation where
  Rel depth _ _ o x := ∀ r, o = .ok r → x depth = .ok r
  Import _ := True
  cutOff _ := nofun
  deeper h := h
  const _ _ h := h
  both _ _ hx hy r hr := by
    obtain ⟨here, before, others, after, ho, ho', rfl⟩ := bothOutcomes_eq_ok hr
    simp only [hx _ ho, hy _ ho']
    rfl
  block {_ _ _ _ o _} h r hr := by
    cases o with
    | error e => cases hr
    | ok a =>
      simp only [h a rfl]
      exact hr
  imported _ h := h

/-- A body that calls nothing, and copies of it. -/
def copying (body : List (Node Nat)) : Replacement Nat Nat where
  sheet := body
  tags _ _ := False
  nodes _ _ := False
  invariant _ := True
  unique := ⟨nofun, nofun⟩
  unread := nofun
  enter _ _ := trivial
  withValues _ _ := trivial

theorem copying_follows (body : List (Node Nat)) (depth : Nat) :
    (copying body).pairing.Follows succeeding depth := by
  refine (copying body).follows succeeding (fun _ _ _ _ => trivial) ?_ depth
  intro depth _ n n' hn
  cases hn

/-- A call, and an import of a copy of the mixin's body, which takes as many steps. -/
inductive Inlining (m : Text) (copy : List (Node Nat)) : Node Nat → Node Nat → Prop where
  | inline (tag : Nat) {text : Text} (h : CallsPlainly m text) :
    Inlining m copy (.statement tag text) (.imported [] false copy)

namespace Inlinable

/-- Wherever the mixin is looked up, it is the one that the style sheet defines. -/
theorem mixins_enter {sheet : List (Node ι)} {m : Text} {body : List (Node ι)}
    (h : Inlinable sheet m body) {s : Scope ι}
    (hs : s.mixins m = Frame.mixins (bindingsOf sheet) m) {inner : List (Node ι)}
    (hinner : BodyOf sheet inner) :
    (s.enter inner).mixins m = Frame.mixins (bindingsOf sheet) m := by
  obtain ⟨tag, prelude, defined, _⟩ := h.defined
  have hown : Frame.mixins (bindingsOf inner) m = [] ∨
      Frame.mixins (bindingsOf inner) m = Frame.mixins (bindingsOf sheet) m := by
    obtain own | ⟨tag, prelude, block, hblock, own⟩ := hinner.bindings
    · have hsublist := own.filterMap (Binding.mixin? m)
      rw [← Frame.mixins, ← Frame.mixins, defined] at hsublist
      rw [defined]
      exact List.sublist_singleton.mp hsublist
    · have hsublist := own.filterMap (Binding.mixin? m)
      rw [← Frame.mixins, ← Frame.mixins, h.only tag prelude block hblock] at hsublist
      exact .inl (List.sublist_nil.mp hsublist)
  rw [Scope.enter, Scope.mixins_cons]
  obtain hown | hown := hown
  · rw [if_pos hown, hs]
  · rw [hown, if_neg (by simp [defined])]

theorem mixins_sheet {sheet : List (Node ι)} {m : Text} {body : List (Node ι)}
    (h : Inlinable sheet m body) :
    (Scope.enter [] sheet).mixins m = Frame.mixins (bindingsOf sheet) m := by
  obtain ⟨tag, prelude, defined, _⟩ := h.defined
  rw [Scope.enter, Scope.mixins_cons, if_neg (by simp [defined])]

variable {sheet : List (Node Nat)} {m : Text} {body copy : List (Node Nat)}

/-- Calls of a mixin in a style sheet replaced by a copy of its body. -/
def replacement (h : Inlinable sheet m body) (uncalled : Uncalled sheet copy) :
    Replacement Nat Nat where
  sheet := sheet
  tags := Eq
  nodes := Inlining m copy
  invariant s := s.mixins m = Frame.mixins (bindingsOf sheet) m
  unique := biUnique_eq
  unread := by
    rintro _ _ ⟨tag, c, hc, _⟩ x read
    rw [bindings_of_ofText_ne_inert tag (by simp [hc]), Node.bindings]
    exact ⟨rfl, uncalled.about read⟩
  enter hs hinner := h.mixins_enter hs hinner
  withValues hs values := (Scope.mixins_withValues _ _ values).trans hs

/-- What the body sees below the scope of the call, the copy sees in that scope. -/
theorem copyScopes (h : Inlinable sheet m body) {s s' : Scope Nat}
    (same : s.rawValue? = s'.rawValue?) : (copying body).Scopes (s.enter body) s' where
  invariant := trivial
  agree := by
    have outer : s.Agree (copying body).tags (copying body).Bodies (Called body) s' :=
      ⟨same, fun _ called => absurd called (h.callsNothing _),
        fun _ called => absurd called (h.callsNothing _)⟩
    refine outer.cons_left fun x read => ?_
    cases x with
    | «variable» => exact h.uncalled.about trivial
    | mixin => exact absurd read (h.callsNothing _)
    | detached => exact absurd read (h.callsNothing _)

theorem follows (h : Inlinable sheet m body) (uncalled : Uncalled sheet copy)
    (hcopy : (copying body).Bodies body copy) (depth : Nat) :
    (h.replacement uncalled).pairing.Follows succeeding depth := by
  refine (h.replacement uncalled).follows succeeding (fun _ _ _ _ => trivial) ?_ depth
  rintro depth - _ _ ⟨tag, hcall⟩ - s s' hs context output e e' - r hr
  obtain ⟨definedTag, prelude, defined, plain⟩ := h.defined
  have hbody := outcome_of_callsPlainly hcall (hs.invariant.trans defined) plain depth context
    output tag hr
  -- The body calls nothing, so it does not matter that its definition is being expanded.
  have inside : outcome (evalBody depth s' copy context output) e' = .ok r :=
    copying_follows body depth hcopy (h.copyScopes hs.agree.rawValue?) context output nofun r hbody
  show outcome (evalNode (evalBody depth) s' context output _) e' = .ok r
  rw [outcome_evalNode_ok _ _ _ _ rfl, evalTask, Bool.not_false, Bool.and_true, inside]

end Inlinable

/-! ## Style sheets -/

theorem mixins_numberNodes (nodes : List (Node ι)) (k : Nat) (m : Text) :
    List.Forall₂ (Definition.Like (fun _ _ => True) Renumbered) (Frame.mixins (bindingsOf nodes) m)
      (Frame.mixins (bindingsOf (numberNodes k nodes).1) m) :=
  frame_mixins_like (Frame.Like.of_forall₂ (numberNodes_bindings nodes k) _)

/-- A mixin that can be inlined can be with numbers for tags. -/
theorem Inlinable.number {sheet : List (Node ι)} {m : Text} {body : List (Node ι)}
    (h : Inlinable sheet m body) : ∃ k, Inlinable (numbered sheet) m (numberNodes k body).1 := by
  obtain ⟨tag, prelude, defined, plain⟩ := h.defined
  have hmixins := mixins_numberNodes sheet 0 m
  rw [defined] at hmixins
  obtain ⟨d, _, ⟨_, hprelude, k, hbody⟩, hnone, hd⟩ := List.forall₂_cons_left_iff.mp hmixins
  rw [List.forall₂_nil_left_iff.mp hnone] at hd
  refine ⟨k, ⟨d.tag, prelude, ?_, plain⟩, ?_, ?_, h.uncalled.numberNodes 0 k⟩
  · obtain rfl : prelude = d.prelude := hprelude
    rw [numbered, hd, ← hbody]
  · intro tag' prelude' inner hinner
    obtain ⟨n, j, hn, hnumber⟩ := occurs_numberNodes sheet 0 hinner
    cases n <;> rw [Node.number] at hnumber <;> cases hnumber
    rename_i unnumbered
    have hinner := mixins_numberNodes unnumbered (tag' + 1) m
    rw [h.only _ _ _ hn] at hinner
    exact List.forall₂_nil_left_iff.mp hinner
  · intro x called
    exact h.callsNothing x called.of_numberNodes

theorem CallInlined.bridge {m : Text} {body : List (Node ι)} (next : Nat) {n : Node ι}
    {nodes : List (Node ι)} (h : CallInlined m body n nodes) (j : Nat) :
    ∃ m', NodeBridge (Inlining m (numberNodes next body).1)
      (blockTagsOf (numberNodes next body).1) n nodes j m' := by
  obtain @⟨tag, text, h⟩ := h
  refine ⟨.imported [] false (numberNodes next body).1, .of_imported ?_ ?_⟩
  · rw [Node.number]
    exact .inline j h
  · rw [Node.number, Node.blockTags]
    exact .refl _

/-- The nodes of a mixin without parameters in the place of a call, at whatever depth, leave
the rule sets of a style sheet. -/
theorem evaluates_of_callInlined {before after : List (Node ι)} {m : Text} {body : List (Node ι)}
    (h : Within (Exchange (CallInlined m body)) before after) (inlinable : Inlinable before m body)
    {r : Stylesheet} (hr : Evaluates (numbered before) (.ok r)) :
    Evaluates (numbered after) (.ok r) := by
  obtain ⟨k, numbers⟩ := inlinable.number
  -- The copy has numbers that no node of the style sheet has.
  let next := (numberNodes 0 before).2
  obtain ⟨middle, bridge⟩ :
      ∃ middle, Bridge (numbered before) _ _ (numbered before) after middle :=
    h.bridge (CallInlined.bridge next) 0
  refine (bridge.evaluates_iff (numberNodes_tagsBetween body next) _).mp ?_
  have uncalled : Uncalled (numbered before) (numberNodes next body).1 :=
    inlinable.uncalled.numberNodes 0 next
  have hcopy : (copying (numberNodes k body).1).Bodies (numberNodes k body).1
      (numberNodes next body).1 :=
    ⟨.sheet, replaced_numberNodes numbers.callsNothing body k next⟩
  obtain ⟨depth, hdepth⟩ := (evaluates_iff _ _).mp hr
  have compares : ∀ a,
      outcome (evalBody depth (Scope.enter [] (numbered before)) (numbered before) [] true) [] = .ok a →
        outcome (evalBody depth (Scope.enter [] middle) middle [] true) [] = .ok a :=
    (numbers.replacement uncalled).compares succeeding (numbers.follows uncalled hcopy depth)
      bridge.replaced numbers.mixins_sheet
  refine (evaluates_iff _ _).mpr ⟨depth, ?_⟩
  cases hrun : outcome (evalBody depth (Scope.enter [] (numbered before)) (numbered before) [] true) [] with
  | error e =>
    rw [hrun] at hdepth
    cases hdepth
  | ok a => rw [compares a hrun, ← hrun, hdepth]

/-- A mixin with a declaration and a rule set. -/
def mixed : List (Node Nat) := [.statement 1 "c: d", .block 2 ".b" [.statement 3 "c: d"]]

/-- The mixin `.m()`, and other nodes in the at-rule of a mixin that is called. -/
def besideMixin (nodes : List (Node Nat)) : List (Node Nat) :=
  [.block 0 ".m()" mixed, .block 4 ".n()" [.block 5 "@media print" nodes],
    .block 6 ".a" [.statement 7 ".n()"]]

theorem inlinable_mixed : Inlinable (besideMixin [.statement 8 ".m()"]) ".m" mixed where
  defined := ⟨0, ".m()", rfl, rfl⟩
  only := by
    intro tag prelude inner h
    simp only [besideMixin, mixed, Node.occurs_cons, Node.inside, Node.not_occurs_nil,
      Node.block.injEq, reduceCtorEq, or_self, or_false, false_or] at h
    obtain ⟨_, _, rfl⟩ | ⟨_, _, rfl⟩ | ⟨_, _, rfl⟩ | ⟨_, _, rfl⟩ | ⟨_, _, rfl⟩ := h <;> decide
  callsNothing := by
    rintro x ⟨tag, text, h, hx⟩
    simp only [mixed, Node.occurs_cons, Node.inside, Node.not_occurs_nil, Node.statement.injEq,
      reduceCtorEq, or_self, or_false, false_or] at h
    obtain ⟨rfl, rfl⟩ | ⟨rfl, rfl⟩ := h <;> cases hx
  uncalled := by
    intro b hb
    obtain rfl : b = .mixin ".b" ⟨2, ".b", [.statement 3 "c: d"]⟩ := List.mem_singleton.mp hb
    refine ⟨".b", rfl, ?_⟩
    rintro ⟨tag, text, h, hx⟩
    simp only [besideMixin, mixed, Node.occurs_cons, Node.inside, Node.not_occurs_nil,
      Node.statement.injEq, reduceCtorEq, or_self, or_false, false_or] at h
    obtain (⟨rfl, rfl⟩ | ⟨rfl, rfl⟩) | ⟨rfl, rfl⟩ | ⟨rfl, rfl⟩ := h <;> revert hx <;> decide

/-- A call inlined where another call expands it. -/
theorem evaluates_besideMixin :
    Within (Exchange (CallInlined ".m" mixed)) (besideMixin [.statement 8 ".m()"])
        (besideMixin mixed) ∧
      Inlinable (besideMixin [.statement 8 ".m()"]) ".m" mixed ∧
      Evaluates (numbered (besideMixin [.statement 8 ".m()"])) (.ok [⟨[".a"]⟩, ⟨[".a .b"]⟩]) ∧
      Evaluates (numbered (besideMixin mixed)) (.ok [⟨[".a"]⟩, ⟨[".a .b"]⟩]) := by
  have plainly : CallsPlainly ".m" ".m()" := ⟨_, rfl, rfl, by decide⟩
  have exchange : Exchange (CallInlined ".m" mixed) [.statement 8 ".m()"] mixed :=
    .exchange (CallInlined.inline 8 plainly) []
  have within : Within (Exchange (CallInlined ".m" mixed)) (besideMixin [.statement 8 ".m()"])
      (besideMixin mixed) :=
    .later _ (.block 4 ".n()" _ (.block 5 "@media print" [] (.here exchange)))
  have result : Evaluates (numbered (besideMixin [.statement 8 ".m()"]))
      (.ok [⟨[".a"]⟩, ⟨[".a .b"]⟩]) := ⟨6, rfl⟩
  exact ⟨within, inlinable_mixed, result, evaluates_of_callInlined within inlinable_mixed result⟩

end StyleTypings.Less
