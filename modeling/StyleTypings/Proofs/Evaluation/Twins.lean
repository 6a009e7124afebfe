/-
Twins — scopes that differ by the body of one plain rule set.

A plain rule set that calls itself is compared with the same rule set without the call.
Both have one tag, one name and the same declarations, so in scopes in which the one stands
in the place of the other, and no other block has the name, everything but the name itself
is found alike (`Twins.find`), every node asks for the same thing or for the one where the
other is asked for (`Twins.task`), and what a body comes to is the same (`Twins.agree`).

The rule set itself compares only where it is being expanded, since a call of it is passed
over there.  So two statements are carried through the induction on the depth: one of all
bodies that hold no call of this kind, and one of the two bodies where their tag is among
those being expanded.
-/
import StyleTypings.Proofs.ClassLike
import StyleTypings.Proofs.Inlining

namespace StyleTypings.Less

variable {ι : Type}

/-! ## Plain rule sets -/

/-- A definition without parameters, as a candidate. -/
def Definition.plainly (d : Definition ι) : Candidate ι := ⟨d, .ofName d.prelude⟩

theorem Definition.plainly_scope (d : Definition ι) (s : Scope ι) (a : Arguments) :
    d.plainly.scope s a = s.enter d.body := by
  simp [Candidate.scope, Definition.plainly, Signature.bind, Signature.ofName, Signature.bindFrom,
    Scope.enter, Scope.withValues]

/-! ## Twins -/

/-- Scopes in which one name stands for one of two definitions, and every other name for the
same in both.  All bodies of the first come from a tree. -/
structure Twins (tree : List (Node ι)) (d d' : Definition ι) (s s' : Scope ι) : Prop where
  origin : s.From tree
  rawValue? : s.rawValue? = s'.rawValue?
  detached? : s.detached? = s'.detached?
  mixins : ∀ name ≠ d.prelude, s.mixins name = s'.mixins name
  own : s.mixins d.prelude = [d]
  own' : s'.mixins d.prelude = [d']

/-- A plain rule set with a name that no other block of a tree has, and the same rule set
with a call of itself. -/
structure TwinDefinitions (tree : List (Node ι)) (d d' : Definition ι) : Prop where
  isName : ClassLike d.prelude
  only : ∀ tag prelude inner, (Node.block tag prelude inner).Occurs tree →
    d.prelude ∉ Signature.names prelude
  body : OccurIn tree d.body
  tag : d'.tag = d.tag
  prelude : d'.prelude = d.prelude
  call : ∃ front back mark text, d.body = front ++ back ∧
    d'.body = front ++ .statement mark text :: back ∧ CallsPlainly d.prelude text

section Bindings

variable {tree : List (Node ι)}

mutual

/-- A mixin that a node declares is a block that occurs with it. -/
theorem Node.occurs_of_mixin {name : Text} {d : Definition ι} : ∀ n : Node ι, n.Occurs tree →
    .mixin name d ∈ n.bindings →
      (Node.block d.tag d.prelude d.body).Occurs tree ∧ name ∈ Signature.names d.prelude
  | .statement tag text, _, h => by
    rw [Node.bindings] at h
    split at h <;> simp at h
  | .block tag prelude body, occurs, h => by
    rw [Node.bindings] at h
    split at h
    · simp at h
    · obtain ⟨other, hname, heq⟩ := List.mem_map.mp h
      cases heq
      exact ⟨occurs, hname⟩
  | .imported file reference nodes, occurs, h => by
    rw [Node.bindings] at h
    exact occurs_of_mixin nodes (.nodes occurs) h

theorem occurs_of_mixin {name : Text} {d : Definition ι} : ∀ nodes : List (Node ι),
    OccurIn tree nodes → .mixin name d ∈ bindingsOf nodes →
      (Node.block d.tag d.prelude d.body).Occurs tree ∧ name ∈ Signature.names d.prelude
  | [], _, h => by
    rw [bindingsOf] at h
    cases h
  | n :: rest, occur, h => by
    rw [bindingsOf] at h
    obtain h | h := List.mem_append.mp h
    · exact n.occurs_of_mixin (occur n List.mem_cons_self) h
    · exact occurs_of_mixin rest occur.cons h

end

end Bindings

variable {tree : List (Node ι)} {d d' : Definition ι}

/-- A call declares nothing. -/
theorem TwinDefinitions.bindings (t : TwinDefinitions tree d d') :
    bindingsOf d'.body = bindingsOf d.body := by
  obtain ⟨front, back, mark, text, hbody, hbody', c, hc, _⟩ := t.call
  rw [hbody, hbody', bindingsOf_append, bindingsOf_append, bindingsOf_cons,
    bindings_of_ofText_ne_inert mark (by simp [hc]), List.nil_append]

/-- No body of the tree declares the name. -/
theorem TwinDefinitions.mixins_eq_nil (t : TwinDefinitions tree d d') {nodes : List (Node ι)}
    (occur : OccurIn tree nodes) : Frame.mixins (bindingsOf nodes) d.prelude = [] := by
  refine List.filterMap_eq_nil_iff.mpr fun b hb => ?_
  by_contra found
  obtain ⟨other, hother⟩ := Option.ne_none_iff_exists'.mp found
  cases b with
  | «variable» => cases hother
  | detached => cases hother
  | mixin name definition =>
    obtain ⟨rfl, -⟩ : name = d.prelude ∧ _ := by
      simpa only [Binding.mixin?, Option.ite_none_right_eq_some] using hother
    obtain ⟨occurs, named⟩ := occurs_of_mixin nodes occur hb
    exact t.only _ _ _ occurs named

namespace Twins

variable {s s' : Scope ι} (h : Twins tree d d' s s') (t : TwinDefinitions tree d d')

/-! ### Scopes below -/

section

include h

/-- A frame in both scopes that declares nothing under the name. -/
theorem cons {f : Frame ι} (origin : Scope.From tree [f]) (nothing : f.mixins d.prelude = []) :
    Twins tree d d' (f :: s) (f :: s') where
  origin := by
    rintro g (_ | ⟨_, hg⟩)
    · exact origin f List.mem_cons_self
    · exact h.origin g hg
  rawValue? := by
    funext name
    rw [Scope.rawValue?_cons, Scope.rawValue?_cons, h.rawValue?]
  detached? := by
    funext name
    rw [Scope.detached?_cons, Scope.detached?_cons, h.detached?]
  mixins name other := by rw [Scope.mixins_cons, Scope.mixins_cons, h.mixins name other]
  own := by rw [Scope.mixins_cons, if_pos nothing, h.own]
  own' := by rw [Scope.mixins_cons, if_pos nothing, h.own']

theorem withValues (values : List (Text × Text)) :
    Twins tree d d' (s.withValues values) (s'.withValues values) where
  origin := h.origin.withValues values
  rawValue? := by
    funext name
    rw [Scope.rawValue?_withValues, Scope.rawValue?_withValues, h.rawValue?]
  detached? := by
    funext name
    rw [Scope.detached?_withValues, Scope.detached?_withValues, h.detached?]
  mixins name other := by
    rw [Scope.mixins_withValues, Scope.mixins_withValues, h.mixins name other]
  own := by rw [Scope.mixins_withValues, h.own]
  own' := by rw [Scope.mixins_withValues, h.own']

include t

theorem enter {nodes : List (Node ι)} (occur : OccurIn tree nodes) :
    Twins tree d d' (s.enter nodes) (s'.enter nodes) :=
  h.cons (Scope.From.nil.enter occur) (t.mixins_eq_nil occur)

theorem enterOwn : Twins tree d d' (s.enter d.body) (s'.enter d'.body) := by
  simpa only [Scope.enter, t.bindings] using h.enter t t.body

theorem candidate {c : Candidate ι} (occur : OccurIn tree c.definition.body) (a : Arguments) :
    Twins tree d d' (c.scope s a) (c.scope s' a) := (h.enter t occur).withValues _

/-! ### What is found -/

/-- All that a path leads to is the same, but for the name by itself. -/
theorem find {path : List Text} (other : path ≠ [d.prelude]) : s.find path = s'.find path := by
  match path with
  | [] => rfl
  | [name] => exact h.mixins name fun heq => other (heq ▸ rfl)
  | name :: next :: names =>
    show (s.mixins name).flatMap _ = (s'.mixins name).flatMap _
    by_cases hname : name = d.prelude
    · rw [hname, h.own, h.own']
      simp only [List.flatMap_cons, List.flatMap_nil, Scope.enter, t.bindings]
    · rw [h.mixins name hname]

end

end Twins

/-! ## Calls -/

variable [DecidableEq ι]

/-- What a call of a plain rule set by its name asks for. -/
theorem callTask_of_plain {s : Scope ι} {d : Definition ι} (name : ClassLike d.prelude)
    (own : s.mixins d.prelude = [d]) (expanding : List ι) {call : Call}
    (path : call.path = [d.prelude]) :
    s.callTask expanding call = s.arguments call.arguments >>= fun a =>
      if a.positional.isEmpty then
        .ok (.expansions call a (if d.tag ∈ expanding then [] else [d.plainly]))
      else .error (.noMatchingMixin call.text) := by
  have hfind : s.find call.path = [d] := by rw [path, Scope.find, own]
  simp only [Scope.callTask, hfind, List.isEmpty_cons, Bool.false_eq_true, if_false]
  refine congrArg (s.arguments call.arguments >>= ·) (funext fun a => ?_)
  have hcandidates : candidates (call.path.getLast?.getD []) a [d] =
      if a.positional.isEmpty then [d.plainly] else [] := by
    have accepts : (Signature.ofName d.prelude).accepts a = a.positional.isEmpty := rfl
    simp only [candidates, List.filterMap_cons, Signature.forCall?, name.read?, Option.filter,
      accepts]
    cases a.positional.isEmpty <;> rfl
  have hselected : selected s a expanding [d.plainly] =
      .ok (if d.tag ∈ expanding then [] else [(d.plainly, .always)]) := by
    have reentry : d.plainly.isReentry expanding = decide (d.tag ∈ expanding) := by
      simp [Candidate.isReentry, Definition.plainly, Signature.ofName]
    rw [selected, Candidate.selection, reentry]
    by_cases h : d.tag ∈ expanding
    · simp only [h, decide_true, if_true]
      rfl
    · simp only [h, decide_false, Bool.false_eq_true, if_false]
      rfl
  rw [hcandidates]
  cases a.positional.isEmpty with
  | false => rfl
  | true =>
    simp only [if_true, List.isEmpty_cons, Bool.false_eq_true, if_false, hselected]
    split <;> rfl

omit [DecidableEq ι] in
/-- What a block asks for is the same where variables have the same values. -/
theorem blockTask_congr {s s' : Scope ι} (same : s.rawValue? = s'.rawValue?) (context : List Text)
    (prelude : Text) (nodes : List (Node ι)) :
    s.blockTask context prelude nodes = s'.blockTask context prelude nodes := by
  simp only [Scope.blockTask, Scope.selectorBlockTask, Scope.guardHolds_congr same,
    Scope.interpolate_congr same]

theorem selected_congr {s s' : Scope ι} (same : s.rawValue? = s'.rawValue?) (a : Arguments)
    (expanding : List ι) (cs : List (Candidate ι)) :
    selected s a expanding cs = selected s' a expanding cs := by
  have selection (c : Candidate ι) : c.selection s a expanding = c.selection s' a expanding := by
    have below : (c.scope s a).rawValue? = (c.scope s' a).rawValue? := by
      funext name
      simp only [Candidate.scope, Scope.rawValue?_withValues, Scope.enter, Scope.rawValue?_cons, same]
    rw [Candidate.selection, Candidate.selection, selectionIn_congr below]
  induction cs with
  | nil => rfl
  | cons c rest ih => rw [selected, selected, selection c, ih]

/-- Tasks that are the same, or the expansion of the one definition and of the other. -/
inductive TaskTwins (d d' : Definition ι) : Task ι → Task ι → Prop where
  | same (t : Task ι) : TaskTwins d d' t t
  | own (call : Call) (a : Arguments) :
    TaskTwins d d' (.expansions call a [d.plainly]) (.expansions call a [d'.plainly])

namespace Twins

variable {s s' : Scope ι} (h : Twins tree d d' s s') (t : TwinDefinitions tree d d')

include h t

theorem callTask (expanding : List ι) (call : Call) :
    ResultLike (TaskTwins d d') (s.callTask expanding call) (s'.callTask expanding call) := by
  by_cases path : call.path = [d.prelude]
  · have isName' : ClassLike d'.prelude := t.prelude ▸ t.isName
    have own' : s'.mixins d'.prelude = [d'] := t.prelude ▸ h.own'
    rw [callTask_of_plain t.isName h.own expanding path,
      callTask_of_plain isName' own' expanding (t.prelude ▸ path), Scope.arguments_congr h.rawValue?,
      t.tag]
    refine .bind_same fun a => ?_
    split
    · split
      · exact .ok (.same _)
      · exact .ok (.own call a)
    · exact .error _
  · have equal : s.callTask expanding call = s'.callTask expanding call := by
      simp only [Scope.callTask, h.find t path, Scope.arguments_congr h.rawValue?,
        selected_congr h.rawValue?]
    rw [equal]
    cases s'.callTask expanding call with
    | ok task => exact .ok (.same task)
    | error e => exact .error e

/-- A node asks for the same in both scopes, or for the one definition where the other is
asked for. -/
theorem task (expanding : List ι) (context : List Text) (n : Node ι) :
    ResultLike (TaskTwins d d') (s.task expanding context n) (s'.task expanding context n) := by
  cases n with
  | statement tag text =>
    rw [Scope.task, Scope.task, Scope.statementTask, Scope.statementTask]
    cases Statement.ofText text with
    | declaration => exact .ok (.same _)
    | call c => exact h.callTask t expanding c
    | detachedCall name =>
      simp only [h.detached?]
      cases s'.detached? name with
      | some nodes => exact .ok (.same _)
      | none => exact .error _
    | inert => exact .ok (.same _)
  | block tag prelude nodes =>
    rw [Scope.task, Scope.task, blockTask_congr h.rawValue?]
    cases s'.blockTask context prelude nodes with
    | ok task => exact .ok (.same task)
    | error e => exact .error e
  | imported file reference nodes => exact .ok (.same _)

end Twins

/-! ## Outcomes -/

/-- Bodies of the tree come to the same in twin scopes, and so do the bodies of the two
definitions where these are being expanded. -/
structure TwinOutcomes (tree : List (Node ι)) (d d' : Definition ι) (depth : Nat) : Prop where
  any {s s' : Scope ι} (h : Twins tree d d' s s') {nodes : List (Node ι)}
    (occur : OccurIn tree nodes) (context : List Text) (output : Bool) (expanding : List ι) :
    outcome (evalBody depth s nodes context output) expanding =
      outcome (evalBody depth s' nodes context output) expanding
  own {s s' : Scope ι} (h : Twins tree d d' s s') (context : List Text) (output : Bool)
    {expanding : List ι} (inside : d.tag ∈ expanding) :
    outcome (evalBody depth s d.body context output) expanding =
      outcome (evalBody depth s' d'.body context output) expanding

theorem evalExpansion_twins {s s' : Scope ι} {depth : Nat} (context : List Text) (output : Bool)
    {expanding : List ι} {c c' : Candidate ι} (call : Call) (a : Arguments)
    (tag : c.definition.tag = c'.definition.tag)
    (inside : outcome (evalBody depth (c.scope s a) c.definition.body context output)
        (c.definition.tag :: expanding) =
      outcome (evalBody depth (c'.scope s' a) c'.definition.body context output)
        (c.definition.tag :: expanding)) :
    outcome (evalExpansion (evalBody depth) s call a context output c) expanding =
      outcome (evalExpansion (evalBody depth) s' call a context output c') expanding := by
  obtain room | full := Nat.lt_or_ge expanding.length maxExpansions
  · rw [outcome_evalExpansion_room _ _ _ _ _ _ _ room, outcome_evalExpansion_room _ _ _ _ _ _ _ room,
      inside, tag]
  · rw [outcome_evalExpansion_full _ _ _ _ _ _ _ full, outcome_evalExpansion_full _ _ _ _ _ _ _ full]

section Outcomes

variable {s s' : Scope ι} (h : Twins tree d d' s s') (t : TwinDefinitions tree d d') {depth : Nat}
  (bodies : TwinOutcomes tree d d' depth) (context : List Text) (output : Bool)
  {expanding : List ι}

include h t bodies

theorem evalTask_twins {task task' : Task ι} (twins : TaskTwins d d' task task')
    (origin : task.From tree) :
    outcome (evalTask (evalBody depth) s context output task) expanding =
      outcome (evalTask (evalBody depth) s' context output task') expanding := by
  cases twins with
  | own call a =>
    rw [evalTask, evalTask, outcome_evalExpansions_cons, outcome_evalExpansions_cons]
    refine congrArg₂ bothOutcomes (evalExpansion_twins context output call a t.tag.symm ?_) rfl
    rw [Definition.plainly_scope, Definition.plainly_scope]
    exact bodies.own (h.enterOwn t) context output List.mem_cons_self
  | same =>
    cases task with
    | none declares => rfl
    | ruleset selectors nodes =>
      rw [outcome_evalTask_ruleset, outcome_evalTask_ruleset,
        bodies.any (h.enter t origin) origin selectors output expanding]
    | imported reference nodes => exact bodies.any h origin context _ expanding
    | detached nodes => exact bodies.any (h.enter t origin) origin context output expanding
    | expansions call a cs =>
      show outcome (evalExpansions _ s call a context output cs) expanding =
        outcome (evalExpansions _ s' call a context output cs) expanding
      induction cs with
      | nil => rfl
      | cons c rest ih =>
        have hc : OccurIn tree c.definition.body := origin c List.mem_cons_self
        rw [outcome_evalExpansions_cons, outcome_evalExpansions_cons]
        refine congrArg₂ bothOutcomes ?_ (ih fun c' hc' => origin c' (List.mem_cons_of_mem c hc'))
        exact evalExpansion_twins context output call a rfl
          (bodies.any (h.candidate t hc a) hc context output _)

theorem evalNodes_twins {nodes : List (Node ι)} (occur : OccurIn tree nodes) :
    outcome (evalNodes (evalBody depth) s context output nodes) expanding =
      outcome (evalNodes (evalBody depth) s' context output nodes) expanding := by
  induction nodes with
  | nil => rfl
  | cons n rest ih =>
    rw [outcome_evalNodes_cons, outcome_evalNodes_cons]
    refine congrArg₂ bothOutcomes ?_ (ih occur.cons)
    have like := h.task t expanding context n
    generalize asks : s.task expanding context n = r, asks' : s'.task expanding context n = r' at like
    cases like with
    | ok twins =>
      rw [outcome_evalNode_ok _ _ _ _ asks, outcome_evalNode_ok _ _ _ _ asks']
      exact evalTask_twins h t bodies context output twins
        (task_from h.origin (occur n List.mem_cons_self) asks)
    | error e => rw [outcome_evalNode_error _ _ _ _ asks, outcome_evalNode_error _ _ _ _ asks']

end Outcomes

/-- Where a plain rule set is being expanded, a call of it is passed over. -/
theorem outcome_of_reentry {s : Scope ι} {d : Definition ι} (isName : ClassLike d.prelude)
    (own : s.mixins d.prelude = [d]) {text : Text} (call : CallsPlainly d.prelude text) (mark : ι)
    (depth : Nat) (context : List Text) (output : Bool) {expanding : List ι}
    (inside : d.tag ∈ expanding) :
    outcome (evalNode (evalBody depth) s context output (.statement mark text)) expanding =
      .ok (false, []) := by
  obtain ⟨c, hc, path, harguments⟩ := call
  have asks : s.task expanding context (.statement mark text) =
      .ok (.expansions c ⟨[], []⟩ []) := by
    rw [Scope.task, Scope.statementTask, hc]
    simp only
    rw [callTask_of_plain isName own expanding path, arguments_of_plainly s harguments, if_pos inside]
    rfl
  rw [outcome_evalNode_ok _ _ _ _ asks]
  rfl

theorem twinOutcomes (t : TwinDefinitions tree d d') (depth : Nat) :
    TwinOutcomes tree d d' depth := by
  induction depth with
  | zero => exact ⟨fun _ _ _ _ _ _ => rfl, fun _ _ _ _ _ => rfl⟩
  | succ depth ih =>
    refine ⟨fun h _ occur context output _ => evalNodes_twins h t ih context output occur, ?_⟩
    intro s s' h context output expanding inside
    obtain ⟨front, back, mark, text, hbody, hbody', call⟩ := t.call
    have isName' : ClassLike d'.prelude := t.prelude ▸ t.isName
    have passed := outcome_of_reentry isName' (t.prelude ▸ h.own') (t.prelude ▸ call) mark depth
      context output (t.tag.symm ▸ inside)
    have occur : OccurIn tree (front ++ back) := hbody ▸ t.body
    rw [hbody, hbody', evalBody, evalBody, outcome_evalNodes_append, outcome_evalNodes_append,
      outcome_evalNodes_cons, passed, bothOutcomes_nothing,
      evalNodes_twins h t ih context output fun n hn => occur n (List.mem_append_left _ hn),
      evalNodes_twins h t ih context output fun n hn => occur n (List.mem_append_right _ hn)]

end StyleTypings.Less
