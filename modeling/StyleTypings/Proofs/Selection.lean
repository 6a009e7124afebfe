/-
Selection — which definitions a mixin call expands.

What `default()` is in the guards of a call is known only when the guards are.  So each is
evaluated twice, and kept by what comes of it:

    with `default()`   without   selection        expanded
    holds              holds     always           always
    holds              fails     ifDefault        if `default()` holds
    fails              holds     unlessDefault    if it does not
    fails              fails     none             never

All of this comes to one rule (`call_expands`).  Of the definitions that a call leads to, those
are eligible that take the arguments and are no plain rule sets being expanded already.
`default()` holds when no eligible definition comes without a guard or with one that holds
either way, and an eligible definition is expanded when it has no guard, or one that holds
with `default()` as it is.  To evaluate the call is to evaluate the bodies of these, in the order
of the definitions, and the first that halts is the last.

A guard without `default()` is the same both times, whether it holds, fails or is an error.
-/
import StyleTypings.Proofs.Evaluation.Tasks
import StyleTypings.Proofs.Evaluation.Visits

namespace StyleTypings.Less

/-! ## Guards without `default()` -/

namespace Expression

mutual

/-- Whether `default()` is called anywhere in an expression. -/
def callsDefault : Expression → Bool
  | .value _ => false
  | .variable _ => false
  | .negate e => e.callsDefault
  | .operation _ left right => left.callsDefault || right.callsDefault
  | .call f arguments => f == .default || callsDefaultIn arguments

/-- Whether `default()` is called anywhere in expressions. -/
def callsDefaultIn : List Expression → Bool
  | [] => false
  | e :: rest => e.callsDefault || callsDefaultIn rest

end

/-- No other function looks at what `default()` is. -/
theorem apply_default {f : Function} (h : f ≠ .default) (d d' : Option Bool)
    (arguments : List Value) : apply d f arguments = apply d' f arguments := by
  cases f with
  | default => exact absurd rfl h
  | _ => rfl

section

variable {lookup : Text → Except CompileError Value} (d d' : Option Bool)

mutual

theorem evaluate_default : ∀ e : Expression, e.callsDefault = false →
    e.evaluate lookup d = e.evaluate lookup d'
  | .value _, _ => rfl
  | .variable _, _ => rfl
  | .negate e, h => by
    rw [callsDefault] at h
    rw [evaluate, evaluate, evaluate_default e h]
  | .operation op left right, h => by
    rw [callsDefault, Bool.or_eq_false_iff] at h
    rw [evaluate, evaluate, evaluate_default left h.1, evaluate_default right h.2]
  | .call f arguments, h => by
    rw [callsDefault, Bool.or_eq_false_iff, beq_eq_false_iff_ne] at h
    rw [evaluate, evaluate, evaluateAll_default arguments h.2]
    simp only [apply_default h.1 d d']

theorem evaluateAll_default : ∀ es : List Expression, callsDefaultIn es = false →
    evaluateAll lookup d es = evaluateAll lookup d' es
  | [], _ => rfl
  | e :: rest, h => by
    rw [callsDefaultIn, Bool.or_eq_false_iff] at h
    rw [evaluateAll, evaluateAll, evaluate_default e h.1, evaluateAll_default rest h.2]

end

end

end Expression

/-- Whether `default()` is called on either side of a condition. -/
def Condition.callsDefault (c : Condition) : Bool :=
  c.left.callsDefault || c.comparison.any fun r => r.2.callsDefault

/-- Whether `default()` is called in any condition of a guard. -/
def Guard.callsDefault (g : Guard) : Bool := g.alternatives.any fun cs => cs.any (·.callsDefault)

section

variable {lookup : Text → Except CompileError Value} (d d' : Option Bool)

theorem Condition.holds_default {c : Condition} (h : c.callsDefault = false) :
    c.holds lookup d = c.holds lookup d' := by
  obtain ⟨negated, left, comparison⟩ := c
  rw [callsDefault, Bool.or_eq_false_iff] at h
  obtain ⟨hleft, hright⟩ := h
  cases comparison with
  | none => rw [holds, holds, Expression.evaluate_default d d' left hleft]
  | some comparison =>
    rw [holds, holds, Expression.evaluate_default d d' left hleft]
    simp only [Expression.evaluate_default d d' comparison.2 hright]

theorem Guard.allHold_default {cs : List Condition} (h : cs.any (·.callsDefault) = false) :
    allHold lookup d cs = allHold lookup d' cs := by
  induction cs with
  | nil => rfl
  | cons c rest ih =>
    rw [List.any_cons, Bool.or_eq_false_iff] at h
    rw [allHold, allHold, Condition.holds_default d d' h.1, ih h.2]

theorem Guard.anyHolds_default {alternatives : List (List Condition)}
    (h : (alternatives.any fun cs => cs.any (·.callsDefault)) = false) :
    anyHolds lookup d alternatives = anyHolds lookup d' alternatives := by
  induction alternatives with
  | nil => rfl
  | cons cs rest ih =>
    rw [List.any_cons, Bool.or_eq_false_iff] at h
    rw [anyHolds, anyHolds, allHold_default d d' h.1, ih h.2]

/-- A guard in which `default()` is not called comes to the same whatever it is. -/
theorem Guard.holds_default {g : Guard} (h : g.callsDefault = false) :
    g.holds lookup d = g.holds lookup d' :=
  anyHolds_default d d' h

end

variable {ι : Type}

/-! ## What is selected -/

/-- Whether a guard holds in a scope, given what `default()` is; it does when there is none. -/
def Scope.guardGiven (s : Scope ι) (isDefault : Bool) : Option Text → Except CompileError Bool
  | none => .ok true
  | some t => do (← Guard.read t).holds s.value (some isDefault)

/-- A selection is made of what the guard comes to with `default()` and without. -/
theorem selectionIn_eq_ok {s : Scope ι} {guard : Option Text} {selection : Option Selection}
    (h : selectionIn s guard = .ok selection) :
    ∃ x y, s.guardGiven true guard = .ok x ∧ s.guardGiven false guard = .ok y ∧
      selection = Selection.ofGuard x y := by
  cases guard with
  | none =>
    cases h
    exact ⟨true, true, rfl, rfl, rfl⟩
  | some t =>
    rw [selectionIn] at h
    obtain ⟨g, hread, h⟩ := ok_of_bind h
    obtain ⟨x, hwith, h⟩ := ok_of_bind h
    obtain ⟨y, hwithout, h⟩ := ok_of_bind h
    refine ⟨x, y, ?_, ?_, (Except.ok.inj h).symm⟩
    · rw [Scope.guardGiven, hread]
      exact hwith
    · rw [Scope.guardGiven, hread]
      exact hwithout

namespace Candidate

variable (caller : Scope ι) (a : Arguments)

/-- The candidate has no guard, or one that holds, given what `default()` is. -/
abbrev Holds (isDefault : Bool) (c : Candidate ι) : Prop :=
  (c.scope caller a).guardGiven isDefault c.signature.guard = .ok true

/-- The guard of a candidate, if it has any, can be evaluated with `default()` and without. -/
def Decided (c : Candidate ι) : Prop :=
  ∀ isDefault, ∃ r, (c.scope caller a).guardGiven isDefault c.signature.guard = .ok r

theorem holds_of_unguarded {c : Candidate ι} (h : c.signature.guard = none) (isDefault : Bool) :
    c.Holds caller a isDefault := by
  rw [Holds, h]
  rfl

/-- The selection that the two values of the guard make. -/
def pair (c : Candidate ι) : Option (Candidate ι × Selection) :=
  (Selection.ofGuard (c.Holds caller a true) (c.Holds caller a false)).map fun s => (c, s)

end Candidate

section

variable [DecidableEq ι] {caller : Scope ι} {a : Arguments} {expanding : List ι}

theorem selection_of_not_isReentry {c : Candidate ι} {here : Option Selection}
    (entered : c.isReentry expanding = false) (h : c.selection caller a expanding = .ok here) :
    c.Decided caller a ∧ (here.map fun s => (c, s)) = c.pair caller a := by
  rw [Candidate.selection, entered, if_neg Bool.false_ne_true] at h
  obtain ⟨x, y, hwith, hwithout, rfl⟩ := selectionIn_eq_ok h
  refine ⟨Bool.rec ⟨y, hwithout⟩ ⟨x, hwith⟩, ?_⟩
  simp only [Candidate.pair, Candidate.Holds, hwith, hwithout, Except.ok.injEq, Bool.decide_eq_true]

/-- What is selected is paired with what its guard comes to both times; a plain rule set that is
being expanded already is left out. -/
theorem selected_eq_ok {cs : List (Candidate ι)} {chosen : List (Candidate ι × Selection)}
    (h : selected caller a expanding cs = .ok chosen) :
    (∀ c ∈ cs.filter (! ·.isReentry expanding), c.Decided caller a) ∧
      chosen = (cs.filter (! ·.isReentry expanding)).filterMap (·.pair caller a) := by
  induction cs generalizing chosen with
  | nil =>
    cases h
    exact ⟨nofun, rfl⟩
  | cons c rest ih =>
    obtain ⟨here, others, hhere, hothers, rfl⟩ := selected_cons_eq_ok h
    obtain ⟨decided, rfl⟩ := ih hothers
    cases entered : c.isReentry expanding with
    | true =>
      rw [Candidate.selection, entered, if_pos rfl] at hhere
      cases hhere
      rw [List.filter_cons_of_neg (by simp [entered])]
      exact ⟨decided, rfl⟩
    | false =>
      obtain ⟨hc, hpair⟩ := selection_of_not_isReentry entered hhere
      rw [List.filter_cons_of_pos (by simp [entered]), hpair]
      refine ⟨List.forall_mem_cons.mpr ⟨hc, decided⟩, ?_⟩
      rw [List.filterMap_cons]
      cases c.pair caller a <;> rfl

end

/-! ## What is expanded -/

theorem expands_ofGuard (isDefault x y : Bool) :
    (Selection.ofGuard x y).any (·.expands isDefault) = if isDefault then x else y := by
  cases isDefault <;> cases x <;> cases y <;> rfl

theorem always_ofGuard (x y : Bool) :
    (Selection.ofGuard x y).any (· == .always) = (x && y) := by
  cases x <;> cases y <;> rfl

section

variable (caller : Scope ι) (a : Arguments)

/-- A test of the selections is one of the candidates that have them. -/
theorem map_filter_pair (test : Selection → Bool) (cs : List (Candidate ι)) :
    ((cs.filterMap (·.pair caller a)).filter fun r => test r.2).map (·.1) =
      cs.filter fun c =>
        (Selection.ofGuard (c.Holds caller a true) (c.Holds caller a false)).any test := by
  rw [List.filter_filterMap, List.map_filterMap, ← List.filterMap_eq_filter]
  congr 1
  funext c
  rw [Candidate.pair]
  cases hs : Selection.ofGuard (c.Holds caller a true) (c.Holds caller a false) with
  | none => simp [hs, Option.guard]
  | some selection => cases h : test selection <;> simp [hs, h, Option.guard]

theorem any_pair (test : Selection → Bool) (cs : List (Candidate ι)) :
    (cs.filterMap (·.pair caller a)).any (fun r => test r.2) =
      cs.any fun c =>
        (Selection.ofGuard (c.Holds caller a true) (c.Holds caller a false)).any test := by
  rw [List.any_filterMap]
  congr 1
  funext c
  rw [Candidate.pair]
  cases Selection.ofGuard (c.Holds caller a true) (c.Holds caller a false) <;> rfl

/-- What `default()` is and which definitions are chosen, of those that are eligible. -/
structure Chooses (eligible : List (Candidate ι)) (isDefault : Bool)
    (chosen : List (Candidate ι)) : Prop where
  isDefault_iff : isDefault = true ↔ ∀ c ∈ eligible,
    ¬ (c.signature.guard = none ∨ c.Holds caller a true ∧ c.Holds caller a false)
  chosen_eq : chosen =
    eligible.filter fun c => c.signature.guard = none ∨ c.Holds caller a isDefault

theorem expands_pair (isDefault : Bool) (c : Candidate ι) :
    (Selection.ofGuard (c.Holds caller a true) (c.Holds caller a false)).any
      (·.expands isDefault) = decide (c.signature.guard = none ∨ c.Holds caller a isDefault) := by
  have guarded : (c.signature.guard = none ∨ c.Holds caller a isDefault) ↔
      c.Holds caller a isDefault :=
    or_iff_right_of_imp fun unguarded => c.holds_of_unguarded caller a unguarded isDefault
  rw [expands_ofGuard, decide_eq_decide.mpr guarded]
  cases isDefault <;> rfl

/-- A definition that is selected always is one whose guard holds either way. -/
theorem chooses_expanded (eligible : List (Candidate ι)) :
    ∃ isDefault, Chooses caller a eligible isDefault
      (expanded (eligible.filterMap (·.pair caller a))) := by
  refine ⟨! eligible.any fun c => c.Holds caller a true && c.Holds caller a false, ?_, ?_⟩
  · rw [Bool.not_eq_true', List.any_eq_false]
    refine forall₂_congr fun c _ => not_congr ?_
    rw [Bool.and_eq_true, decide_eq_true_iff, decide_eq_true_iff]
    refine ⟨.inr, Or.rec (fun unguarded => ?_) id⟩
    exact ⟨c.holds_of_unguarded caller a unguarded true,
      c.holds_of_unguarded caller a unguarded false⟩
  · rw [expanded, any_pair caller a (· == .always), map_filter_pair]
    simp only [always_ofGuard, expands_pair]

end

/-! ## What is done with them -/

/-- The body of a definition, while the definition is being expanded. -/
def Candidate.expansion [DecidableEq ι] (s : Scope ι) (a : Arguments) (context : List Text)
    (output : Bool) (depth : Nat) (c : Candidate ι) : Eval ι Bool :=
  Eval.whileExpanding c.definition.tag
    (evalBody depth (c.scope s a) c.definition.body context output)

section

variable [DecidableEq ι] (s : Scope ι) (call : Call) (a : Arguments) (context : List Text)
  (output : Bool) (depth : Nat)

/-- Where there is room for one expansion, there is for all of a call, since each is over before
the next.  They are made in order, and the first that halts is the last. -/
theorem result_evalExpansions {cs : List (Candidate ι)} {p : Progress ι}
    (room : cs ≠ [] → p.expanding.length < maxExpansions) :
    result (evalExpansions (evalBody depth) s call a context output cs) p =
      result (do return (← cs.mapM (Candidate.expansion s a context output depth)).any id) p := by
  induction cs generalizing p with
  | nil => rfl
  | cons c rest ih =>
    have first : result (evalExpansion (evalBody depth) s call a context output c) p =
        result (c.expansion s a context output depth) p :=
      evalExpansion_of_room _ s context output call a c (room (List.cons_ne_nil c rest))
    rw [evalExpansions, List.mapM_cons, bind_assoc]
    cases done : result (c.expansion s a context output depth) p with
    | error h => rw [result_bind_error (first.trans done), result_bind_error done]
    | ok r =>
      obtain ⟨declares, q⟩ := r
      have kept : q.expanding = p.expanding :=
        Keeps.whileExpanding _ (evalBody_keeps depth _ _ _ _) p declares q done
      have later := ih fun _ => kept ▸ room (List.cons_ne_nil c rest)
      simp only [Halting.result_bind] at later
      simp only [Halting.result_bind, first, done, Except.bind, bind_assoc, pure_bind, later]
      cases result (rest.mapM (Candidate.expansion s a context output depth)) q <;> rfl

/-- A call that leads to expansions is evaluated by making them, if there is room for any. -/
theorem evalNode_of_call {tag : ι} {text : Text} {p : Progress ι} {cs : List (Candidate ι)}
    (called : Statement.ofText text = .call call)
    (asks : s.callTask p.expanding call = .ok (.expansions call a cs)) :
    result (evalNode (evalBody depth) s context output (.statement tag text)) p =
      if cs = [] ∨ p.expanding.length < 256 then
        result (do return (← cs.mapM (Candidate.expansion s a context output depth)).any id) p
      else .error (.error (.mixinRecursion call.text 256)) := by
  have task : s.task p.expanding context (.statement tag text) = .ok (.expansions call a cs) := by
    rw [Scope.task, Scope.statementTask, called]
    exact asks
  rw [evalNode_of_task _ s context output task, evalTask]
  split
  case isTrue room =>
    exact result_evalExpansions s call a context output depth room.resolve_left
  case isFalse full =>
    rw [not_or, Nat.not_lt] at full
    obtain ⟨c, rest, rfl⟩ := List.exists_cons_of_ne_nil full.1
    rw [evalExpansions]
    exact result_bind_error (evalExpansion_of_full _ s context output call a c full.2)

end

/-! ## Calls -/

/-- The definitions that a call leads to and that take its arguments, but no plain rule sets
that are being expanded already. -/
def Scope.eligible [DecidableEq ι] (s : Scope ι) (expanding : List ι) (call : Call)
    (a : Arguments) : List (Candidate ι) :=
  (candidates (call.path.getLast?.getD []) a (s.find call.path)).filter (! ·.isReentry expanding)

/-- A call that comes to expansions has evaluated the guards of all eligible definitions.  It
chooses those that have no guard or one that holds, where `default()` holds when no eligible
definition has no guard or one that holds either way.  Evaluating the call is evaluating the
bodies of the definitions that are chosen, and of no others, in their order and up to the first
that halts; or it is the error that there are too many expansions, if any is to be made where
256 are being made.  What `default()` is does not matter to a guard that does not call it. -/
theorem call_expands [DecidableEq ι] {s : Scope ι} {p : Progress ι} {text : Text}
    {call : Call} {t : Task ι} (called : Statement.ofText text = .call call)
    (asks : s.callTask p.expanding call = .ok t) (tag : ι) (context : List Text) (output : Bool) :
    ∃ a isDefault chosen, s.arguments call.arguments = .ok a ∧
      (∀ c ∈ s.eligible p.expanding call a, c.Decided s a) ∧
      Chooses s a (s.eligible p.expanding call a) isDefault chosen ∧
      (∀ depth, result (evalNode (evalBody depth) s context output (.statement tag text)) p =
        if chosen = [] ∨ p.expanding.length < 256 then
          result (do return (← chosen.mapM (Candidate.expansion s a context output depth)).any id) p
        else .error (.error (.mixinRecursion call.text 256))) ∧
      ∀ g : Guard, g.callsDefault = false → ∀ lookup,
        g.holds lookup (some true) = g.holds lookup (some false) := by
  obtain ⟨a, chosen, ha, hchosen, rfl⟩ := callTask_cases asks
  obtain ⟨decided, rfl⟩ := selected_eq_ok hchosen
  obtain ⟨isDefault, chooses⟩ := chooses_expanded s a (s.eligible p.expanding call a)
  exact ⟨a, isDefault, _, ha, decided, chooses,
    fun depth => evalNode_of_call s call a context output depth called asks,
    fun g h lookup => g.holds_default (some true) (some false) h⟩

/-! ### A mixin with a default -/

/-- The definition of `.theme` for one mode. -/
def darkTheme : Candidate Nat :=
  ⟨⟨0, ".theme(@mode) when (@mode = dark)", [.block 1 ".dark" [.statement 2 "color: white"]]⟩,
    ⟨".theme", [.variable "mode" none], false, true, some "(@mode = dark)"⟩⟩

/-- The definition of `.theme` for all modes that have none of their own. -/
def lightTheme : Candidate Nat :=
  ⟨⟨3, ".theme(@mode) when (default())", [.block 4 ".light" [.statement 5 "color: black"]]⟩,
    ⟨".theme", [.variable "mode" none], false, true, some "(default())"⟩⟩

/-- The scope of a style sheet with both. -/
def themes : Scope Nat :=
  Scope.enter [] [.block 0 darkTheme.definition.prelude darkTheme.definition.body,
    .block 3 lightTheme.definition.prelude lightTheme.definition.body]

def sepiaCall : Call := ⟨".theme(sepia)", [".theme"], some "sepia"⟩

theorem callTask_sepia :
    themes.callTask [] sepiaCall = .ok (.expansions sepiaCall ⟨["sepia"], []⟩ [lightTheme]) := by
  have arguments : themes.arguments (some "sepia") = .ok ⟨["sepia"], []⟩ := by decide +kernel
  have dark : darkTheme.selection themes ⟨["sepia"], []⟩ [] = .ok none := by decide +kernel
  have light : lightTheme.selection themes ⟨["sepia"], []⟩ [] = .ok (some .ifDefault) := by
    decide +kernel
  have chosen : selected themes ⟨["sepia"], []⟩ [] [darkTheme, lightTheme] =
      .ok [(lightTheme, .ifDefault)] := by
    rw [selected, selected, selected, dark, light]
    rfl
  have takers : candidates ".theme" ⟨["sepia"], []⟩ (themes.find [".theme"]) =
      [darkTheme, lightTheme] := rfl
  have alone : ∀ c : Candidate Nat, expanded [(c, .ifDefault)] = [c] := fun _ => rfl
  have asks : themes.callTask [] sepiaCall =
      .ok (.expansions sepiaCall ⟨["sepia"], []⟩ (expanded [(lightTheme, .ifDefault)])) :=
    callTask_of_selected arguments takers (List.cons_ne_nil _ _) chosen
  rwa [alone] at asks

/-- Where no definition is for the mode, `default()` holds, and the one for all modes is what is
expanded. -/
theorem call_expands_sepia :
    Chooses themes ⟨["sepia"], []⟩ (themes.eligible [] sepiaCall ⟨["sepia"], []⟩) true
        [lightTheme] ∧
      ∀ depth, result (evalNode (evalBody depth) themes [] true (.statement 6 ".theme(sepia)"))
          ⟨#[], []⟩ =
        result (do
          return (← [lightTheme].mapM (Candidate.expansion themes ⟨["sepia"], []⟩ [] true
            depth)).any id) ⟨#[], []⟩ := by
  have called : Statement.ofText ".theme(sepia)" = .call sepiaCall := rfl
  have arguments : themes.arguments sepiaCall.arguments = .ok ⟨["sepia"], []⟩ := by decide +kernel
  have eligible : themes.eligible [] sepiaCall ⟨["sepia"], []⟩ = [darkTheme, lightTheme] := rfl
  have notDark : ∀ isDefault, ¬ (darkTheme.signature.guard = none ∨
      darkTheme.Holds themes ⟨["sepia"], []⟩ isDefault) := by decide +kernel
  have light : lightTheme.Holds themes ⟨["sepia"], []⟩ true := by decide +kernel
  have notLight : ¬ (lightTheme.signature.guard = none ∨
      lightTheme.Holds themes ⟨["sepia"], []⟩ false) := by decide +kernel
  obtain ⟨a, isDefault, chosen, ha, _, chooses, expands, _⟩ :=
    call_expands (p := ⟨#[], []⟩) called callTask_sepia 6 [] true
  cases arguments.symm.trans ha
  have holds : isDefault = true := by
    rw [chooses.isDefault_iff, eligible]
    refine List.forall_mem_cons.mpr ⟨fun h => notDark true (h.imp_right And.left), ?_⟩
    exact List.forall_mem_singleton.mpr fun h => notLight (h.imp_right And.right)
  subst holds
  have only : chosen = [lightTheme] := by
    rw [chooses.chosen_eq, eligible, List.filter_cons, List.filter_cons, List.filter_nil,
      if_neg (mt of_decide_eq_true (notDark true)), if_pos (decide_eq_true (.inr light))]
  subst only
  exact ⟨chooses, expands⟩

end StyleTypings.Less
