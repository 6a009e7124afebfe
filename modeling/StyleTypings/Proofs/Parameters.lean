/-
Parameters — which parameter takes which argument.

A definition is matched with the arguments of a call, and its variables are bound to them,
by two walks along the parameters, each with the positional arguments that are left.  Both
move on at the same parameters, at patterns and at variables that are not passed by name,
so the place of an argument can be counted without a walk (`slots`):

    parameters     @a      dark    @b      @c: 1    @d: 2
    by name                        @b: 7
    positional     5       dark            6
    bound          a = 5           b = 7   c = 6    d = 2

From one step of each walk (`leftover?_cons`, `bindFrom_cons`) follows what a whole walk
does.  Arguments are accepted when every parameter is satisfied by what stands in its place
and none is left over at the end (`accepts_iff`), and then every variable is bound to what
satisfies it (`bind_of_accepts`).

Arguments by name are looked for under the names of the variables, and under no others.  So
one that no variable has the name of is never noticed: it is the one thing that an accepted
call can leave over (`leavesNothing_iff`).
-/
import StyleTypings.Less.Signature
import Mathlib.Data.Nat.Find
import Mathlib.Logic.ExistsUnique

namespace StyleTypings.Less

/-! ## Single parameters -/

/-- What a variable is given: its argument by name, else the positional argument in its
place, else its default. -/
def Arguments.value? (a : Arguments) (name : Text) (here? default : Option Text) : Option Text :=
  (a.named? name).or (here?.or default)

namespace Parameter

/-- The name of a variable. -/
def name? : Parameter → Option Text
  | .variable name _ => some name
  | .pattern _ => none

variable (a : Arguments)

/-- Whether a parameter takes a positional argument if one is left. -/
def isPositional : Parameter → Bool
  | .pattern _ => true
  | .variable name _ => (a.named? name).isNone

/-- A parameter has what it needs, given the positional argument in its place: a pattern the
same text up to the quotes around it, and a variable any value. -/
def Satisfied (here? : Option Text) : Parameter → Prop
  | .pattern p => ∃ v, here? = some v ∧ Text.unquote v = Text.unquote p
  | .variable name default => (a.value? name here? default).isSome

/-- What a parameter binds, given the positional argument in its place. -/
def binding? (here? : Option Text) : Parameter → Option (Text × Text)
  | .pattern _ => none
  | .variable name default => (a.value? name here? default).map fun v => (name, v)

variable {a} {here? : Option Text} {p : Parameter}

/-- A parameter that has what it needs binds its name, if it has any. -/
theorem Satisfied.name_binding (h : p.Satisfied a here?) :
    (p.binding? a here?).map (·.1) = p.name? := by
  obtain ⟨name, default⟩ | t := p
  · obtain ⟨v, hv⟩ := Option.isSome_iff_exists.mp h
    rw [binding?, hv]
    rfl
  · rfl

end Parameter

namespace Signature

variable (a : Arguments)

/-! ## Steps -/

/-- How many positional arguments parameters ask for. -/
def slots (ps : List Parameter) : Nat := ps.countP (·.isPositional a)

/-- The names of the variables among parameters, in order. -/
def variableNames (ps : List Parameter) : List Text := ps.filterMap (·.name?)

theorem slots_cons (p : Parameter) (ps : List Parameter) :
    slots a (p :: ps) = slots a [p] + slots a ps := by
  rw [slots, ← List.singleton_append, List.countP_append]
  rfl

theorem variableNames_cons (p : Parameter) (ps : List Parameter) :
    variableNames (p :: ps) = p.name?.toList ++ variableNames ps := by
  obtain ⟨name, default⟩ | t := p <;> rfl

variable {a} {p : Parameter} {ps : List Parameter} {rest left : List Text}

/-- A match goes on behind a parameter exactly when this has what it needs. -/
theorem leftover?_cons : leftover? a (p :: ps) rest = some left ↔
    p.Satisfied a rest.head? ∧ leftover? a ps (rest.drop (slots a [p])) = some left := by
  obtain ⟨name, default⟩ | t := p
  · cases passed : a.named? name with
    | some v =>
      simp [leftover?, Parameter.Satisfied, Arguments.value?, slots, Parameter.isPositional, passed]
    | none =>
      cases rest with
      | nil => simp [leftover?, Parameter.Satisfied, Arguments.value?, passed]
      | cons v rest =>
        simp [leftover?, Parameter.Satisfied, Arguments.value?, slots, Parameter.isPositional,
          passed]
  · cases rest with
    | nil => simp [leftover?, Parameter.Satisfied]
    | cons v rest => simp [leftover?, Parameter.Satisfied, slots, Parameter.isPositional]

theorem bindFrom_cons : bindFrom a (p :: ps) rest =
    (p.binding? a rest.head?).toList ++ bindFrom a ps (rest.drop (slots a [p])) := by
  obtain ⟨name, default⟩ | t := p
  · cases passed : a.named? name with
    | some v =>
      simp [bindFrom, Parameter.binding?, Arguments.value?, slots, Parameter.isPositional, passed]
    | none =>
      cases rest with
      | nil => cases default <;> simp [bindFrom, Parameter.binding?, Arguments.value?, passed]
      | cons v rest =>
        simp [bindFrom, Parameter.binding?, Arguments.value?, slots, Parameter.isPositional, passed]
  · simp [bindFrom, Parameter.binding?, slots, Parameter.isPositional]

/-! ## Walks -/

/-- Every parameter has what it needs in the place that the parameters before it leave. -/
def AllSatisfied (a : Arguments) (ps : List Parameter) (rest : List Text) : Prop :=
  ∀ before p after, ps = before ++ p :: after → p.Satisfied a rest[slots a before]?

theorem allSatisfied_cons : AllSatisfied a (p :: ps) rest ↔
    p.Satisfied a rest.head? ∧ AllSatisfied a ps (rest.drop (slots a [p])) := by
  constructor
  · intro h
    refine ⟨?_, fun before q after hps => ?_⟩
    · rw [List.head?_eq_getElem?]
      exact h [] p ps rfl
    · rw [List.getElem?_drop, ← slots_cons]
      exact h (p :: before) q after (congrArg (p :: ·) hps)
  · rintro ⟨first, later⟩ before q after hps
    cases before with
    | nil =>
      cases hps
      rw [List.head?_eq_getElem?] at first
      exact first
    | cons _ before =>
      cases hps
      rw [slots_cons, ← List.getElem?_drop]
      exact later before q after rfl

theorem AllSatisfied.of_append {before after : List Parameter}
    (h : AllSatisfied a (before ++ after) rest) : AllSatisfied a before rest := by
  rintro first p last rfl
  exact h first p (last ++ after) (by rw [List.append_assoc, List.cons_append])

/-- A match comes to its end when every parameter has what it needs, and leaves what is
behind the arguments that the parameters ask for. -/
theorem leftover?_eq_some_iff :
    leftover? a ps rest = some left ↔ AllSatisfied a ps rest ∧ left = rest.drop (slots a ps) := by
  induction ps generalizing rest with
  | nil =>
    have all : AllSatisfied a [] rest := by
      intro before p after h
      cases before <;> cases h
    rw [leftover?, Option.some.injEq, eq_comm]
    exact (and_iff_right all).symm
  | cons p ps ih =>
    rw [leftover?_cons, ih, allSatisfied_cons, slots_cons a p ps, List.drop_drop,
      and_assoc]

theorem bindFrom_append (before after : List Parameter) (rest : List Text) :
    bindFrom a (before ++ after) rest =
      bindFrom a before rest ++ bindFrom a after (rest.drop (slots a before)) := by
  induction before generalizing rest with
  | nil => rfl
  | cons p before ih =>
    rw [List.cons_append, bindFrom_cons, bindFrom_cons, ih, List.append_assoc, List.drop_drop,
      slots_cons a p before]

/-- Variables that have what they need are bound, each once and in order. -/
theorem names_bindFrom (h : AllSatisfied a ps rest) :
    (bindFrom a ps rest).map (·.1) = variableNames ps := by
  induction ps generalizing rest with
  | nil => rfl
  | cons p ps ih =>
    obtain ⟨first, later⟩ := allSatisfied_cons.mp h
    rw [bindFrom_cons, List.map_append, ih later, variableNames_cons, ← first.name_binding]
    cases p.binding? a rest.head? <;> rfl

/-! ## Accepted arguments -/

variable {s : Signature}

/-- Arguments are accepted when every parameter has what it needs and, unless there may be
more, none is left over. -/
theorem accepts_iff : s.accepts a = true ↔
    AllSatisfied a s.parameters a.positional ∧
      (s.variadic = true ∨ a.positional.length ≤ slots a s.parameters) := by
  rw [accepts]
  cases h : leftover? a s.parameters a.positional with
  | none =>
    refine iff_of_false Bool.false_ne_true fun ⟨all, _⟩ => ?_
    rw [leftover?_eq_some_iff.mpr ⟨all, rfl⟩] at h
    cases h
  | some left =>
    obtain ⟨all, rfl⟩ := leftover?_eq_some_iff.mp h
    simp [all]

/-- Where arguments are accepted, each variable among the parameters is bound, once and in
order: to its argument by name, else to the positional argument in its place, else to its
default.  Each pattern is, up to quotes, the positional argument in its place, which binding
passes over. -/
theorem bind_of_accepts (h : s.accepts a = true) :
    (s.bind a).map (·.1) = variableNames s.parameters ∧
    (∀ before name default after, s.parameters = before ++ .variable name default :: after →
      ∃ v, a.value? name a.positional[slots a before]? default = some v ∧
        (s.bind a)[(variableNames before).length]? = some (name, v)) ∧
    ∀ before p after, s.parameters = before ++ .pattern p :: after →
      ∃ v, a.positional[slots a before]? = some v ∧ Text.unquote v = Text.unquote p ∧
        s.bind a = bindFrom a before a.positional ++
          bindFrom a after (a.positional.drop (slots a before + 1)) := by
  obtain ⟨all, _⟩ := accepts_iff.mp h
  refine ⟨names_bindFrom all, ?_, ?_⟩
  · intro before name default after hs
    obtain ⟨v, hv⟩ := Option.isSome_iff_exists.mp (all _ _ _ hs)
    have earlier := congrArg List.length (names_bindFrom (hs ▸ all).of_append)
    rw [List.length_map] at earlier
    refine ⟨v, hv, ?_⟩
    rw [bind, hs, bindFrom_append, bindFrom_cons, List.head?_drop, Parameter.binding?, hv,
      ← earlier, List.getElem?_append_right (Nat.le_refl _), Nat.sub_self]
    rfl
  · intro before p after hs
    obtain ⟨v, hv, same⟩ := all _ _ _ hs
    refine ⟨v, hv, same, ?_⟩
    rw [bind, hs, bindFrom_append, bindFrom_cons, List.drop_drop]
    rfl

/-- The mixin `.m(@a; dark; @b; @c: 1; @d: 2)`. -/
def mixedSignature : Signature :=
  ⟨".m", [.variable "a" none, .pattern "dark", .variable "b" none, .variable "c" (some "1"),
    .variable "d" (some "2")], false, true, none⟩

/-- The arguments of the call `.m(5; 'dark'; 6; @b: 7)`. -/
def mixedArguments : Arguments := ⟨["5", "'dark'", "6"], [("b", "7")]⟩

/-- The third positional argument is for the fourth parameter, since the third is passed by
name. -/
theorem bind_of_accepts_mixed :
    mixedSignature.accepts mixedArguments = true ∧
      ∃ v, mixedArguments.value? "c" mixedArguments.positional[2]? (some "1") = some v ∧
        (mixedSignature.bind mixedArguments)[2]? = some (("c" : Text), v) := by
  have accepted : mixedSignature.accepts mixedArguments = true := by decide
  obtain ⟨_, bound, _⟩ := bind_of_accepts accepted
  exact ⟨accepted, bound [.variable "a" none, .pattern "dark", .variable "b" none] "c" (some "1")
    [.variable "d" (some "2")] rfl⟩

/-! ## Arguments that are left over -/

/-- The parameter at one place consumes the positional argument at another: the match comes to
the parameter with this argument first, and goes on behind it without. -/
structure Consumes (s : Signature) (a : Arguments) (place position : Nat) : Prop where
  place_lt : place < s.parameters.length
  position_lt : position < a.positional.length
  before : leftover? a (s.parameters.take place) a.positional = some (a.positional.drop position)
  after : leftover? a (s.parameters.take (place + 1)) a.positional =
    some (a.positional.drop (position + 1))

theorem slots_take_le (a : Arguments) (ps : List Parameter) {i j : Nat} (h : i ≤ j) :
    slots a (ps.take i) ≤ slots a (ps.take j) :=
  (List.take_sublist_take_left h).countP_le

theorem slots_take_succ (a : Arguments) (ps : List Parameter) (i : Nat) :
    slots a (ps.take (i + 1)) ≤ slots a (ps.take i) + 1 := by
  rw [List.take_add_one, slots, List.countP_append]
  refine Nat.add_le_add_left (Nat.le_trans List.countP_le_length ?_) _
  exact Option.length_toList_le

/-- Where arguments are accepted, the positional ones are consumed at the places where the
number of those asked for goes up. -/
theorem consumes_iff (h : s.accepts a = true) {place position : Nat} :
    s.Consumes a place position ↔
      place < s.parameters.length ∧ position < a.positional.length ∧
        slots a (s.parameters.take place) = position ∧
          slots a (s.parameters.take (place + 1)) = position + 1 := by
  have walk : ∀ n, leftover? a (s.parameters.take n) a.positional =
      some (a.positional.drop (slots a (s.parameters.take n))) := by
    intro n
    have all := (accepts_iff.mp h).1
    rw [← List.take_append_drop n s.parameters] at all
    exact leftover?_eq_some_iff.mpr ⟨all.of_append, rfl⟩
  constructor
  · rintro ⟨hplace, hposition, before, after⟩
    rw [walk, Option.some.injEq] at before after
    have here := congrArg List.length before
    have next := congrArg List.length after
    have step := slots_take_succ a s.parameters place
    simp only [List.length_drop] at here next
    exact ⟨hplace, hposition, by omega, by omega⟩
  · rintro ⟨hplace, hposition, here, next⟩
    exact ⟨hplace, hposition, here ▸ walk place, next ▸ walk (place + 1)⟩

/-- Every argument that is asked for is asked for in exactly one place. -/
theorem existsUnique_place (a : Arguments) {ps : List Parameter} {position : Nat}
    (h : position < slots a ps) :
    ∃! place, place < ps.length ∧ slots a (ps.take place) = position ∧
      slots a (ps.take (place + 1)) = position + 1 := by
  have reached : ∃ n, position < slots a (ps.take n) := ⟨ps.length, by rwa [List.take_length]⟩
  -- The first number of parameters that ask for more ends with the one that asks for this.
  obtain ⟨place, hplace⟩ : ∃ place, Nat.find reached = place + 1 := by
    refine Nat.exists_eq_succ_of_ne_zero fun zero => ?_
    have := Nat.find_spec reached
    rw [zero, List.take_zero] at this
    exact Nat.not_lt_zero _ this
  have first := Nat.find_spec reached
  have least := @Nat.find_min _ _ reached place
  rw [hplace] at first least
  have least := least (Nat.lt_succ_self place)
  have step := slots_take_succ a ps place
  refine ⟨place, ⟨?_, by omega, by omega⟩, ?_⟩
  · by_contra beyond
    rw [List.take_of_length_le (by omega)] at first least
    exact least first
  · rintro other ⟨_, here, next⟩
    by_contra differ
    obtain lt | lt := Nat.lt_or_gt_of_ne differ
    · have := slots_take_le a ps (i := other + 1) lt
      omega
    · have := slots_take_le a ps (i := place + 1) lt
      omega

/-- Positional arguments that are accepted where there may be no more are all consumed, each by
exactly one parameter. -/
theorem existsUnique_consumes (fixed : s.variadic = false) (h : s.accepts a = true)
    {position : Nat} (hposition : position < a.positional.length) :
    ∃! place, s.Consumes a place position := by
  obtain ⟨_, hvariadic | enough⟩ := accepts_iff.mp h
  · rw [fixed] at hvariadic
    cases hvariadic
  · simp only [consumes_iff h, hposition, true_and]
    exact existsUnique_place a (Nat.lt_of_lt_of_le hposition enough)

end Signature

/-! ## Arguments by name -/

/-- The arguments without those that are passed under other names. -/
def Arguments.known (a : Arguments) (names : List Text) : Arguments :=
  { a with named := a.named.filter fun r => r.1 ∈ names }

theorem lookup_filter {names : List Text} {name : Text} (h : name ∈ names)
    (l : List (Text × Text)) : (l.filter fun r => r.1 ∈ names).lookup name = l.lookup name := by
  induction l with
  | nil => rfl
  | cons r l ih =>
    obtain ⟨other, v⟩ := r
    rw [List.filter_cons]
    by_cases hname : name = other
    · subst hname
      simp [h]
    · have differ : (name == other) = false := beq_false_of_ne hname
      by_cases hother : other ∈ names <;> simp [hother, List.lookup_cons, differ, ih]

theorem Arguments.named?_known (a : Arguments) {names : List Text} {name : Text}
    (h : name ∈ names) : (a.known names).named? name = a.named? name := by
  rw [named?, named?, known, ← List.filter_reverse]
  exact lookup_filter h _

namespace Signature

variable {a a' : Arguments} {s : Signature}

/-- Arguments by name matter under the names of the variables alone. -/
theorem parameter_congr {p : Parameter}
    (h : ∀ name default, p = .variable name default → a'.named? name = a.named? name)
    (here? : Option Text) :
    p.isPositional a' = p.isPositional a ∧ (p.Satisfied a' here? ↔ p.Satisfied a here?) ∧
      p.binding? a' here? = p.binding? a here? := by
  obtain ⟨name, default⟩ | t := p
  · have same := h name default rfl
    have value : a'.value? name here? default = a.value? name here? default := by
      rw [Arguments.value?, Arguments.value?, same]
    simp only [Parameter.isPositional, Parameter.Satisfied, Parameter.binding?, same, value,
      and_self]
  · exact ⟨rfl, Iff.rfl, rfl⟩

/-- A walk along parameters depends on what is passed under the names of the variables among
them alone. -/
theorem walks_congr {ps : List Parameter}
    (h : ∀ name ∈ variableNames ps, a'.named? name = a.named? name) (rest : List Text) :
    leftover? a' ps rest = leftover? a ps rest ∧ bindFrom a' ps rest = bindFrom a ps rest := by
  induction ps generalizing rest with
  | nil => exact ⟨rfl, rfl⟩
  | cons p ps ih =>
    rw [variableNames_cons, List.forall_mem_append] at h
    obtain ⟨first, later⟩ := h
    have here : ∀ name default, p = .variable name default → a'.named? name = a.named? name := by
      rintro name default rfl
      exact first name (List.mem_singleton.mpr rfl)
    obtain ⟨positional, satisfied, binding⟩ := parameter_congr here rest.head?
    have slot : slots a' [p] = slots a [p] := by
      rw [slots, slots, List.countP_singleton, List.countP_singleton, positional]
    obtain ⟨hleft, hbind⟩ := ih later (rest.drop (slots a [p]))
    constructor
    · refine Option.ext fun left => ?_
      rw [leftover?_cons, leftover?_cons, satisfied, slot, hleft]
    · rw [bindFrom_cons, bindFrom_cons, binding, slot, hbind]

/-- An accepted call leaves no argument over: each positional argument is consumed by exactly one
parameter, and each argument by name is for one of the variables. -/
structure LeavesNothing (s : Signature) (a : Arguments) : Prop where
  positional : ∀ position < a.positional.length, ∃! place, s.Consumes a place position
  named : ∀ r ∈ a.named, r.1 ∈ variableNames s.parameters

/-- Where there may be no more arguments than parameters, an accepted call leaves nothing over
exactly when it passes nothing under names that no variable has.  What it does pass under such
names, nothing notices: without, the call is accepted and bound in the same way, and it leaves
nothing over. -/
theorem leavesNothing_iff (fixed : s.variadic = false) (h : s.accepts a = true) :
    (s.LeavesNothing a ↔ a.known (variableNames s.parameters) = a) ∧
      s.accepts (a.known (variableNames s.parameters)) = true ∧
      s.bind (a.known (variableNames s.parameters)) = s.bind a ∧
      s.LeavesNothing (a.known (variableNames s.parameters)) := by
  obtain ⟨match_eq, bind_eq⟩ := walks_congr (fun name => a.named?_known) a.positional
  have accepted : s.accepts (a.known (variableNames s.parameters)) = true := by
    rw [accepts, ← match_eq] at h
    exact h
  refine ⟨⟨fun nothing => ?_, fun known => ⟨?_, ?_⟩⟩, accepted, bind_eq, ?_, ?_⟩
  · rw [Arguments.known, List.filter_eq_self.mpr fun r hr => decide_eq_true (nothing.named r hr)]
  · exact fun position => existsUnique_consumes fixed h
  · rw [← known]
    exact fun r hr => of_decide_eq_true (List.mem_filter.mp hr).2
  · exact fun position => existsUnique_consumes fixed accepted
  · exact fun r hr => of_decide_eq_true (List.mem_filter.mp hr).2

theorem leavesNothing_mixed :
    mixedSignature.variadic = false ∧ mixedSignature.accepts mixedArguments = true ∧
      mixedSignature.LeavesNothing mixedArguments := by
  have accepted : mixedSignature.accepts mixedArguments = true := by decide
  exact ⟨rfl, accepted, (leavesNothing_iff rfl accepted).1.mpr (by decide)⟩

/-- The mixin `.m(@a: 1)`. -/
def defaultedSignature : Signature := ⟨".m", [.variable "a" (some "1")], false, true, none⟩

/-- An accepted call can pass something to a variable that is no parameter: `.m(@b: 2)` is taken
by `.m(@a: 1)`. -/
theorem not_forall_leavesNothing :
    ¬ ∀ (s : Signature) (a : Arguments), s.variadic = false → s.accepts a = true →
      s.LeavesNothing a := by
  intro h
  have nothing := h defaultedSignature ⟨[], [("b", "2")]⟩ rfl (by decide)
  have named := nothing.named ("b", "2") (List.mem_singleton.mpr rfl)
  exact absurd named (by decide)

end Signature

end StyleTypings.Less
