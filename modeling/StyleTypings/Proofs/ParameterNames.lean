/-
Parameter names — whether what a list of parameters declares has a value in the body.

A list declares a parameter in one of three ways, and each is read in another:

    written        read as
    @a             a variable, if the name is made of letters, numbers, hyphens and
                   underscores, and else a pattern
    @b: 1          a variable with a default
    @rest...       the leave to pass more arguments

Every variable of an accepted call is bound (`names_bindFrom`), so the first two are looked up
with success wherever the body goes.  The third leaves nothing behind that has its name.  So a
declared parameter is undefined in the body unless it is read as a variable, here or elsewhere
in the list, or has a value from elsewhere: from the body itself or from where the call stands
(`interpolate_parameter_iff`).
-/
import StyleTypings.Proofs.Evaluation.Likeness
import StyleTypings.Proofs.Evaluation.Tasks
import StyleTypings.Proofs.Naming
import StyleTypings.Proofs.Parameters

namespace StyleTypings.Less

namespace Signature

/-! ## Items of a list -/

variable {name item : Text}

/-- An item of a list of parameters declares a name: by itself, with a default, or for all
further arguments. -/
inductive Declares (name : Text) : Text → Prop where
  | plain : Declares name ('@' :: name)
  | withDefault {after default : Text} (colon : Text.trimLeft after = ':' :: default) :
    Declares name ('@' :: (name ++ after))
  | rest : Declares name ('@' :: (name ++ "..."))

/-- The item is read as a variable.  One that ends in three points is not, whatever its points
belong to: a default such as `1...` makes it stand for further arguments too. -/
inductive ReadAsVariable (name : Text) : Text → Prop where
  | plain (ne : name ≠ []) (all : ∀ c ∈ name, isIdentChar c = true) :
    ReadAsVariable name ('@' :: name)
  | withDefault {after default : Text} (ne : name ≠ []) (all : ∀ c ∈ name, isNameChar c = true)
    (colon : Text.trimLeft after = ':' :: default)
    (single : isRest ('@' :: (name ++ after)) = false) : ReadAsVariable name ('@' :: (name ++ after))

theorem isRest_eq_false {t : Text} (h : '.' ∉ t) : isRest t = false := by
  rw [isRest, Text.endsIn, Bool.eq_false_iff]
  intro rest
  have suffix : (("..." : Text)) <:+ t := List.isSuffixOf_iff_suffix.mp rest
  exact h (suffix.mem (List.mem_cons_self ..))

theorem name?_parameterOf : (parameterOf item).name? = some name ↔
    (∃ value, assignment? item = some (name, value)) ∨
      assignment? item = none ∧ variableName? item = some name := by
  rw [parameterOf]
  cases hassign : assignment? item with
  | some r =>
    obtain ⟨other, value⟩ := r
    simp [Parameter.name?]
  | none => cases hname : variableName? item <;> simp [Parameter.name?]

theorem readAsVariable_iff :
    ReadAsVariable name item ↔ isRest item = false ∧ (parameterOf item).name? = some name := by
  rw [name?_parameterOf]
  constructor
  · rintro (⟨ne, all⟩ | ⟨ne, all, colon, single⟩)
    · have absent : ∀ c, isIdentChar c = false → c ∉ name := by
        intro c hc mem
        exact absurd ((all c mem).symm.trans hc) (by decide)
      refine ⟨isRest_eq_false ?_, .inr ⟨?_, ?_⟩⟩
      · simp [absent '.' (by decide +kernel)]
      · refine Option.eq_none_iff_forall_not_mem.mpr fun ⟨_, _⟩ h => ?_
        obtain ⟨after, written, h, _, _, colon, _⟩ := assignment?_eq_some_iff.mp h
        refine absent ':' (by decide +kernel) ?_
        rw [(List.cons.inj h).2]
        exact List.mem_append_right _ ((List.dropWhile_sublist _).mem (colon ▸ List.mem_cons_self))
      · exact variableName?_eq_some_iff.mpr ⟨rfl, ne, all⟩
    · exact ⟨single, .inl ⟨_, assignment?_eq_some_iff.mpr ⟨_, _, rfl, ne, all, colon, rfl⟩⟩⟩
  · rintro ⟨single, ⟨value, h⟩ | ⟨_, h⟩⟩
    · obtain ⟨after, written, rfl, ne, all, colon, _⟩ := assignment?_eq_some_iff.mp h
      exact .withDefault ne all colon single
    · obtain ⟨rfl, ne, all⟩ := variableName?_eq_some_iff.mp h
      exact .plain ne all

/-! ## Lists of parameters -/

/-- What stands between the parentheses behind the name of a prelude, item by item. -/
def itemsOf (prelude : Text) : List Text :=
  match takeMixinName? prelude with
  | none => []
  | some (_, rest) =>
    match Text.trimLeft rest with
    | '(' :: inside => ((closeParens 0 inside).map fun r => splitArguments r.1).getD []
    | _ => []

/-- The part of a prelude that is called by a name: the whole of it, or one of the selectors
that it lists. -/
def partFor? (prelude called : Text) : Option Text :=
  if (read? prelude).isSome then some prelude
  else ((splitTop ',' prelude).map Text.trim).find? fun part => (read? part).any (·.name == called)

/-- The parameters of what is called by a name, as they are written. -/
def items (prelude called : Text) : List Text := ((partFor? prelude called).map itemsOf).getD []

section

variable {prelude called after rest inside between : Text} {s : Signature}

theorem itemsOf_parametric (hname : takeMixinName? prelude = some (name, rest))
    (opening : Text.trimLeft rest = '(' :: inside)
    (close : closeParens 0 inside = some (between, after)) :
    itemsOf prelude = splitArguments between := by
  simp only [itemsOf, hname, opening, close, Option.map_some, Option.getD_some]

theorem itemsOf_plain (hname : takeMixinName? prelude = some (name, rest))
    (plain : ∀ inside, Text.trimLeft rest ≠ '(' :: inside) : itemsOf prelude = [] := by
  unfold itemsOf
  split
  · rfl
  · rename_i taken
    cases hname.symm.trans taken
    split
    · rename_i opening
      exact absurd opening (plain _)
    · rfl

/-- All items but those for further arguments are parameters. -/
theorem parameters_of_read? (h : read? prelude = some s) :
    s.parameters = ((itemsOf prelude).filter (! isRest ·)).map parameterOf := by
  cases hname : takeMixinName? prelude with
  | none =>
    rw [read?, hname] at h
    cases h
  | some r =>
    obtain ⟨name, rest⟩ := r
    simp only [read?, hname] at h
    split at h
    · rename_i inside opening
      obtain ⟨⟨between, after⟩, close, h⟩ := Option.bind_eq_some_iff.mp h
      obtain ⟨guard, _, h⟩ := Option.bind_eq_some_iff.mp h
      cases h
      rw [itemsOf_parametric hname opening close]
    · rename_i plain
      obtain ⟨guard, _, rfl⟩ := Option.map_eq_some_iff.mp h
      rw [itemsOf_plain hname plain]
      rfl

theorem forCall?_eq (prelude called : Text) :
    forCall? prelude called = (partFor? prelude called).bind read? := by
  rw [forCall?, partFor?]
  cases h : read? prelude with
  | some s => simp [h]
  | none =>
    have parts : ofList prelude = ((splitTop ',' prelude).map Text.trim).filterMap read? := by
      rw [List.filterMap_map]
      rfl
    rw [parts, List.find?_filterMap]
    rfl

theorem parameters_of_forCall? (h : forCall? prelude called = some s) :
    s.parameters = ((items prelude called).filter (! isRest ·)).map parameterOf := by
  rw [forCall?_eq] at h
  obtain ⟨part, hpart, hread⟩ := Option.bind_eq_some_iff.mp h
  rw [items, hpart]
  exact parameters_of_read? hread

/-- The variables of a signature are what items of the list are read as. -/
theorem mem_variableNames (h : forCall? prelude called = some s) :
    name ∈ variableNames s.parameters ↔ ∃ item ∈ items prelude called, ReadAsVariable name item := by
  simp only [variableNames, parameters_of_forCall? h, List.mem_filterMap, List.mem_map,
    List.mem_filter, readAsVariable_iff, Bool.not_eq_true']
  constructor
  · rintro ⟨_, ⟨item, ⟨mem, single⟩, rfl⟩, named⟩
    exact ⟨item, mem, single, named⟩
  · rintro ⟨item, mem, single, named⟩
    exact ⟨_, ⟨item, ⟨mem, single⟩, rfl⟩, named⟩

end

/-- A list of parameters declares a name. -/
structure DeclaredIn (items : List Text) (name : Text) : Prop where
  ne_nil : name ≠ []
  chars : (name.all fun c => isNameChar c || isIdentChar c) = true
  item : ∃ item ∈ items, Declares name item

theorem DeclaredIn.brace {items : List Text} (h : DeclaredIn items name) : '\x7d' ∉ name :=
  fun brace => absurd (List.all_eq_true.mp h.chars _ brace) (by decide +kernel)

end Signature

/-! ## Values in the body -/

section

variable {ι : Type} {name : Text}

theorem isSome_rawValue?_variables (values : List (Text × Text)) :
    (Frame.rawValue? (values.map fun v => Binding.variable (ι := ι) v.1 v.2) name).isSome ↔
      name ∈ values.map (·.1) := by
  simp [Frame.rawValue?, Binding.rawValue?]

theorem Candidate.isSome_rawValue?_scope (c : Candidate ι) (caller : Scope ι) (a : Arguments) :
    ((c.scope caller a).rawValue? name).isSome ↔
      name ∈ (c.signature.bind a).map (·.1) ∨
        (Frame.rawValue? (bindingsOf c.definition.body) name).isSome ∨
          (caller.rawValue? name).isSome := by
  rw [Candidate.scope, Scope.rawValue?_withValues, Scope.enter, Scope.rawValue?_cons]
  simp only [Option.isSome_or, Bool.or_eq_true, isSome_rawValue?_variables]

/-- In the body of a definition that takes the arguments, and in all blocks and calls inside it,
which only put frames on its scope, no text calls a declared parameter undefined exactly when an
item of the list is read as a variable of the name, or the body declares it, or the scope of the
call knows it. -/
theorem interpolate_parameter_iff {c : Candidate ι} {called : Text} {a : Arguments}
    {ds : List (Definition ι)} (takes : c ∈ candidates called a ds)
    (declared : Signature.DeclaredIn (Signature.items c.definition.prelude called) name)
    (caller : Scope ι) :
    (∀ (top : Scope ι) t,
        (top ++ c.scope caller a).interpolate t ≠ .error (.undefinedVariable name)) ↔
      (∃ item ∈ Signature.items c.definition.prelude called, Signature.ReadAsVariable name item) ∨
        (Frame.rawValue? (bindingsOf c.definition.body) name).isSome ∨
          (caller.rawValue? name).isSome := by
  obtain ⟨_, signature, accepts⟩ := mem_candidates.mp takes
  have bound := Signature.names_bindFrom (Signature.accepts_iff.mp accepts).1
  rw [Scope.interpolate_ne_undefined_iff declared.brace, Candidate.isSome_rawValue?_scope,
    Signature.bind, bound, Signature.mem_variableNames signature]

end

/-- The mixin `.m(@first; @rest...)` with `.x-@{rest}` in its body. -/
def spread : Candidate Nat :=
  ⟨⟨0, ".m(@first; @rest...)", [.block 1 ".x-@\x7brest\x7d" [.statement 2 "a: b"]]⟩,
    ⟨".m", [.variable "first" none], true, true, none⟩⟩

theorem spread_takes : spread ∈ candidates ".m" ⟨["1", "2"], []⟩ [spread.definition] :=
  mem_candidates.mpr ⟨List.mem_singleton.mpr rfl, by decide +kernel, by decide⟩

theorem items_spread :
    Signature.items spread.definition.prelude ".m" = ["@first", "@rest..."] := by
  decide +kernel

theorem first_declaredIn_spread :
    Signature.DeclaredIn (Signature.items spread.definition.prelude ".m") "first" :=
  ⟨by decide, by decide +kernel, "@first", items_spread ▸ by decide, .plain⟩

/-- What the body of `.m(@first; @rest...)` calls `@first` is never undefined. -/
theorem interpolate_parameter_first :
    spread ∈ candidates ".m" ⟨["1", "2"], []⟩ [spread.definition] ∧
      Signature.DeclaredIn (Signature.items spread.definition.prelude ".m") "first" ∧
      ∀ top t, (top ++ spread.scope [] ⟨["1", "2"], []⟩).interpolate t ≠
        .error (.undefinedVariable "first") := by
  refine ⟨spread_takes, first_declaredIn_spread, ?_⟩
  refine (interpolate_parameter_iff spread_takes first_declaredIn_spread []).mpr (.inl ?_)
  have plain : Signature.ReadAsVariable "first" "@first" :=
    .plain (by decide) (List.all_eq_true.mp (by decide +kernel))
  exact ⟨"@first", items_spread ▸ by decide, plain⟩

/-- A declared parameter can be undefined: `.m(1; 2)` leaves `@rest` without a value in the body
of `.m(@first; @rest...)`. -/
theorem not_forall_parameter_defined :
    ¬ ∀ (ds : List (Definition Nat)) (c : Candidate Nat) (called name : Text) (a : Arguments)
      (caller top : Scope Nat) (t : Text), c ∈ candidates called a ds →
        Signature.DeclaredIn (Signature.items c.definition.prelude called) name →
          (top ++ c.scope caller a).interpolate t ≠ .error (.undefinedVariable name) := by
  intro h
  have declared : Signature.DeclaredIn (Signature.items spread.definition.prelude ".m") "rest" :=
    ⟨by decide, by decide +kernel, "@rest...", items_spread ▸ by decide, .rest⟩
  refine h _ spread ".m" "rest" ⟨["1", "2"], []⟩ [] [] ".x-@\x7brest\x7d" spread_takes declared ?_
  decide +kernel

end StyleTypings.Less
