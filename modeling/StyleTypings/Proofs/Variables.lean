/-
Variables — what the text of a variable depends on.

A variable leads to those that its value mentions, and so on.  The text depends on
what the scope gives to these and on nothing else (`within_congr`), so frames that give
none of them a value can be put on a scope without changing it
(`interpolate_append`).  An error that calls a variable undefined tells the truth
(`within_undefined`).
-/
import StyleTypings.Less.Scope
import StyleTypings.Proofs.Failures
import Mathlib.Logic.Relation

namespace StyleTypings.Less

/-! ## Expressions -/

namespace Expression

mutual

/-- The variables in an expression. -/
def names : Expression → List Text
  | .value _ => []
  | .variable name => [name]
  | .negate e => e.names
  | .operation _ left right => left.names ++ right.names
  | .call _ arguments => namesOf arguments

/-- The variables in expressions. -/
def namesOf : List Expression → List Text
  | [] => []
  | e :: rest => e.names ++ namesOf rest

end

section Congruence

variable {lookup lookup' : Text → Except CompileError Value} (default : Option Bool)

mutual

/-- The value of an expression depends on the values of its variables alone. -/
theorem evaluate_congr : ∀ e : Expression, (∀ name ∈ e.names, lookup name = lookup' name) →
    e.evaluate lookup default = e.evaluate lookup' default
  | .value _, _ => rfl
  | .variable name, h => by
    simpa only [evaluate] using h name (by simp [names])
  | .negate e, h => by
    rw [names] at h
    rw [evaluate, evaluate, evaluate_congr e h]
  | .operation op left right, h => by
    simp only [names, List.mem_append] at h
    rw [evaluate, evaluate, evaluate_congr left fun n hn => h n (.inl hn),
      evaluate_congr right fun n hn => h n (.inr hn)]
  | .call f arguments, h => by
    rw [names] at h
    rw [evaluate, evaluate, evaluateAll_congr arguments h]

theorem evaluateAll_congr : ∀ es : List Expression,
    (∀ name ∈ namesOf es, lookup name = lookup' name) →
    evaluateAll lookup default es = evaluateAll lookup' default es
  | [], _ => rfl
  | e :: rest, h => by
    simp only [namesOf, List.mem_append] at h
    rw [evaluateAll, evaluateAll, evaluate_congr e fun n hn => h n (.inl hn),
      evaluateAll_congr rest fun n hn => h n (.inr hn)]

end

end Congruence

/-! ### Errors -/

theorem negated_ne_undefined (v : Value) (x : Text) :
    negated v ≠ .error (.undefinedVariable x) := by
  cases v <;> simp [negated]

theorem operate_ne_undefined (op : Operator) (left right : Value) (x : Text) :
    operate op left right ≠ .error (.undefinedVariable x) := by
  unfold operate
  cases left <;> cases right <;> try simp
  cases op <;> simp
  split <;> simp

theorem apply_ne_undefined (default : Option Bool) (f : Function) (arguments : List Value)
    (x : Text) : apply default f arguments ≠ .error (.undefinedVariable x) := by
  unfold apply
  cases f <;> simp
  · split <;> simp
  · split <;> simp

section Errors

variable {lookup : Text → Except CompileError Value} {default : Option Bool} {x : Text}

mutual

/-- An expression calls a variable undefined only when one of its own does. -/
theorem evaluate_undefined : ∀ e : Expression,
    e.evaluate lookup default = .error (.undefinedVariable x) →
      ∃ name ∈ e.names, lookup name = .error (.undefinedVariable x)
  | .variable name, h => ⟨name, by simp [names], h⟩
  | .negate e, h => by
    rw [evaluate] at h
    obtain h | ⟨v, h⟩ := error_of_bind h
    · exact evaluate_undefined e h
    · exact absurd h (negated_ne_undefined v x)
  | .operation op left right, h => by
    rw [evaluate] at h
    simp only [names, List.mem_append]
    obtain h | ⟨l, h⟩ := error_of_bind h
    · obtain ⟨name, hname, hx⟩ := evaluate_undefined left h
      exact ⟨name, .inl hname, hx⟩
    obtain h | ⟨r, h⟩ := error_of_bind h
    · obtain ⟨name, hname, hx⟩ := evaluate_undefined right h
      exact ⟨name, .inr hname, hx⟩
    · exact absurd h (operate_ne_undefined op l r x)
  | .call f arguments, h => by
    rw [evaluate] at h
    obtain h | ⟨vs, h⟩ := error_of_bind h
    · exact evaluateAll_undefined arguments h
    · exact absurd h (apply_ne_undefined default f vs x)

theorem evaluateAll_undefined : ∀ es : List Expression,
    evaluateAll lookup default es = .error (.undefinedVariable x) →
      ∃ name ∈ namesOf es, lookup name = .error (.undefinedVariable x)
  | e :: rest, h => by
    rw [evaluateAll] at h
    simp only [namesOf, List.mem_append]
    obtain h | ⟨v, h⟩ := error_of_bind h
    · obtain ⟨name, hname, hx⟩ := evaluate_undefined e h
      exact ⟨name, .inl hname, hx⟩
    obtain h | ⟨vs, h⟩ := error_of_bind h
    · obtain ⟨name, hname, hx⟩ := evaluateAll_undefined rest h
      exact ⟨name, .inr hname, hx⟩
    · cases h

end

end Errors

end Expression

/-- Text without an `@` before another opens no interpolation. -/
theorem unopened_append {s t : Text} (hs : '@' ∉ s) (h : ¬ (['@', '\x7b'] : Text) <:+: t) :
    ¬ (['@', '\x7b'] : Text) <:+: s ++ t := by
  induction s with
  | nil => exact h
  | cons c s ih =>
    rw [List.mem_cons, not_or] at hs
    intro opened
    rcases List.infix_cons_iff.mp opened with begins | opened
    · exact hs.1 (List.cons_prefix_cons.mp begins).1
    · exact ih hs.2 opened

namespace Scope

/-! ## Texts -/

/-- The names that the interpolations in a text mention; `skip` counts the characters of
one that are still to be passed. -/
def interpolatedFrom : Nat → Text → List Text
  | _, [] => []
  | skip + 1, _ :: rest => interpolatedFrom skip rest
  | 0, c :: rest =>
    match c, rest with
    | '@', '\x7b' :: after =>
      match Text.breakAt? '\x7d' after with
      | some (name, _) => name :: interpolatedFrom (name.length + 2) rest
      | none => interpolatedFrom 0 rest
    | _, _ => interpolatedFrom 0 rest

/-- The names that the interpolations in a text mention, in order. -/
def interpolated (t : Text) : List Text := interpolatedFrom 0 t

section Texts

variable {resolve resolve' : Text → Except CompileError Text}

theorem replaceNames_cons {c : Char} {t : Text} (h : c ≠ '@' ∨ ∀ after, t ≠ '\x7b' :: after) :
    replaceNames resolve 0 (c :: t) = (replaceNames resolve 0 t).map (c :: ·) := by
  rw [replaceNames.eq_def]
  simp only
  split
  · obtain h | h := h
    · exact absurd rfl h
    · exact absurd rfl (h _)
  · cases replaceNames resolve 0 t <;> rfl

theorem replaceNames_plain {c : Char} {t : Text}
    (h : ∀ after, c = '@' → t = '\x7b' :: after → False) :
    replaceNames resolve 0 (c :: t) = (replaceNames resolve 0 t).map (c :: ·) :=
  replaceNames_cons (Decidable.or_iff_not_imp_left.mpr fun hc after =>
    h after (Decidable.not_not.mp hc))

theorem replaceNames_open {after : Text} (h : Text.breakAt? '\x7d' after = none) :
    replaceNames resolve 0 ('@' :: '\x7b' :: after) =
      (replaceNames resolve 0 ('\x7b' :: after)).map ('@' :: ·) := by
  rw [replaceNames.eq_def]
  simp only [h]
  cases replaceNames resolve 0 ('\x7b' :: after) <;> rfl

theorem replaceNames_closed {after name after' : Text}
    (h : Text.breakAt? '\x7d' after = some (name, after')) :
    replaceNames resolve 0 ('@' :: '\x7b' :: after) = (do
      let value ← resolve name
      return value ++ (← replaceNames resolve (name.length + 2) ('\x7b' :: after))) := by
  rw [replaceNames.eq_def]
  simp only [h]

/-- A text with its interpolations replaced depends on the texts of the names in them
alone. -/
theorem replaceNames_congr {skip : Nat} {t : Text}
    (h : ∀ name ∈ interpolatedFrom skip t, resolve name = resolve' name) :
    replaceNames resolve skip t = replaceNames resolve' skip t := by
  fun_induction interpolatedFrom skip t with
  | case1 => simp only [replaceNames]
  | case2 skip c rest ih => rw [replaceNames, replaceNames, ih h]
  | case3 after name after' hbreak ih =>
    simp only [List.mem_cons, forall_eq_or_imp] at h
    rw [replaceNames_closed hbreak, replaceNames_closed hbreak, h.1, ih h.2]
  | case4 after hbreak ih => rw [replaceNames_open hbreak, replaceNames_open hbreak, ih h]
  | case5 c rest plain ih => rw [replaceNames_plain plain, replaceNames_plain plain, ih h]

/-- What is never opened is not replaced. -/
theorem replaceNames_of_unopened {t : Text} (h : ¬ (['@', '\x7b'] : Text) <:+: t) :
    replaceNames resolve 0 t = .ok t := by
  induction t with
  | nil => simp only [replaceNames]
  | cons c t ih =>
    have plain : ∀ after, c = '@' → t = '\x7b' :: after → False := by
      rintro after rfl rfl
      exact h ⟨[], after, rfl⟩
    rw [replaceNames_plain plain, ih fun inside => h (List.infix_cons inside)]
    rfl

theorem replaceNames_of_unsigned {t : Text} (h : '@' ∉ t) : replaceNames resolve 0 t = .ok t :=
  replaceNames_of_unopened fun inside => h (inside.subset List.mem_cons_self)

theorem replaceNames_append {s : Text} (h : '@' ∉ s) (t : Text) :
    replaceNames resolve 0 (s ++ t) = (replaceNames resolve 0 t).map (s ++ ·) := by
  induction s with
  | nil =>
    rw [List.nil_append]
    cases replaceNames resolve 0 t <;> rfl
  | cons c s ih =>
    simp only [List.mem_cons, not_or] at h
    rw [List.cons_append, replaceNames_cons (.inl (Ne.symm h.1)), ih h.2]
    cases replaceNames resolve 0 t <;> rfl

theorem replaceNames_undefined {skip : Nat} {t x : Text}
    (h : replaceNames resolve skip t = .error (.undefinedVariable x)) :
    ∃ name ∈ interpolatedFrom skip t, resolve name = .error (.undefinedVariable x) := by
  fun_induction interpolatedFrom skip t with
  | case1 => simp [replaceNames] at h
  | case2 skip c rest ih => exact ih (by rwa [replaceNames] at h)
  | case3 after name after' hbreak ih =>
    rw [replaceNames_closed hbreak] at h
    simp only [List.mem_cons, exists_eq_or_imp]
    obtain h | ⟨value, h⟩ := error_of_bind h
    · exact .inl h
    obtain h | ⟨rest, h⟩ := error_of_bind h
    · exact .inr (ih h)
    · cases h
  | case4 after hbreak ih => exact ih (error_of_map (by rwa [replaceNames_open hbreak] at h))
  | case5 c rest plain ih => exact ih (error_of_map (by rwa [replaceNames_plain plain] at h))

end Texts

/-! ## Values -/

theorem bare_tilde (value : Text) : bare ('~' :: value) = bare value := by
  rw [bare, bare, List.dropWhile_cons_of_pos rfl]

/-- A value in quotes is bare without them. -/
theorem bare_quotes {q : Char} (quote : Text.isQuote q = true) (content : Text) :
    bare (q :: (content ++ [q])) = content := by
  have hq : q = '"' ∨ q = '\'' := by simpa [Text.isQuote] using quote
  have solid : isBlank q = false := by obtain rfl | rfl := hq <;> rfl
  have untilded : (q :: (content ++ [q])).dropWhile (· == '~') = q :: (content ++ [q]) := by
    obtain rfl | rfl := hq <;> rfl
  have trimmed : Text.trim (q :: (content ++ [q])) = q :: (content ++ [q]) := by
    simp [Text.trim, Text.trimLeft, Text.trimRight, solid]
  rw [bare, untilded, trimmed, Text.unquote]
  simp [quote]

/-- The names that a value mentions when it is looked at as `meaning` does: it is a
variable, or computed from some, or a text with interpolations. -/
def references (value : Text) : List Text :=
  match variableName? value with
  | some name => [name]
  | none =>
    match Expression.read? value with
    | some e => if e.isLiteral then interpolated value else e.names
    | none => interpolated value

/-- What `meaning` does with a value, and what the value mentions for it. -/
theorem meaning_cases (value : Text) :
    (∃ name, variableName? value = some name ∧ references value = [name] ∧
      ∀ resolve lookup, meaning resolve lookup value = resolve name) ∨
    (∃ e, Expression.read? value = some e ∧ e.isLiteral = false ∧
      references value = e.names ∧
      ∀ resolve lookup, meaning resolve lookup value = (e.evaluate lookup none).map Value.text) ∨
    ((∀ e, Expression.read? value = some e → e.isLiteral) ∧
      references value = interpolated value ∧
      ∀ resolve lookup, meaning resolve lookup value = replaceNames resolve 0 value) := by
  unfold references meaning
  cases hname : variableName? value with
  | some name => exact .inl ⟨name, rfl, rfl, fun _ _ => rfl⟩
  | none =>
    cases hread : Expression.read? value with
    | none => exact .inr (.inr ⟨nofun, rfl, fun _ _ => rfl⟩)
    | some e =>
      cases literal : e.isLiteral with
      | true =>
        refine .inr (.inr ⟨?_, by simp [literal], fun _ _ => by simp [literal]⟩)
        rintro e' ⟨⟩
        exact literal
      | false =>
        exact .inr (.inl ⟨e, rfl, literal, by simp [literal], fun _ _ => by simp [literal]⟩)

section Values

variable {resolve resolve' : Text → Except CompileError Text}
  {lookup lookup' : Text → Except CompileError Value} {value : Text}

theorem meaning_congr (hresolve : ∀ name ∈ references value, resolve name = resolve' name)
    (hlookup : ∀ name ∈ references value, lookup name = lookup' name) :
    meaning resolve lookup value = meaning resolve' lookup' value := by
  obtain ⟨name, _, hrefs, h⟩ | ⟨e, _, _, hrefs, h⟩ | ⟨_, hrefs, h⟩ := meaning_cases value
  · rw [h, h, hresolve name (by simp [hrefs])]
  · rw [h, h, Expression.evaluate_congr none e (hrefs ▸ hlookup)]
  · rw [h, h, replaceNames_congr (hrefs ▸ hresolve)]

theorem meaning_undefined {x : Text}
    (h : meaning resolve lookup value = .error (.undefinedVariable x)) :
    ∃ name ∈ references value, resolve name = .error (.undefinedVariable x) ∨
      lookup name = .error (.undefinedVariable x) := by
  obtain ⟨name, _, hrefs, heq⟩ | ⟨e, _, _, hrefs, heq⟩ | ⟨_, hrefs, heq⟩ := meaning_cases value
  · exact ⟨name, by simp [hrefs], .inl (heq resolve lookup ▸ h)⟩
  · have he : e.evaluate lookup none = .error (.undefinedVariable x) :=
      error_of_map (heq resolve lookup ▸ h)
    obtain ⟨name, hname, hx⟩ := Expression.evaluate_undefined e he
    exact ⟨name, hrefs ▸ hname, .inr hx⟩
  · obtain ⟨name, hname, hx⟩ := replaceNames_undefined (heq resolve lookup ▸ h)
    exact ⟨name, hrefs ▸ hname, .inl hx⟩

end Values

/-- The names that a value mentions as it is written or without its quotes. -/
def mentioned (written : Text) : List Text :=
  references (bare written) ++ ((Expression.read? written).map Expression.names).getD []

section Scopes

variable {ι κ : Type} {s : Scope ι} {s' : Scope κ} {name x : Text}

/-! ## Scopes -/

/-- One step from a variable to one that its value mentions. -/
def Mentions (s : Scope ι) (name other : Text) : Prop :=
  ∃ written, s.rawValue? name = some written ∧ other ∈ mentioned written

/-- The variables that a variable leads to, itself among them. -/
abbrev LeadsTo (s : Scope ι) : Text → Text → Prop := Relation.ReflTransGen s.Mentions

theorem written_congr (h : s.rawValue? name = s'.rawValue? name) :
    s.written name = s'.written name := by
  rw [written, written, h]

/-- Scopes that give the same to everything a variable leads to give it the same text
and the same value, at every depth. -/
theorem within_congr (depth : Nat) (h : ∀ other, s.LeadsTo name other →
    s.rawValue? other = s'.rawValue? other) :
    s.textWithin depth name = s'.textWithin depth name ∧
      s.valueWithin depth name = s'.valueWithin depth name := by
  induction depth generalizing name with
  | zero =>
    have hname := written_congr (h name .refl)
    exact ⟨by rw [textWithin, textWithin, hname], by rw [valueWithin, valueWithin, hname]⟩
  | succ depth ih =>
    rw [textWithin, textWithin, valueWithin, valueWithin, written_congr (h name .refl)]
    cases hwritten : s.rawValue? name with
    | none =>
      have : s'.written name = .error (.undefinedVariable name) := by
        rw [← written_congr (h name .refl), written, hwritten]
      rw [this]
      exact ⟨rfl, rfl⟩
    | some w =>
      have hw : s'.written name = .ok w := by
        rw [← written_congr (h name .refl), written, hwritten]
      have later : ∀ other ∈ mentioned w, s.textWithin depth other = s'.textWithin depth other ∧
          s.valueWithin depth other = s'.valueWithin depth other := fun other hother =>
        ih fun last hlast => h last (.head ⟨w, hwritten, hother⟩ hlast)
      have hmeaning : meaning (s.textWithin depth) (s.valueWithin depth) (bare w) =
          meaning (s'.textWithin depth) (s'.valueWithin depth) (bare w) :=
        meaning_congr (fun o ho => (later o (List.mem_append_left _ ho)).1)
          fun o ho => (later o (List.mem_append_left _ ho)).2
      rw [hw]
      simp only [bind, Except.bind, hmeaning, true_and]
      cases hread : Expression.read? w with
      | none => rfl
      | some e =>
        refine Expression.evaluate_congr none e fun o ho => (later o ?_).2
        rw [mentioned, hread]
        exact List.mem_append_right _ ho

/-- Whatever is called undefined has no value. -/
theorem within_undefined (depth : Nat) :
    (s.textWithin depth name = .error (.undefinedVariable x) → s.rawValue? x = none) ∧
      (s.valueWithin depth name = .error (.undefinedVariable x) → s.rawValue? x = none) := by
  have written_undefined : ∀ {name}, s.written name = .error (.undefinedVariable x) →
      s.rawValue? x = none := by
    intro name h
    unfold written at h
    split at h
    · cases h
    · cases h
      assumption
  induction depth generalizing name with
  | zero =>
    rw [textWithin, valueWithin]
    exact ⟨fun h => written_undefined (error_of_map h), fun h => written_undefined (error_of_map h)⟩
  | succ depth ih =>
    have hmeaning : ∀ value, meaning (s.textWithin depth) (s.valueWithin depth) value =
        .error (.undefinedVariable x) → s.rawValue? x = none := by
      intro value h
      obtain ⟨other, _, h | h⟩ := meaning_undefined h
      · exact ih.1 h
      · exact ih.2 h
    rw [textWithin, valueWithin]
    constructor <;> intro h
    · obtain h | ⟨w, h⟩ := error_of_bind h
      · exact written_undefined h
      · exact hmeaning _ h
    · obtain h | ⟨w, h⟩ := error_of_bind h
      · exact written_undefined h
      · split at h
        · rename_i e _
          obtain ⟨other, _, h⟩ := Expression.evaluate_undefined e h
          exact ih.2 h
        · exact hmeaning _ (error_of_map h)

/-- What a value without its quotes comes to once a variable has been followed to it. -/
def means (s : Scope ι) (value : Text) : Except CompileError Text :=
  meaning (s.textWithin (maxDepth - 1)) (s.valueWithin (maxDepth - 1)) value

theorem text_of_written {w : Text} (h : s.rawValue? name = some w) :
    s.text name = s.means (bare w) := by
  have hw : s.written name = .ok w := by rw [written, h]
  rw [text, maxDepth, textWithin, hw]
  rfl

/-- A variable is called undefined exactly when it has no value. -/
theorem text_eq_undefined_iff :
    s.text name = .error (.undefinedVariable name) ↔ s.rawValue? name = none := by
  refine ⟨(within_undefined maxDepth).1, fun h => ?_⟩
  have hw : s.written name = .error (.undefinedVariable name) := by rw [written, h]
  rw [text, maxDepth, textWithin, hw]
  rfl

/-! ### Frames put on a scope -/

section Frames

variable {top : Scope ι}

theorem rawValue?_append (h : ∀ f ∈ top, Frame.rawValue? f name = none) :
    rawValue? (top ++ s) name = s.rawValue? name := by
  rw [rawValue?, List.findSome?_append, List.findSome?_eq_none_iff.mpr h, Option.none_or, rawValue?]

/-- Frames that give a value to nothing a variable leads to leave its text as it is. -/
theorem textWithin_append (depth : Nat)
    (h : ∀ other, s.LeadsTo name other → ∀ f ∈ top, Frame.rawValue? f other = none) :
    textWithin (top ++ s) depth name = s.textWithin depth name :=
  (within_congr depth fun other hother => (rawValue?_append (h other hother)).symm).1.symm

/-- Frames that give a value to nothing the interpolations in a text lead to leave it as
it is. -/
theorem interpolate_append {t : Text}
    (h : ∀ name ∈ interpolated t, ∀ other, s.LeadsTo name other →
      ∀ f ∈ top, Frame.rawValue? f other = none) :
    interpolate (top ++ s) t = s.interpolate t :=
  replaceNames_congr fun name hname => textWithin_append maxDepth (h name hname)

end Frames

/-! ### References -/

/-- The text `@{name}`. -/
def reference (name : Text) : Text := '@' :: '\x7b' :: name ++ ['\x7d']

theorem replaceNames_skip {resolve : Text → Except CompileError Text} (skip : Nat) (t : Text) :
    replaceNames resolve skip t = replaceNames resolve 0 (t.drop skip) := by
  induction t generalizing skip with
  | nil => cases skip <;> simp [replaceNames]
  | cons c t ih =>
    cases skip with
    | zero => rfl
    | succ skip => rw [replaceNames, ih, List.drop_succ_cons]

theorem breakAt?_append {sep : Char} {t : Text} (h : sep ∉ t) (after : Text) :
    Text.breakAt? sep (t ++ sep :: after) = some (t, after) := by
  induction t with
  | nil => simp [Text.breakAt?]
  | cons c t ih =>
    simp only [List.mem_cons, not_or] at h
    rw [List.cons_append, Text.breakAt?, if_neg (Ne.symm h.1), ih h.2]
    rfl

theorem replaceNames_reference {resolve : Text → Except CompileError Text} (h : '\x7d' ∉ name)
    (after : Text) : replaceNames resolve 0 (reference name ++ after) = (do
      let value ← resolve name
      return value ++ (← replaceNames resolve 0 after)) := by
  have passed : ('\x7b' :: (name ++ '\x7d' :: after)).drop (name.length + 2) = after := by
    rw [List.drop_succ_cons, ← List.drop_drop, List.drop_left, List.drop_one, List.tail_cons]
  rw [reference, List.append_assoc, List.singleton_append, List.cons_append, List.cons_append,
    replaceNames_closed (breakAt?_append h after), replaceNames_skip (name.length + 2), passed]

theorem interpolate_reference (h : '\x7d' ∉ name) :
    s.interpolate (reference name) = s.text name := by
  rw [interpolate, ← List.append_nil (reference name), replaceNames_reference h]
  cases s.text name <;> simp [replaceNames, bind, Except.bind, pure, Except.pure]

theorem interpolate_undefined {t : Text}
    (h : s.interpolate t = .error (.undefinedVariable x)) : s.rawValue? x = none := by
  obtain ⟨other, _, hother⟩ := replaceNames_undefined h
  exact (within_undefined maxDepth).1 hother

/-- No text calls a variable undefined, in a scope and wherever frames are put on it, exactly
when the variable has a value. -/
theorem interpolate_ne_undefined_iff (brace : '\x7d' ∉ name) :
    (∀ (top : Scope ι) t, interpolate (top ++ s) t ≠ .error (.undefinedVariable name)) ↔
      (s.rawValue? name).isSome := by
  constructor
  · intro h
    cases known : s.rawValue? name with
    | some v => rfl
    | none =>
      refine absurd ?_ (h [] (reference name))
      rw [List.nil_append, interpolate_reference brace]
      exact text_eq_undefined_iff.mpr known
  · intro known top t undefined
    have unknown := interpolate_undefined undefined
    rw [rawValue?, List.findSome?_append, Option.or_eq_none_iff] at unknown
    rw [rawValue?, unknown.2] at known
    cases known

end Scopes

end Scope

end StyleTypings.Less
