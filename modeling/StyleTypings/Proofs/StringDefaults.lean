/-
String defaults — mixins with a string as the default of a parameter.

The text `.m(@a: "...") {` passes three scans before the block is a mixin.  The reader of
pieces and the one that cuts the list of parameters leave a string alone.  The search for the
parenthesis that closes the list has no regard to strings, and ends at the first parenthesis
that closes more than have been opened (`closeParens_eq_some_iff`).  This is the last one of
the prelude exactly when the parentheses in the string match.  Then the block is a mixin with
one parameter whose default is the string (`Defaulting`).  If they do not match, the list ends
inside the string or nowhere, and there is no mixin at all, or one with a guard that the string
makes up (`defaulting_iff`).
-/
import StyleTypings.Proofs.Attributes
import StyleTypings.Proofs.ClassLike
import StyleTypings.Proofs.Inlining
import StyleTypings.Proofs.Selection
import StyleTypings.Proofs.Separators

namespace StyleTypings.Less

/-! ## Matching parentheses -/

/-- The parentheses in a text match, but for so many that close others in front of it. -/
inductive Nested : Nat → Text → Prop where
  | nil : Nested 0 []
  | opening {n : Nat} {t : Text} (rest : Nested (n + 1) t) : Nested n ('(' :: t)
  | closing {n : Nat} {t : Text} (rest : Nested n t) : Nested (n + 1) (')' :: t)
  | other {n : Nat} {c : Char} {t : Text} (ne : c ≠ '(' ∧ c ≠ ')') (rest : Nested n t) :
    Nested n (c :: t)

def isParen (c : Char) : Bool := c == '(' || c == ')'

theorem isParen_eq_false_iff {c : Char} : isParen c = false ↔ c ≠ '(' ∧ c ≠ ')' := by
  simp [isParen]

theorem nested_cons_iff {n : Nat} {c : Char} {t : Text} (ne : c ≠ '(' ∧ c ≠ ')') :
    Nested n (c :: t) ↔ Nested n t := by
  refine ⟨fun h => ?_, .other ne⟩
  cases h with
  | opening => exact absurd rfl ne.1
  | closing => exact absurd rfl ne.2
  | other _ rest => exact rest

/-- A list of parameters ends where one more parenthesis is closed than opened. -/
theorem closeParens_eq_some_iff {n : Nat} {t inside after : Text} :
    closeParens n t = some (inside, after) ↔ Nested n inside ∧ t = inside ++ ')' :: after := by
  constructor
  · intro h
    fun_induction closeParens n t generalizing inside with
    | case1 => cases h
    | case2 rest =>
      cases h
      exact ⟨.nil, rfl⟩
    | case3 n rest ih =>
      obtain ⟨⟨inside', _⟩, hclose, heq⟩ := Option.map_eq_some_iff.mp h
      cases heq
      obtain ⟨nested, rfl⟩ := ih hclose
      exact ⟨.closing nested, rfl⟩
    | case4 n rest ih =>
      obtain ⟨⟨inside', _⟩, hclose, heq⟩ := Option.map_eq_some_iff.mp h
      cases heq
      obtain ⟨nested, rfl⟩ := ih hclose
      exact ⟨.opening nested, rfl⟩
    | case5 n c rest noEnd noClosing noOpening ih =>
      obtain ⟨⟨inside', _⟩, hclose, heq⟩ := Option.map_eq_some_iff.mp h
      cases heq
      obtain ⟨nested, rfl⟩ := ih hclose
      refine ⟨.other ⟨noOpening, ?_⟩ nested, rfl⟩
      rintro rfl
      cases n with
      | zero => exact noEnd rfl rfl
      | succ n => exact noClosing n rfl rfl
  · rintro ⟨nested, rfl⟩
    induction nested with
    | nil => rfl
    | opening rest ih =>
      rw [List.cons_append, closeParens, ih]
      rfl
    | closing rest ih =>
      rw [List.cons_append, closeParens, ih]
      rfl
    | other ne rest ih =>
      rw [List.cons_append, closeParens, ih]
      · rfl
      · exact ne.1
      · exact fun _ => ne.2
      · exact fun _ _ => ne.2

/-- Nothing but the parentheses decides whether they match. -/
theorem nested_filter_iff {n : Nat} {t : Text} : Nested n (t.filter isParen) ↔ Nested n t := by
  induction t generalizing n with
  | nil => exact .rfl
  | cons c t ih =>
    cases paren : isParen c with
    | false =>
      rw [List.filter_cons_of_neg (by simp [paren]), ih,
        nested_cons_iff (isParen_eq_false_iff.mp paren)]
    | true =>
      rw [List.filter_cons_of_pos paren]
      constructor
      · intro h
        cases h with
        | opening rest => exact .opening (ih.mp rest)
        | closing rest => exact .closing (ih.mp rest)
        | other ne rest => exact .other ne (ih.mp rest)
      · intro h
        cases h with
        | opening rest => exact .opening (ih.mpr rest)
        | closing rest => exact .closing (ih.mpr rest)
        | other ne rest => exact .other ne (ih.mpr rest)

theorem nested_collapse_iff {n : Nat} {t : Text} : Nested n (Text.collapse t) ↔ Nested n t := by
  have blanks (b : Char) (hb : isBlank b = true) : isParen b = false :=
    isParen_eq_false_iff.mpr ⟨ne_of_isBlank hb (by decide), ne_of_isBlank hb (by decide)⟩
  rw [← nested_filter_iff, Text.filter_collapse blanks, nested_filter_iff]

theorem nested_inQuotes_iff {n : Nat} {t : Text} : Nested n (inQuotes '"' t) ↔ Nested n t := by
  have quotes : (inQuotes '"' t).filter isParen = t.filter isParen := by
    simp [inQuotes, isParen]
  rw [← nested_filter_iff, quotes, nested_filter_iff]

/-! ## Strings -/

/-- A string collapses to a string. -/
theorem exists_collapse_inQuotes {q : Text} (quote : '"' ∉ q) (unescaped : '\\' ∉ q) :
    ∃ u, Text.collapse (inQuotes '"' q) = inQuotes '"' u ∧ '"' ∉ u ∧ '\\' ∉ u := by
  have kept {c : Char} (hc : isBlank c = false) (h : c ∉ q) : c ∉ Text.collapseAfter q := by
    rw [Text.collapseAfter]
    split
    · rw [List.mem_cons, not_or, Text.mem_collapse_iff hc]
      refine ⟨?_, h⟩
      rintro rfl
      exact absurd hc (by decide)
    · rwa [Text.mem_collapse_iff hc]
  have start : Text.collapse ('"' :: q) = '"' :: Text.collapseAfter q := Text.collapse_cons rfl q
  have whole : inQuotes '"' q = '"' :: q ++ ['"'] := rfl
  rw [whole]
  cases word : Text.endsInWord ('"' :: q) with
  | true =>
    refine ⟨Text.collapseAfter q, ?_, kept rfl quote, kept rfl unescaped⟩
    rw [Text.collapse_append_word word rfl, start]
    rfl
  | false =>
    refine ⟨Text.collapseAfter q ++ [' '], ?_, ?_, ?_⟩
    · rw [Text.collapse_append_new word rfl, start, if_neg (List.cons_ne_nil _ _)]
      rfl
    · simpa using kept rfl quote
    · simpa using kept rfl unescaped

/-- Nothing is cut in a string. -/
theorem uncut_string {separator : Char} (other : separator ≠ '"') {u : Text} (quote : '"' ∉ u)
    (unescaped : '\\' ∉ u) (depth : Nat) : Uncut separator ⟨false, some '"', depth⟩ (u ++ ['"']) := by
  induction u with
  | nil => exact Uncut.cons_iff.mpr ⟨fun h => other h.2.symm, .nil⟩
  | cons c u ih =>
    rw [List.mem_cons, not_or] at quote unescaped
    refine Uncut.cons_iff.mpr ⟨?_, ?_⟩
    · rintro ⟨opened, -⟩
      cases opened
    · rw [Openness.after_in_string (Ne.symm quote.1) (Ne.symm unescaped.1)]
      exact ih quote.2 unescaped.2

/-! ## The prelude -/

/-- The parameter `@a` with a default. -/
def parameterWith (default : Text) : Text := "@a: " ++ default

/-- The prelude of a mixin with this one parameter. -/
def withDefault (name default : Text) : Text := name ++ '(' :: (parameterWith default ++ [')'])

/-- How a mixin is declared with this one parameter. -/
def Signature.defaulting (name default : Text) : Signature :=
  ⟨name, [.variable "a" (some default)], false, true, none⟩

theorem collapse_withDefault {name : Text} (h : ClassLike name) (q : Text) :
    Text.collapse (withDefault name (inQuotes '"' q)) =
      withDefault name (Text.collapse (inQuotes '"' q)) := by
  have parts (default : Text) :
      withDefault name default = name ++ "(@a:" ++ ' ' :: (default ++ [')']) := by
    rw [List.append_assoc]
    rfl
  have solid : ∀ c ∈ name ++ "(@a:", isBlank c = false := by
    intro c hc
    rcases List.mem_append.mp hc with hc | hc
    · exact h.solid c hc
    · exact Text.forall_eq_false (by decide) c hc
  have ends : Text.endsInWord (inQuotes '"' q) = true := Text.endsInWord_append ('"' :: q) '"'
  rw [parts, parts, Text.collapse_append_left solid (by simp), Text.collapseAfter_cons_blank rfl,
    Text.collapse_append_word ends rfl, if_neg (by simp)]

theorem parameterWith_inQuotes (u : Text) :
    parameterWith (inQuotes '"' u) = "@a: \"" ++ u ++ ['"'] := by
  rw [List.append_assoc]
  rfl

theorem splitArguments_parameterWith {u : Text} (quote : '"' ∉ u) (unescaped : '\\' ∉ u) :
    splitArguments (parameterWith (inQuotes '"' u)) = [parameterWith (inQuotes '"' u)] := by
  have one {separator : Char} (other : separator ∉ ("@a: \"" : Text)) :
      splitTop separator (parameterWith (inQuotes '"' u)) = [parameterWith (inQuotes '"' u)] := by
    refine splitFrom_of_uncut ?_
    have string : Uncut separator ⟨false, some '"', 0⟩ (u ++ ['"']) :=
      uncut_string (by rintro rfl; exact other (by decide)) quote unescaped 0
    have start : ∀ c ∈ ("@a: \"" : Text), ¬ (Openness.none = .none ∧ c = separator) := by
      rintro c hc ⟨-, rfl⟩
      exact other hc
    exact Uncut.cons_iff.mpr ⟨start '@' (by decide), Uncut.cons_iff.mpr ⟨start 'a' (by decide),
      Uncut.cons_iff.mpr ⟨start ':' (by decide), Uncut.cons_iff.mpr ⟨start ' ' (by decide),
        Uncut.cons_iff.mpr ⟨start '"' (by decide), string⟩⟩⟩⟩⟩
  have trimmed : Text.trim (parameterWith (inQuotes '"' u)) = parameterWith (inQuotes '"' u) := by
    show Text.trimRight (parameterWith (inQuotes '"' u)) = _
    rw [parameterWith_inQuotes, trimRight_append rfl]
  rw [splitArguments, one (by decide), one (by decide)]
  simp only [List.length_singleton, Nat.lt_irrefl, if_false, List.map_singleton, trimmed]
  rfl

/-- A guard that is read as none leaves nothing unread. -/
theorem readGuard_eq_none {rest : Text} (h : Signature.readGuard rest = some none) : rest = [] := by
  unfold Signature.readGuard at h
  split at h
  · split at h <;> cases h
  · split at h
    · rename_i empty
      exact List.isEmpty_iff.mp empty
    · cases h

theorem isRest_parameterWith (u : Text) :
    Signature.isRest (parameterWith (inQuotes '"' u)) = false := by
  rw [← Bool.not_eq_true, Signature.isRest, Text.endsIn, List.isSuffixOf_iff_suffix]
  rintro ⟨before, heq⟩
  have dots : ("..." : Text) = ['.', '.'] ++ ['.'] := rfl
  rw [parameterWith_inQuotes, dots, ← List.append_assoc] at heq
  exact absurd (List.append_inj' heq rfl).2 (by decide)

theorem parameterOf_parameterWith {u : Text} :
    Signature.parameterOf (parameterWith (inQuotes '"' u)) =
      .variable "a" (some (inQuotes '"' u)) := by
  have assigned : assignment? (parameterWith (inQuotes '"' u)) = some (['a'], inQuotes '"' u) := by
    refine assignment?_eq_some_iff.mpr ⟨':' :: ' ' :: inQuotes '"' u, ' ' :: inQuotes '"' u, rfl,
      by decide, List.forall_mem_singleton.mpr (by decide +kernel), rfl, ?_⟩
    show _ = Text.trimRight ('"' :: u ++ ['"'])
    rw [trimRight_append rfl]
    rfl
  rw [Signature.parameterOf, assigned]
  rfl

/-- What the prelude declares when the parentheses in the string match; otherwise there is a
guard in what it declares, if anything. -/
theorem readParametric_default {u : Text} (quote : '"' ∉ u) (unescaped : '\\' ∉ u) (name : Text) :
    (Nested 0 u → Signature.readParametric name (parameterWith (inQuotes '"' u) ++ [')']) =
      some (.defaulting name (inQuotes '"' u))) ∧
    ∀ signature, Signature.readParametric name (parameterWith (inQuotes '"' u) ++ [')']) =
      some signature → signature.guard = none → Nested 0 u := by
  have nested : Nested 0 (parameterWith (inQuotes '"' u)) ↔ Nested 0 u := by
    have start : (parameterWith (inQuotes '"' u)).filter isParen = (inQuotes '"' u).filter isParen :=
      rfl
    rw [← nested_filter_iff, start, nested_filter_iff, nested_inQuotes_iff]
  constructor
  · intro matching
    have closes : closeParens 0 (parameterWith (inQuotes '"' u) ++ [')']) =
        some (parameterWith (inQuotes '"' u), []) :=
      closeParens_eq_some_iff.mpr ⟨nested.mpr matching, rfl⟩
    have fixed : ([parameterWith (inQuotes '"' u)].filter (! Signature.isRest ·)) =
        [parameterWith (inQuotes '"' u)] := by simp [isRest_parameterWith]
    rw [Signature.readParametric, closes]
    simp only [bind, Option.bind, splitArguments_parameterWith quote unescaped, fixed,
      List.any_cons, isRest_parameterWith, List.map_singleton, parameterOf_parameterWith]
    rfl
  · intro signature h unguarded
    rw [Signature.readParametric] at h
    obtain ⟨⟨inside, after⟩, closes, h⟩ := Option.bind_eq_some_iff.mp h
    obtain ⟨guard, hguard, h⟩ := Option.bind_eq_some_iff.mp h
    cases h
    obtain rfl : guard = none := unguarded
    obtain ⟨matching, heq⟩ := closeParens_eq_some_iff.mp closes
    have blank : after.dropWhile isBlank = [] := readGuard_eq_none hguard
    obtain rfl : after = [] := by
      rcases after.eq_nil_or_concat with rfl | ⟨before, c, rfl⟩
      · rfl
      · rw [List.concat_eq_append] at heq blank
        rw [← List.cons_append, ← List.append_assoc] at heq
        obtain rfl : ')' = c := List.singleton_injective (List.append_inj' heq rfl).2
        have last := List.dropWhile_eq_nil_iff.mp blank ')' (by simp)
        cases last
    have same : parameterWith (inQuotes '"' u) = inside := (List.append_inj' heq rfl).1
    exact nested.mp (same ▸ matching)

theorem read?_withDefault {name : Text} (h : ClassLike name) (default : Text) :
    Signature.read? (withDefault name default) =
      Signature.readParametric name (parameterWith default ++ [')']) := by
  have stop : ∀ c ∈ ('(' :: (parameterWith default ++ [')'])).head?, isNameChar c = false := by
    rintro c ⟨⟩
    decide +kernel
  rw [Signature.read?, withDefault, h.takeMixinName?_append stop]
  rfl

/-! ## The block -/

/-- A block with a prelude is a mixin with the parameter `@a` that has a default.  It gives no
output and changes nothing where it stands, and the name stands for it there.  A call of the
name without arguments expands it, next to other definitions and by itself, with the default
as the value of `@a`. -/
structure Defaulting (ι : Type) [DecidableEq ι] (name default prelude : Text) : Prop where
  signature : Signature.read? prelude = some (.defaulting name default)
  silent (body : BodyEval ι) (s : Scope ι) (context : List Text) (output : Bool) (tag : ι)
    (nodes : List (Node ι)) (p : Progress ι) :
    (evalNode body s context output (.block tag prelude nodes)).runFrom p = (.ok false, p)
  found (s : Scope ι) {tag : ι} {nodes around : List (Node ι)}
    (stands : .block tag prelude nodes ∈ around) :
    ⟨tag, prelude, nodes⟩ ∈ (s.enter around).find [name]
  among {s : Scope ι} {tag : ι} {nodes : List (Node ι)}
    (found : ⟨tag, prelude, nodes⟩ ∈ s.find [name]) {text : Text} (call : CallsPlainly name text)
    {expanding : List ι} {t : Task ι} (h : s.statementTask expanding text = .ok t) :
    ∃ c cs, t = .expansions c ⟨[], []⟩ cs ∧
      ⟨⟨tag, prelude, nodes⟩, .defaulting name default⟩ ∈ cs
  alone {s : Scope ι} {tag : ι} {nodes : List (Node ι)}
    (found : s.find [name] = [⟨tag, prelude, nodes⟩]) {text : Text} (call : CallsPlainly name text)
    (expanding : List ι) :
    ∃ c, s.statementTask expanding text =
      .ok (.expansions c ⟨[], []⟩ [⟨⟨tag, prelude, nodes⟩, .defaulting name default⟩])
  bound (s : Scope ι) (d : Definition ι) :
    Candidate.scope ⟨d, .defaulting name default⟩ s ⟨[], []⟩ =
      (s.enter d.body).withValues [("a", default)]

/-- The name with a pair of parentheses is a call without arguments. -/
theorem ClassLike.callsPlainly {name : Text} (h : ClassLike name) :
    CallsPlainly name (name ++ ['(', ')']) := by
  have stop : ∀ c ∈ (['(', ')'] : Text).head?, isNameChar c = false := by
    rintro c ⟨⟩
    decide +kernel
  have path : Call.readPath (name ++ ['(', ')']).length (name ++ ['(', ')']) =
      ([name], ['(', ')']) := by
    rw [List.length_append]
    show Call.readPath (name.length + 1 + 1) _ = _
    rw [Call.readPath, h.takeMixinName?_append stop]
    rfl
  have call : Call.read? (name ++ ['(', ')']) =
      some ⟨name ++ ['(', ')'], [name], some []⟩ := by
    rw [Call.read?, path]
    rfl
  refine ⟨⟨name ++ ['(', ')'], [name], some []⟩, ?_, rfl, ?_⟩
  · cases h
    rw [List.cons_append] at call ⊢
    simp only [Statement.ofText, call]
    rfl
  · rintro t ⟨⟩
    rfl

/-- A definition that takes a call without arguments, and has no guard, is among those that the
call expands. -/
theorem mem_expansions_of_callsPlainly {ι : Type} [DecidableEq ι] {s : Scope ι} {m text : Text}
    {d : Definition ι} (h : CallsPlainly m text) (found : d ∈ s.find [m]) {signature : Signature}
    (read : Signature.read? d.prelude = some signature) (parametric : signature.parametric = true)
    (unguarded : signature.guard = none) (takes : signature.accepts ⟨[], []⟩ = true)
    {expanding : List ι} {t : Task ι} (ht : s.statementTask expanding text = .ok t) :
    ∃ call cs, t = .expansions call ⟨[], []⟩ cs ∧ ⟨d, signature⟩ ∈ cs := by
  obtain ⟨c, hc, hpath, harguments⟩ := h
  rw [Scope.statementTask, hc] at ht
  obtain ⟨a, chosen, ha, hchosen, rfl⟩ := callTask_cases ht
  obtain rfl : ⟨[], []⟩ = a :=
    Except.ok.inj ((arguments_of_plainly s harguments).symm.trans ha)
  refine ⟨c, _, rfl, ?_⟩
  obtain ⟨-, rfl⟩ := selected_eq_ok hchosen
  obtain ⟨isDefault, chooses⟩ := chooses_expanded s ⟨[], []⟩ _
  rw [chooses.chosen_eq, List.mem_filter, List.mem_filter, mem_candidates]
  refine ⟨⟨⟨hpath ▸ found, ?_, takes⟩, ?_⟩, ?_⟩
  · rw [Signature.forCall?, read]
  · simp [Candidate.isReentry, parametric]
  · simp [unguarded]

theorem mem_bindingsOf {ι : Type} {n : Node ι} {nodes : List (Node ι)} (h : n ∈ nodes)
    {b : Binding ι} (hb : b ∈ n.bindings) : b ∈ bindingsOf nodes := by
  induction nodes with
  | nil => cases h
  | cons other rest ih =>
    rw [bindingsOf_cons, List.mem_append]
    rcases List.mem_cons.mp h with rfl | h
    · exact .inl hb
    · exact .inr (ih h)

/-- In a body, a name stands for the mixins that the body declares. -/
theorem Scope.mem_mixins_enter {ι : Type} (s : Scope ι) {nodes : List (Node ι)} {name : Text}
    {d : Definition ι} (h : .mixin name d ∈ bindingsOf nodes) :
    d ∈ (s.enter nodes).mixins name := by
  have own : d ∈ Frame.mixins (bindingsOf nodes) name :=
    List.mem_filterMap.mpr ⟨_, h, if_pos rfl⟩
  rwa [Scope.enter, Scope.mixins_cons, if_neg (List.ne_nil_of_mem own)]

/-- What is declared like this is such a mixin. -/
theorem defaulting_of_read (ι : Type) [DecidableEq ι] {name default prelude : Text}
    (h : Signature.read? prelude = some (.defaulting name default)) :
    Defaulting ι name default prelude := by
  have parametric : Signature.isParametric prelude = true := by rw [Signature.isParametric, h]; rfl
  have sign (t : Text) : prelude ≠ '@' :: t := by
    rintro rfl
    cases h
  refine ⟨h, ?_, ?_, ?_, ?_, ?_⟩
  · intro body s context output tag nodes p
    have asks : s.task p.expanding context (.block tag prelude nodes) = .ok (.none false) := by
      rw [Scope.task, Scope.blockTask]
      · rw [parametric, if_pos rfl]
      · exact sign
    rw [evalNode, Eval.runFrom_bind, Eval.runFrom_get]
    simp only [asks]
    rfl
  · intro s tag nodes around stands
    have undetached : detachedName? prelude = none := by
      rw [detachedName?, takeVariable?]
      exact sign
    have bindings : (Node.block tag prelude nodes).bindings =
        [.mixin name ⟨tag, prelude, nodes⟩] := by
      rw [Node.bindings, undetached, Signature.names, h]
      rfl
    refine s.mem_mixins_enter (mem_bindingsOf stands ?_)
    rw [bindings]
    exact List.mem_singleton_self _
  · intro s tag nodes found text call expanding t ht
    exact mem_expansions_of_callsPlainly call found h rfl rfl rfl ht
  · intro s tag nodes found text call expanding
    exact task_of_callsPlainly call found h rfl rfl rfl expanding [] tag
  · intro s d
    rfl

/-! ## Reading -/

theorem not_mem_marks_of_isNameChar {c : Char} (h : isNameChar c = true) : c ∉ Reading.marks := by
  intro hc
  have none : isNameChar c = false :=
    Text.forall_eq_false (p := isNameChar) (t := Reading.marks) (by decide +kernel) c hc
  exact absurd (h.symm.trans none) (by decide)

/-- A name opens and cuts nothing. -/
theorem ClassLike.foldlM_after {name : Text} (h : ClassLike name) (rest : Text) :
    (name ++ rest).foldlM Reading.after (.plain, 0) = rest.foldlM Reading.after (.plain, 0) := by
  obtain @⟨t, -, chars⟩ := h
  show (t ++ rest).foldlM Reading.after (.plain, 0) = _
  induction t with
  | nil => rfl
  | cons c t ih =>
    obtain ⟨hc, later⟩ := List.forall_mem_cons.mp chars
    have stays : Reading.after (.plain, 0) c = some (.plain, 0) :=
      Reading.afterPlain_of_not_mem_marks (not_mem_marks_of_isNameChar hc) 0
    rw [List.cons_append, List.foldlM_cons, stays]
    exact ih later

/-- The reader of pieces leaves the string alone, and hands over the prelude, collapsed. -/
theorem foldl_step_withDefault {name q : Text} (h : ClassLike name) (quote : '"' ∉ q)
    (unescaped : '\\' ∉ q) (feeds : '\n' ∉ q) (ps : List Piece) :
    (withDefault name (inQuotes '"' q) ++ [' ', '\x7b']).foldl Reading.Progress.step
        (Reading.clean ps) =
      Reading.clean (.opening 1 (withDefault name (Text.collapse (inQuotes '"' q))) :: ps) := by
  have runs : Reading.runs (withDefault name (inQuotes '"' q) ++ [' ']) = some (.plain, 0) := by
    have parts : withDefault name (inQuotes '"' q) ++ [' '] =
        name ++ (['(', '@', 'a', ':', ' ', '"'] ++ (q ++ '"' :: [')', ' '])) := by
      have start : ("@a: \"" : Text) = ['@', 'a', ':', ' ', '"'] := rfl
      simp [withDefault, parameterWith_inQuotes, start]
    rw [Reading.runs, parts, h.foldlM_after]
    show (q ++ '"' :: [')', ' ']).foldlM Reading.after (.string '"', 1) = _
    rw [foldlM_string quote unescaped]
    rfl
  have oneLine : '\n' ∉ withDefault name (inQuotes '"' q) := by
    have inName : '\n' ∉ name := fun feed => absurd (h.solid '\n' feed) (by decide)
    have start : '\n' ∉ ("@a: \"" : Text) := by decide
    simp only [withDefault, parameterWith_inQuotes, List.mem_append, List.mem_cons,
      List.not_mem_nil, or_false, not_or]
    exact ⟨inName, by decide, ⟨⟨start, feeds⟩, by decide⟩, by decide⟩
  rw [Reading.foldl_opening runs oneLine, collapse_withDefault h]

/-! ## Matching strings -/

/-- A block whose prelude is a name with the parameter `@a` and a string for its default is read
with this prelude, with the blanks in the string collapsed.  It is such a mixin exactly when the
parentheses in the string match.  Otherwise what it declares, if anything, has a guard. -/
theorem defaulting_iff (ι : Type) [DecidableEq ι] {name q : Text} (h : ClassLike name)
    (quote : '"' ∉ q) (unescaped : '\\' ∉ q) (feeds : '\n' ∉ q) :
    let default := Text.collapse (inQuotes '"' q)
    (∀ ps, (withDefault name (inQuotes '"' q) ++ [' ', '\x7b']).foldl Reading.Progress.step
        (Reading.clean ps) = Reading.clean (.opening 1 (withDefault name default) :: ps)) ∧
      CallsPlainly name (name ++ ['(', ')']) ∧
      (Defaulting ι name default (withDefault name default) ↔ Nested 0 q) ∧
      ∀ signature, Signature.read? (withDefault name default) = some signature →
        (signature.guard = none ↔ Nested 0 q) := by
  intro default
  obtain ⟨u, hu, quote', unescaped'⟩ := exists_collapse_inQuotes quote unescaped
  have hdefault : default = inQuotes '"' u := hu
  have nested : Nested 0 u ↔ Nested 0 q := by
    rw [← nested_inQuotes_iff, ← hu, nested_collapse_iff, nested_inQuotes_iff]
  obtain ⟨declared, guarded⟩ := readParametric_default quote' unescaped' name
  rw [← read?_withDefault h, ← hdefault] at declared
  have unguarded (signature : Signature)
      (read : Signature.read? (withDefault name default) = some signature)
      (none : signature.guard = none) : Nested 0 q := by
    rw [read?_withDefault h, hdefault] at read
    exact nested.mp (guarded signature read none)
  refine ⟨foldl_step_withDefault h quote unescaped feeds, h.callsPlainly, ⟨?_, ?_⟩, ?_⟩
  · exact fun mixin => unguarded _ mixin.signature rfl
  · exact fun matching => defaulting_of_read ι (declared (nested.mpr matching))
  · intro signature read
    refine ⟨unguarded signature read, fun matching => ?_⟩
    rw [declared (nested.mpr matching)] at read
    cases read
    rfl

theorem classLike_m : ClassLike ".m" :=
  .point (t := ['m']) (by decide) (List.forall_mem_singleton.mpr (by decide +kernel))

/-- A string with matching parentheses, a comma and a semicolon is a default. -/
theorem defaulting_matching :
    Defaulting Nat ".m" "\"(x), y; z\"" ".m(@a: \"(x), y; z\")" ∧ Nested 0 "(x),  y; z" := by
  have all := defaulting_iff Nat (q := "(x),  y; z") classLike_m (by decide) (by decide) (by decide)
  have matching : Nested 0 "(x),  y; z" := by
    have plain (t : Text) (h : t.all (! isParen ·) = true) : Nested 0 t := by
      have none : t.filter isParen = [] := by simpa using h
      rw [← nested_filter_iff, none]
      exact .nil
    exact .opening (.other (by decide) (.closing (plain ",  y; z" (by decide))))
  exact ⟨all.2.2.1.mpr matching, matching⟩

/-- A string with a closing parenthesis is no default: the block makes a rule set. -/
theorem not_forall_defaulting :
    ¬ ∀ name q : Text, ClassLike name → (∀ c ∈ q, Text.isQuote c = false) → '\\' ∉ q →
      (∀ c ∈ q, Css.isNewline c = false) →
        Defaulting Nat name (Text.collapse (inQuotes '"' q))
          (withDefault name (Text.collapse (inQuotes '"' q))) := by
  intro h
  have mixin := h ".m" ")" classLike_m (Text.forall_eq_false (by decide)) (by decide)
    (Text.forall_eq_false (by decide))
  have silent := mixin.silent (evalBody 1) [] [] true 0 [.statement 1 "c: d"] ⟨#[], []⟩
  have made : (evalNode (evalBody 1) [] [] true
      (.block 0 (withDefault ".m" (Text.collapse (inQuotes '"' ")"))) [.statement 1 "c: d"])).runFrom
        ⟨#[], []⟩ = (.ok false, ⟨#[some ⟨[".m(@a: \")\")"]⟩], ([] : List Nat)⟩) := rfl
  have places := congrArg (fun r => r.2.places.size) (made.symm.trans silent)
  cases places

end StyleTypings.Less
