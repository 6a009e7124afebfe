/-
Cutting — how the reader of pieces comes through a piece, and through what it collapses to.

Where a text is cut depends on the mode of the reader and on the parentheses that are open,
and on nothing else (`after`).  A run of blanks changes the mode as one space does: it ends
what an `@` has begun, and leaves any other mode as it is.  So a text that is not cut is not
cut either when it is collapsed, and what follows it is read alike (`runs_collapse`).  That
is so unless a blank is escaped, since then the blank that is left at the end of a text, or
is not left, makes a difference.
-/
import StyleTypings.Less.Node
import StyleTypings.Proofs.Collapsing

namespace StyleTypings.Less.Reading

/-! ## Modes -/

/-- Whether the next character is escaped. -/
def Mode.isEscape : Mode → Bool
  | .escaped | .stringEscaped _ => true
  | _ => false

/-- The mode after a blank, if the blank is not escaped. -/
def Mode.settled : Mode → Mode
  | .sign => .plain
  | m => m

/-- Strings are in quotes. -/
def Mode.IsProper : Mode → Prop
  | .string quote | .stringEscaped quote => Text.isQuote quote = true
  | _ => True

@[simp] theorem Mode.settled_settled (m : Mode) : m.settled.settled = m.settled := by
  cases m <;> rfl

@[simp] theorem Mode.isEscape_settled (m : Mode) : m.settled.isEscape = m.isEscape := by
  cases m <;> rfl

/-- A mode that settles outside of everything is outside already, or right after an `@`. -/
theorem Mode.cases_of_settled {m : Mode} (h : m.settled = .plain) : m = .plain ∨ m = .sign := by
  cases m with
  | plain => exact .inl rfl
  | sign => exact .inr rfl
  | _ => cases h

/-! ## One character -/

/-- A mode and the number of open parentheses. -/
abbrev State := Mode × Nat

/-- Whether a character outside parentheses ends a piece. -/
def isCut (c : Char) : Bool := c == '\x7b' || c == '\x7d' || c == ';'

theorem isCut_iff {c : Char} : isCut c = true ↔ c = '\x7b' ∨ c = '\x7d' ∨ c = ';' := by
  simp only [isCut, Bool.or_eq_true, beq_iff_eq, or_assoc]

/-- The state after a character outside strings and interpolations, if it does not cut. -/
def afterPlain (parens : Nat) (c : Char) : Option State :=
  if Text.isQuote c then some (.string c, parens)
  else if c = '\\' then some (.escaped, parens)
  else if c = '@' then some (.sign, parens)
  else if c = '(' then some (.plain, parens + 1)
  else if c = ')' then some (.plain, parens - 1)
  else if parens = 0 && isCut c then none
  else some (.plain, parens)

/-- The state after a character, if it does not cut and is no escaped blank. -/
def after : State → Char → Option State
  | (.plain, parens), c => afterPlain parens c
  | (.sign, parens), c => if c = '\x7b' then some (.interpolation, parens) else afterPlain parens c
  | (.escaped, parens), c => if isBlank c then none else some (.plain, parens)
  | (.string quote, parens), c =>
    if c = '\\' then some (.stringEscaped quote, parens)
    else if c = quote then some (.plain, parens)
    else some (.string quote, parens)
  | (.stringEscaped quote, parens), c => if isBlank c then none else some (.string quote, parens)
  | (.interpolation, parens), c =>
    some (if c = '\x7d' then .plain else .interpolation, parens)

theorem ne_of_isQuote {c quote : Char} (hc : isBlank c = true) (h : Text.isQuote quote = true) :
    c ≠ quote := by
  refine ne_of_isBlank hc ?_
  rw [Text.isQuote, Bool.or_eq_true, beq_iff_eq, beq_iff_eq] at h
  rcases h with rfl | rfl <;> decide

/-- The characters that open, close or cut something. -/
def marks : Text := ['"', '\'', '\\', '@', '(', ')', '\x7b', '\x7d', ';']

theorem afterPlain_of_not_mem_marks {c : Char} (h : c ∉ marks) (parens : Nat) :
    afterPlain parens c = some (.plain, parens) := by
  simp only [marks, List.mem_cons, List.not_mem_nil, or_false, not_or] at h
  simp [afterPlain, isCut, Text.isQuote, h]

theorem afterPlain_blank {c : Char} (hc : isBlank c = true) (parens : Nat) :
    afterPlain parens c = some (.plain, parens) := by
  refine afterPlain_of_not_mem_marks ?_ parens
  intro mark
  exact ne_of_isBlank hc (Text.forall_eq_false (p := isBlank) (t := marks) (by decide) c mark) rfl

/-- A blank that is not escaped settles the mode. -/
theorem after_blank {s : State} {c : Char} (proper : s.1.IsProper) (escape : s.1.isEscape = false)
    (hc : isBlank c = true) : after s c = some (s.1.settled, s.2) := by
  obtain ⟨m, parens⟩ := s
  cases m with
  | plain => exact afterPlain_blank hc parens
  | sign =>
    rw [after, if_neg (ne_of_isBlank hc (by decide))]
    exact afterPlain_blank hc parens
  | escaped => cases escape
  | string quote =>
    rw [after, if_neg (ne_of_isBlank hc (by decide)), if_neg (ne_of_isQuote hc proper)]
    rfl
  | stringEscaped quote => cases escape
  | interpolation =>
    rw [after, if_neg (ne_of_isBlank hc (by decide))]
    rfl

/-- A blank that can be read is not escaped. -/
theorem isEscape_eq_false {s s' : State} {c : Char} (hc : isBlank c = true)
    (h : after s c = some s') : s.1.isEscape = false := by
  obtain ⟨m, parens⟩ := s
  cases m with
  | escaped =>
    rw [after, if_pos hc] at h
    cases h
  | stringEscaped quote =>
    rw [after, if_pos hc] at h
    cases h
  | _ => rfl

theorem mode_afterPlain {parens : Nat} {c : Char} {s : State} (h : afterPlain parens c = some s) :
    s.1.IsProper ∧ (s.1.isEscape = true → c = '\\') := by
  unfold afterPlain at h
  split at h
  · rename_i quote
    cases h
    exact ⟨quote, nofun⟩
  · split at h
    · rename_i backslash
      cases h
      exact ⟨trivial, fun _ => backslash⟩
    · repeat' split at h
      all_goals cases h
      all_goals exact ⟨trivial, nofun⟩

/-- Strings that begin are in quotes, and only a backslash escapes. -/
theorem mode_after {s s' : State} {c : Char} (h : after s c = some s') :
    (s.1.IsProper → s'.1.IsProper) ∧ (s'.1.isEscape = true → c = '\\') := by
  obtain ⟨m, parens⟩ := s
  cases m with
  | plain =>
    obtain ⟨proper, escape⟩ := mode_afterPlain h
    exact ⟨fun _ => proper, escape⟩
  | sign =>
    rw [after] at h
    split at h
    · cases h
      exact ⟨id, nofun⟩
    · obtain ⟨proper, escape⟩ := mode_afterPlain h
      exact ⟨fun _ => proper, escape⟩
  | escaped =>
    rw [after] at h
    split at h <;> cases h
    exact ⟨id, nofun⟩
  | string quote =>
    rw [after] at h
    split at h
    · rename_i backslash
      cases h
      exact ⟨id, fun _ => backslash⟩
    · split at h <;> cases h
      · exact ⟨fun _ => trivial, nofun⟩
      · exact ⟨id, nofun⟩
  | stringEscaped quote =>
    rw [after] at h
    split at h <;> cases h
    exact ⟨id, nofun⟩
  | interpolation =>
    cases h
    dsimp only
    split <;> exact ⟨fun _ => trivial, nofun⟩

theorem afterPlain_eq_none_iff {parens : Nat} {c : Char} :
    afterPlain parens c = none ↔ parens = 0 ∧ isCut c = true := by
  unfold afterPlain
  by_cases hcut : isCut c = true
  · rcases isCut_iff.mp hcut with rfl | rfl | rfl <;> simp [Text.isQuote, hcut]
  · simp only [hcut, Bool.and_false, Bool.false_eq_true, if_false, and_false, iff_false]
    repeat' split
    all_goals exact Option.some_ne_none _

/-- What cuts stands outside of everything, and is a semicolon or a brace. -/
theorem outside_of_after_eq_none {s : State} {c : Char} (h : after s c = none)
    (solid : s.1.isEscape = true → isBlank c = false) :
    s.1.settled = .plain ∧ s.2 = 0 ∧ isCut c = true := by
  obtain ⟨m, parens⟩ := s
  cases m with
  | plain => exact ⟨rfl, afterPlain_eq_none_iff.mp h⟩
  | sign =>
    rw [after] at h
    split at h
    · cases h
    · exact ⟨rfl, afterPlain_eq_none_iff.mp h⟩
  | escaped =>
    rw [after, if_neg (by rw [solid rfl]; exact Bool.false_ne_true)] at h
    cases h
  | string quote =>
    rw [after] at h
    split at h
    · cases h
    · split at h <;> cases h
  | stringEscaped quote =>
    rw [after, if_neg (by rw [solid rfl]; exact Bool.false_ne_true)] at h
    cases h
  | interpolation => cases h

/-! ## Texts -/

/-- The state after a text that begins a piece, if nothing in the text cuts and no blank in
it is escaped. -/
def runs (t : Text) : Option State := t.foldlM after (.plain, 0)

theorem runs_append (t : Text) (c : Char) : runs (t ++ [c]) = (runs t).bind (after · c) := by
  rw [runs, List.foldlM_append, runs]
  refine bind_congr ?_
  intro s
  rw [List.foldlM_cons]
  exact bind_pure _

theorem runs_proper {t : Text} {s : State} (h : runs t = some s) : s.1.IsProper := by
  induction t using List.reverseRecOn generalizing s with
  | nil =>
    cases h
    trivial
  | append_singleton t c ih =>
    rw [runs_append] at h
    obtain ⟨s', hs', hc⟩ := Option.bind_eq_some_iff.mp h
    exact (mode_after hc).1 (ih hs')

/-- A collapsed text comes to a state when the text itself comes to another.  The states are
the same, but for the blanks behind the text: these settle the mode, and they are gone. -/
structure Collapses (t : Text) (s s' : State) : Prop where
  runs : runs (Text.collapse t) = some s'
  word : Text.endsInWord t = true → s = s'
  blank : Text.endsInWord t = false → s'.1.isEscape = false ∧ s = (s'.1.settled, s'.2)

section

variable {t : Text} {s s' next : State} {c : Char}

theorem Collapses.append_blank (h : Collapses t s s') (proper : s.1.IsProper)
    (hc : isBlank c = true) (hnext : after s c = some next) : Collapses (t ++ [c]) next s' := by
  have escape := isEscape_eq_false hc hnext
  rw [after_blank proper escape hc] at hnext
  cases hnext
  refine ⟨by rw [Text.collapse_append_blank hc, h.runs], ?_, ?_⟩
  · rw [Text.endsInWord_append, hc]
    exact nofun
  · intro _
    cases word : Text.endsInWord t with
    | true =>
      rw [h.word word] at escape ⊢
      exact ⟨escape, rfl⟩
    | false =>
      obtain ⟨escape', rfl⟩ := h.blank word
      exact ⟨escape', by rw [Mode.settled_settled]⟩

theorem Collapses.append_other (h : Collapses t s s') (hc : isBlank c = false)
    (hnext : after s c = some next) : Collapses (t ++ [c]) next next := by
  have hruns := h.runs
  refine ⟨?_, fun _ => rfl, ?_⟩
  · cases word : Text.endsInWord t with
    | true =>
      rw [Text.collapse_append_word word hc, runs_append, hruns, ← h.word word]
      exact hnext
    | false =>
      obtain ⟨escape, rfl⟩ := h.blank word
      rw [Text.collapse_append_new word hc]
      split
      · -- Nothing but blanks has come before, and they have changed nothing.
        rename_i none
        rw [none] at hruns
        cases hruns
        rw [← List.nil_append [c], runs_append]
        exact hnext
      · rw [runs_append, runs_append, hruns, Option.bind_some,
          after_blank (runs_proper hruns) escape (by decide)]
        exact hnext
  · rw [Text.endsInWord_append, hc]
    exact nofun

end

theorem runs_collapse {t : Text} {s : State} (h : runs t = some s) : ∃ s', Collapses t s s' := by
  induction t using List.reverseRecOn generalizing s with
  | nil =>
    cases h
    exact ⟨(.plain, 0), rfl, nofun, fun _ => ⟨rfl, rfl⟩⟩
  | append_singleton t c ih =>
    rw [runs_append] at h
    obtain ⟨before, hbefore, hc⟩ := Option.bind_eq_some_iff.mp h
    obtain ⟨s', collapses⟩ := ih hbefore
    cases blank : isBlank c with
    | true => exact ⟨s', collapses.append_blank (runs_proper hbefore) blank hc⟩
    | false => exact ⟨s, collapses.append_other blank hc⟩

/-! ## Steps of the reader -/

namespace Progress

/-- What decides where the text is cut. -/
def state (p : Progress) : State := (p.mode, p.parens)

/-- The pieces with those that a cutting character ends. -/
def cut (p : Progress) (c : Char) : List Piece :=
  if c = '\x7b' then .opening p.start (Text.collapse p.current.reverse) :: p.pieces
  else if c = '\x7d' then .closing p.line :: p.flushed
  else p.flushed

/-- A step to the state after a character, or over a character that cuts. -/
def moved (p : Progress) (c : Char) : Option State → Progress
  | some s => { p with mode := s.1, parens := s.2, current := c :: p.current }
  | none => { p with mode := .plain, current := [], pieces := p.cut c }

theorem plainStep_eq (p : Progress) (c : Char) :
    p.plainStep c = p.moved c (afterPlain p.parens c) := by
  unfold plainStep afterPlain
  simp only [apply_ite (p.moved c)]
  -- All but the characters that cut are told apart in the same order.
  iterate 5 refine if_congr Iff.rfl rfl ?_
  by_cases parens : p.parens = 0
  · rw [if_neg (not_not.mpr parens), decide_eq_true parens, Bool.true_and]
    by_cases hcut : isCut c = true
    · rw [if_pos hcut]
      rcases isCut_iff.mp hcut with rfl | rfl | rfl <;> rfl
    · rw [if_neg hcut]
      obtain ⟨noOpening, others⟩ := not_or.mp (mt isCut_iff.mpr hcut)
      obtain ⟨noClosing, noSemicolon⟩ := not_or.mp others
      rw [if_neg noOpening, if_neg noClosing, if_neg noSemicolon]
      rfl
  · rw [if_pos parens, decide_eq_false parens, Bool.false_and]
    rfl

/-- A step moves to the state after the character, or it cuts, unless the character is an
escaped blank. -/
theorem step_eq {p : Progress} {c : Char} (solid : p.mode.isEscape = true → isBlank c = false) :
    p.step c = (p.located c).moved c (after p.state c) := by
  obtain ⟨mode, line, start, parens, current, pieces⟩ := p
  cases mode with
  | plain => exact plainStep_eq _ c
  | sign =>
    rw [state, after, apply_ite (moved _ c)]
    exact if_congr Iff.rfl rfl (plainStep_eq _ c)
  | escaped =>
    rw [state, after, if_neg (by rw [solid rfl]; exact Bool.false_ne_true)]
    rfl
  | string quote =>
    rw [state, after, apply_ite (moved _ c), apply_ite (moved _ c)]
    rfl
  | stringEscaped quote =>
    rw [state, after, if_neg (by rw [solid rfl]; exact Bool.false_ne_true)]
    rfl
  | interpolation => rfl

/-- A step goes on with the current piece, or it cuts. -/
theorem step_cases (p : Progress) (c : Char) :
    (∃ s, p.step c = (p.located c).moved c (some s)) ∨
      p.parens = 0 ∧ isCut c = true ∧ p.step c = (p.located c).moved c none := by
  by_cases solid : p.mode.isEscape = true → isBlank c = false
  · rw [step_eq solid]
    cases h : after p.state c with
    | some s => exact .inl ⟨s, rfl⟩
    | none =>
      obtain ⟨-, parens, hcut⟩ := outside_of_after_eq_none h solid
      exact .inr ⟨parens, hcut, rfl⟩
  · -- An escaped blank is passed over like any other character that is escaped.
    obtain ⟨mode, line, start, parens, current, pieces⟩ := p
    cases mode with
    | escaped => exact .inl ⟨(.plain, parens), rfl⟩
    | stringEscaped quote => exact .inl ⟨(.string quote, parens), rfl⟩
    | plain | sign | string | interpolation => exact absurd nofun solid

theorem step_of_after {p : Progress} {c : Char} {s : State} (h : after p.state c = some s) :
    p.step c = (p.located c).moved c (some s) := by
  rw [← h]
  refine step_eq ?_
  intro escape
  rw [← Bool.not_eq_true]
  intro blank
  rw [state] at h
  exact Bool.false_ne_true ((isEscape_eq_false blank h).symm.trans escape)

end Progress

end StyleTypings.Less.Reading
