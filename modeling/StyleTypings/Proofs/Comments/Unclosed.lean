/-
Unclosed — what is never closed, and the line it is reported at.

The reader fails exactly where, in plain text, a quote or `/*` begins something that has no end
(`Unclosed`), and it reports the line that it has counted up to there (`UnclosedAt.strip_eq`).

Every line feed is counted, save for one: where a backslash outside strings escapes it.  So the
line that is reported is the line of the quote or of `/*` as long as no such backslash ends a line
before it (`strip_error_line_iff`).  In the text

    .a\
    "b

the string begins on the second line and is reported on the first.  A backslash that ends a line
in a string changes nothing, since there the line feed is counted.
-/
import StyleTypings.Proofs.Comments.Runs

namespace StyleTypings.Less.Comment

/-- A text in which a string does not end.  What follows a backslash is passed over. -/
inductive Unended (quote : Char) : Text → Prop where
  | nil : Unended quote []
  | escape {t : Text} (later : Unended quote t.tail) : Unended quote ('\\' :: t)
  | other {c : Char} {t : Text} (backslash : c ≠ '\\') (open' : c ≠ quote)
    (later : Unended quote t) : Unended quote (c :: t)

/-- A text that begins with a string or a block comment, and has no end of it. -/
inductive Unclosed : Text → Fault → Prop where
  | string {quote : Char} {t : Text} (opens : Text.isQuote quote = true)
    (unended : Unended quote t) : Unclosed (quote :: t) .unterminatedString
  | comment {t : Text} (unended : ¬ ['*', '/'] <:+: t) :
    Unclosed ('/' :: '*' :: t) .unterminatedComment

/-- The reader comes into plain text behind the beginning of a text. -/
def Outside (t a : Text) : Prop := ∃ u q, Goes (.start t) a u q ∧ q.mode = .plain

/-! ## Inside -/

/-- What the reader is in the middle of has no end in a text, and has begun at the line of the
flaw. -/
inductive Dangles : Mode → Text → Flaw → Prop where
  | string {quote : Char} {start : Nat} {t : Text} (unended : Unended quote t) :
    Dangles (.string quote start) t ⟨start, .unterminatedString⟩
  | stringEscaped {quote : Char} {start : Nat} {t : Text} (unended : Unended quote t.tail) :
    Dangles (.stringEscaped quote start) t ⟨start, .unterminatedString⟩
  | opening {start : Nat} {t : Text} (unended : ¬ ['*', '/'] <:+: t.tail) :
    Dangles (.opening start) t ⟨start, .unterminatedComment⟩
  | block {start : Nat} {t : Text} (unended : ¬ ['*', '/'] <:+: t) :
    Dangles (.block start) t ⟨start, .unterminatedComment⟩

theorem infix_cons_iff {c : Char} {t : Text} :
    ['*', '/'] <:+: c :: t ↔ (c = '*' ∧ t.head? = some '/') ∨ ['*', '/'] <:+: t := by
  have slash : ['/'] <+: t ↔ t.head? = some '/' := by
    cases t <;> simp [List.cons_prefix_cons, eq_comm]
  rw [List.infix_cons_iff, List.cons_prefix_cons, slash, @eq_comm _ '*']

section

variable {m : Mode} {line : Nat} {before c : Char} {t : Text} {f : Flaw} {fault : Fault}

theorem Dangles.after (h : Dangles m (c :: t) f) : Dangles (m.after line before c t) t f := by
  cases h with
  | string unended =>
    cases unended with
    | escape later => exact .stringEscaped later
    | other backslash open' later =>
      rw [Mode.after, if_neg backslash, if_neg open']
      exact .string later
  | stringEscaped unended => exact .string unended
  | opening unended => exact .block unended
  | block unended =>
    rw [infix_cons_iff, not_or] at unended
    rw [Mode.after, if_neg (by simpa using unended.1)]
    exact .block unended.2

theorem Unclosed.dangles (h : Unclosed (c :: t) fault) :
    Dangles (Mode.afterPlain line before c t) t ⟨line, fault⟩ := by
  cases h with
  | string opens unended =>
    rw [Mode.afterPlain, if_pos opens]
    exact .string unended
  | comment unended => exact .opening unended

/-- What is open behind a character was open before it, or begins with it. -/
theorem dangles_or_unclosed (h : Dangles (m.after line before c t) t f) :
    Dangles m (c :: t) f ∨ m = .plain ∧ line = f.line ∧ Unclosed (c :: t) f.fault := by
  cases m with
  | plain =>
    refine .inr ⟨rfl, ?_⟩
    rw [Mode.after] at h
    generalize Mode.afterPlain line before c t = m, begins_afterPlain line before c t = begins at h
    cases begins with
    | string quote =>
      cases h with
      | string unended => exact ⟨rfl, .string quote unended⟩
    | block slash star =>
      cases h with
      | opening unended =>
        obtain ⟨after, rfl⟩ := List.head?_eq_some_iff.mp star
        subst slash
        exact ⟨rfl, .comment unended⟩
    | escape | line | address | nothing => cases h
  | string quote start =>
    refine .inl ?_
    rw [Mode.after] at h
    split_ifs at h with backslash closes
    · cases h with
      | stringEscaped unended =>
        subst backslash
        exact .string (.escape unended)
    · cases h
    · cases h with
      | string unended => exact .string (.other backslash closes unended)
  | stringEscaped quote start =>
    cases h with
    | string unended => exact .inl (.stringEscaped unended)
  | opening start =>
    cases h with
    | block unended => exact .inl (.opening unended)
  | block start =>
    refine .inl ?_
    rw [Mode.after] at h
    split_ifs at h with closes
    · cases h
    · cases h with
      | block unended =>
        refine .block ?_
        rw [infix_cons_iff, not_or]
        exact ⟨by simpa using closes, unended⟩
  | line =>
    rw [Mode.after] at h
    split_ifs at h <;> cases h
  | address =>
    rw [Mode.after] at h
    split_ifs at h <;> cases h
  | escaped | closing => cases h

/-- What has no end is reported at the line where it has begun. -/
theorem Dangles.stripFrom_eq (h : Dangles m t f) : stripFrom m line before t = .error f := by
  induction t generalizing m line before with
  | nil => cases h <;> rfl
  | cons c t ih =>
    rw [stripFrom, ih h.after]
    rfl

end

/-! ## Places -/

/-- A place in plain text where something begins that has no end. -/
structure UnclosedAt (p : Place) (f : Flaw) : Prop where
  mode : p.mode = .plain
  line : p.line = f.line
  rest : Unclosed p.rest f.fault

/-- There the reader fails. -/
theorem UnclosedAt.strip_eq {p : Place} {f : Flaw} (h : UnclosedAt p f) : p.strip = .error f := by
  obtain ⟨mode, line, before, rest⟩ := p
  obtain ⟨place, fault⟩ := f
  obtain ⟨rfl, rfl, unclosed⟩ := h
  cases rest with
  | nil => cases unclosed
  | cons c t =>
    show stripFrom .plain line before (c :: t) = _
    rw [stripFrom, Mode.after, unclosed.dangles.stripFrom_eq]
    rfl

/-- The reader fails only at such a place, or because of something that was open already. -/
theorem dangles_or_exists_unclosedAt {p : Place} {f : Flaw} (h : p.strip = .error f) :
    Dangles p.mode p.rest f ∨ ∃ a u q, Goes p a u q ∧ UnclosedAt q f := by
  obtain ⟨m, line, before, t⟩ := p
  induction t generalizing m line before with
  | nil =>
    have never : m.atEnd = .error f := h
    have nothing : ¬ ['*', '/'] <:+: ([] : Text) := by decide
    cases m with
    | string => cases never; exact .inl (.string .nil)
    | stringEscaped => cases never; exact .inl (.stringEscaped .nil)
    | opening => cases never; exact .inl (.opening nothing)
    | block => cases never; exact .inl (.block nothing)
    | plain | escaped | closing | line | address => cases never
  | cons c t ih =>
    rw [Place.strip_of_rest rfl] at h
    rcases ih _ _ _ (error_of_map h) with dangles | ⟨a, u, q, later, unclosed⟩
    · rcases dangles_or_unclosed dangles with here | ⟨mode, place, unclosed⟩
      · exact .inl here
      · exact .inr ⟨[], [], _, .stop _, mode, place, unclosed⟩
    · exact .inr ⟨c :: a, _, q, .next rfl later, unclosed⟩

theorem exists_unclosedAt {t : Text} {f : Flaw} (h : strip t = .error f) :
    ∃ a u q, Goes (.start t) a u q ∧ UnclosedAt q f := by
  rcases dangles_or_exists_unclosedAt (p := .start t) h with dangles | found
  · cases dangles
  · exact found

/-! ## Lines -/

section

variable {p q : Place} {c : Char} {rest a u t : Text}

theorem Place.line_after_of_missed (missed : p.mode.counts = false) :
    (p.after c rest).line = p.line := by
  rw [Place.after, missed, Bool.and_false, if_neg Bool.false_ne_true]

theorem Place.line_after_of_counted (counted : c = '\n' → p.mode.counts = true) (a : Text) :
    (p.after c rest).line + a.count '\n' = p.line + (c :: a).count '\n' := by
  rw [Place.after, List.count_cons]
  by_cases feed : c = '\n'
  · simp [feed, counted feed, Nat.add_right_comm, Nat.add_assoc]
  · simp [feed]

theorem Goes.line_le (h : Goes p a u q) : q.line ≤ p.line + a.count '\n' := by
  induction h with
  | stop => exact Nat.le_add_right _ _
  | @next p q c rest a u here _ ih =>
    cases counts : p.mode.counts with
    | false =>
      rw [Place.line_after_of_missed counts] at ih
      exact Nat.le_trans ih (Nat.add_le_add_left (List.count_le_count_cons) _)
    | true => rwa [Place.line_after_of_counted fun _ => counts] at ih

/-- Every line feed is counted if the reader counts each where it stands. -/
theorem Goes.line_eq_iff (h : Goes p a u q) : q.line = p.line + a.count '\n' ↔
    ∀ a₁ a₂, a = a₁ ++ '\n' :: a₂ → ∀ u₁ q₁, Goes p a₁ u₁ q₁ → q₁.mode.counts = true := by
  induction h with
  | stop p => simp
  | @next p q c rest a u here later ih =>
    by_cases counted : c = '\n' → p.mode.counts = true
    · rw [← Place.line_after_of_counted counted, ih]
      constructor
      · intro every a₁ a₂ whole u₁ q₁ goes
        cases goes with
        | stop => exact counted (List.cons.inj whole).1
        | next here' later' =>
          cases here.symm.trans here'
          exact every _ _ (List.cons.inj whole).2 _ _ later'
      · rintro every a₁ a₂ rfl u₁ q₁ goes
        exact every (c :: a₁) a₂ rfl _ q₁ (.next here goes)
    · rw [Classical.not_imp, Bool.not_eq_true] at counted
      obtain ⟨rfl, missed⟩ := counted
      have bound := later.line_le
      rw [Place.line_after_of_missed missed] at bound
      constructor
      · intro all
        rw [List.count_cons_self] at all
        omega
      · intro every
        cases missed.symm.trans (every [] a rfl [] p (.stop p))

/-- Only a backslash in plain text escapes outside strings. -/
theorem of_after_eq_escaped {m : Mode} {line : Nat} {before : Char}
    (h : m.after line before c rest = .escaped) : m = .plain ∧ c = '\\' := by
  cases m with
  | plain =>
    refine ⟨rfl, ?_⟩
    rw [Mode.after] at h
    have begins := begins_afterPlain line before c rest
    rw [h] at begins
    cases begins
    assumption
  | string | block | line | address =>
    rw [Mode.after] at h
    split_ifs at h
  | escaped | stringEscaped | opening | closing => cases h

/-- A line feed is not counted where it stands right behind a backslash in plain text. -/
theorem exists_missed_iff (whole : t = a ++ '\n' :: rest) :
    (∃ u q, Goes (.start t) a u q ∧ q.mode.counts = false) ↔
      ∃ a₀, a = a₀ ++ ['\\'] ∧ Outside t a₀ := by
  constructor
  · rintro ⟨u, q, goes, missed⟩
    have escaped : q.mode = .escaped := by
      cases h : q.mode <;> rw [h] at missed <;> first | rfl | cases missed
    rcases a.eq_nil_or_concat with rfl | ⟨a₀, c, rfl⟩
    · cases goes
      cases escaped
    · rw [List.concat_eq_append] at goes ⊢
      obtain ⟨v, r, rest, before, -, rfl⟩ := goes.last
      obtain ⟨plain, rfl⟩ := of_after_eq_escaped escaped
      exact ⟨a₀, rfl, v, r, before, plain⟩
  · rintro ⟨a₀, rfl, u, q, goes, plain⟩
    have here : q.rest = '\\' :: '\n' :: rest := by
      rw [List.append_assoc] at whole
      exact (List.append_cancel_left (whole.symm.trans goes.rest_eq)).symm
    have escaped : (q.after '\\' ('\n' :: rest)).mode = .escaped := by
      rw [Place.after, plain]
      rfl
    exact ⟨_, _, goes.snoc here, by rw [escaped]; rfl⟩

/-- From the beginning, lines are counted right where no backslash in plain text ends one. -/
theorem Goes.line_eq_iff_outside (h : Goes (.start t) a u q) : q.line = 1 + a.count '\n' ↔
    ∀ a₁ a₂, a = a₁ ++ '\\' :: '\n' :: a₂ → ¬ Outside t a₁ := by
  have whole : t = a ++ q.rest := h.rest_eq
  have counted : q.line = 1 + a.count '\n' ↔ _ := h.line_eq_iff
  refine counted.trans ⟨?_, ?_⟩
  · rintro every a₁ a₂ rfl outside
    have split : a₁ ++ '\\' :: '\n' :: a₂ = (a₁ ++ ['\\']) ++ '\n' :: a₂ := List.append_cons _ _ _
    have feed : t = (a₁ ++ ['\\']) ++ '\n' :: (a₂ ++ q.rest) := by
      rw [whole, split, List.append_assoc, List.cons_append]
    obtain ⟨u₁, q₁, before, missed⟩ := (exists_missed_iff feed).mpr ⟨a₁, rfl, outside⟩
    cases missed.symm.trans (every _ a₂ split u₁ q₁ before)
  · rintro none a₁ a₂ rfl u₁ q₁ before
    by_contra missed
    rw [Bool.not_eq_true] at missed
    have feed : t = a₁ ++ '\n' :: (a₂ ++ q.rest) := by
      rw [whole, List.append_assoc, List.cons_append]
    obtain ⟨a₀, rfl, outside⟩ := (exists_missed_iff feed).mp ⟨u₁, q₁, before, missed⟩
    exact none a₀ a₂ (List.append_cons _ _ _).symm outside

end

/-- The reader fails only if, in plain text, a string or a block comment begins that has no end.
Wherever one does, the reader fails and reports it, and the line is the one where it begins exactly
when no backslash in plain text ends a line before it. -/
theorem strip_error_line_iff (t : Text) :
    (∀ f, strip t = .error f → ∃ a s, t = a ++ s ∧ Outside t a ∧ Unclosed s f.fault) ∧
      ∀ a s fault, t = a ++ s → Outside t a → Unclosed s fault →
        ∃ line, strip t = .error ⟨line, fault⟩ ∧ (line = 1 + a.count '\n' ↔
          ∀ a₁ a₂, a = a₁ ++ '\\' :: '\n' :: a₂ → ¬ Outside t a₁) := by
  constructor
  · intro f h
    obtain ⟨a, u, q, goes, unclosed⟩ := exists_unclosedAt h
    exact ⟨a, q.rest, goes.rest_eq, ⟨u, q, goes, unclosed.mode⟩, unclosed.rest⟩
  · rintro a s fault whole ⟨u, q, goes, plain⟩ unclosed
    obtain rfl : s = q.rest := List.append_cancel_left (whole.symm.trans goes.rest_eq)
    have fails : q.strip = .error ⟨q.line, fault⟩ := UnclosedAt.strip_eq ⟨plain, rfl, unclosed⟩
    have run : strip t = q.strip.map (u ++ ·) := goes.strip_eq
    refine ⟨q.line, ?_, goes.line_eq_iff_outside⟩
    rw [run, fails]
    rfl

/-- Line feeds are counted behind a backslash in a string, in a comment, and behind a backslash
that is escaped itself. -/
theorem strip_error_line_counted :
    strip "'\\\n'/*\n*/\\\\\n/* *" = .error ⟨4, .unterminatedComment⟩ ∧
      Outside "'\\\n'/*\n*/\\\\\n/* *" "'\\\n'/*\n*/\\\\\n" ∧
      Unclosed "/* *" .unterminatedComment ∧
      ∀ a₁ a₂, ("'\\\n'/*\n*/\\\\\n" : Text) = a₁ ++ '\\' :: '\n' :: a₂ →
        ¬ Outside "'\\\n'/*\n*/\\\\\n/* *" a₁ := by
  have outside : Outside "'\\\n'/*\n*/\\\\\n/* *" "'\\\n'/*\n*/\\\\\n" :=
    ⟨_, _, goes_iff.mpr rfl, rfl⟩
  have unclosed : Unclosed "/* *" .unterminatedComment := .comment (by decide)
  obtain ⟨line, fails, right⟩ := (strip_error_line_iff "'\\\n'/*\n*/\\\\\n/* *").2
    "'\\\n'/*\n*/\\\\\n" "/* *" .unterminatedComment rfl outside unclosed
  cases fails
  exact ⟨rfl, outside, unclosed, right.mp rfl⟩

/-- A line feed behind a backslash in plain text is not counted. -/
theorem not_forall_strip_error_line :
    ¬ ∀ (t : Text) (f : Flaw), strip t = .error f → ∀ a s, t = a ++ s → Outside t a →
      Unclosed s f.fault → f.line = 1 + a.count '\n' := by
  intro h
  have fails : strip ".a\\\n\"b" = .error ⟨1, .unterminatedString⟩ := rfl
  have outside : Outside ".a\\\n\"b" ".a\\\n" :=
    ⟨_, _, goes_iff.mpr rfl, rfl⟩
  have ends : Unended '"' ['b'] := .other (by decide) (by decide) .nil
  cases h ".a\\\n\"b" _ fails ".a\\\n" "\"b" rfl outside (.string rfl ends)

end StyleTypings.Less.Comment
