/-
Stripping — what is left of a text without its comments has no comments.

A second reading runs beside the first: it stands in the same mode where characters are
copied, and in plain text where they are removed (`Resumes`).  It looks at fewer characters
than the first, since what it reads are only those that are left.  Two places matter.  A
slash that was kept is followed by neither a slash nor an asterisk, and what follows it is
kept too, so removing a comment never makes two characters into another mark.  And `url(`
stands in what is left only where it stood before, since a space or the end of a line takes
the place of a comment, and neither is a letter.
-/
import StyleTypings.Proofs.Failures
import StyleTypings.Proofs.Inert

namespace StyleTypings.Less.Comment

/-! ## What the reader looks at -/

/-- Whether a text goes on with `url(` after its first letter. -/
def EndsAddressMark (t : Text) : Prop := Text.sameAscii (t.take 3) "rl(" = true

instance (t : Text) : Decidable (EndsAddressMark t) := inferInstanceAs (Decidable (_ = true))

theorem endsAddressMark_iff {t : Text} : EndsAddressMark t ↔
    ∃ r l after, t = r :: l :: '(' :: after ∧ r.toLower = 'r' ∧ l.toLower = 'l' := by
  rw [EndsAddressMark, Text.sameAscii, beq_iff_eq]
  constructor
  · intro h
    have lower : (t.take 3).map Char.toLower = ['r', 'l', '('] := h
    rcases t with _ | ⟨r, _ | ⟨l, _ | ⟨p, after⟩⟩⟩ <;> simp at lower
    obtain ⟨hr, hl, hp⟩ := lower
    exact ⟨r, l, after, by rw [eq_paren_of_toLower hp], hr, hl⟩
  · rintro ⟨r, l, after, rfl, hr, hl⟩
    simp [Text.lowerAscii, hr, hl]

/-- A text that does not go on with a letter of `url(` does not make one of what stands before
it. -/
theorem endsAddressMark_append_iff {x : Text}
    (apart : ∀ d ∈ x.head?, d.toLower ≠ 'r' ∧ d.toLower ≠ 'l' ∧ d ≠ '(') (a : Text) :
    EndsAddressMark (a ++ x) ↔ EndsAddressMark a := by
  have away {d : Char} {after : Text} (h : x = d :: after) :
      d.toLower ≠ 'r' ∧ d.toLower ≠ 'l' ∧ d ≠ '(' := apart d (by rw [h]; rfl)
  rw [endsAddressMark_iff, endsAddressMark_iff]
  constructor
  · rintro ⟨r, l, after, whole, hr, hl⟩
    rcases a with _ | ⟨r', _ | ⟨l', _ | ⟨p, a⟩⟩⟩
    · exact absurd hr (away whole).1
    · exact absurd hl (away (List.cons.inj whole).2).2.1
    · exact absurd rfl (away (List.cons.inj (List.cons.inj whole).2).2).2.2
    · simp only [List.cons_append, List.cons.injEq] at whole
      obtain ⟨rfl, rfl, rfl, rfl⟩ := whole
      exact ⟨_, _, a, rfl, hr, hl⟩
  · rintro ⟨r, l, after, rfl, hr, hl⟩
    exact ⟨r, l, after ++ x, rfl, hr, hl⟩

theorem startsAddress_cons (before c : Char) (t : Text) :
    startsAddress before (c :: t) =
      (! isIdentChar before && c.toLower == 'u' && decide (EndsAddressMark t)) := by
  rw [startsAddress, Bool.and_assoc]
  congr 1
  rw [Bool.eq_iff_iff]
  simp [EndsAddressMark, Text.sameAscii, Text.lowerAscii]

/-- Where the mode changes in plain text depends on little of what follows. -/
theorem afterPlain_congr {line : Nat} {before before' c : Char} {s t : Text}
    (ident : isIdentChar before' = isIdentChar before)
    (slash : c = '/' → (s.head? = some '*' ↔ t.head? = some '*') ∧
      (s.head? = some '/' ↔ t.head? = some '/'))
    (address : c.toLower = 'u' → (EndsAddressMark s ↔ EndsAddressMark t)) :
    Mode.afterPlain line before' c s = Mode.afterPlain line before c t := by
  have starts : startsAddress before' (c :: s) = startsAddress before (c :: t) := by
    rw [startsAddress_cons, startsAddress_cons, ident]
    by_cases hc : c.toLower = 'u'
    · rw [decide_eq_decide.mpr (address hc)]
    · rw [beq_false_of_ne hc, Bool.and_false, Bool.false_and, Bool.false_and]
  rw [Mode.afterPlain, Mode.afterPlain, starts]
  by_cases hc : c = '/'
  · simp [slash hc]
  · simp [hc]

/-- The reader tells characters before it apart only by whether they belong to a name. -/
theorem stripFrom_plain_congr {line : Nat} {before before' : Char}
    (ident : isIdentChar before' = isIdentChar before) (t : Text) :
    stripFrom .plain line before' t = stripFrom .plain line before t := by
  cases t with
  | nil => rfl
  | cons c t =>
    rw [stripFrom, stripFrom, Mode.after, Mode.after,
      afterPlain_congr ident (fun _ => ⟨.rfl, .rfl⟩) fun _ => .rfl]

/-- What a character begins in plain text. -/
inductive Begins (line : Nat) (c : Char) (t : Text) : Mode → Prop where
  | string (quote : Text.isQuote c = true) : Begins line c t (.string c line)
  | escape (backslash : c = '\\') : Begins line c t .escaped
  | block (slash : c = '/') (star : t.head? = some '*') : Begins line c t (.opening line)
  | line (slash : c = '/') (slash' : t.head? = some '/') : Begins line c t .line
  | address (letter : c.toLower = 'u') : Begins line c t .address
  | nothing (slash : c = '/' → t.head? ≠ some '*' ∧ t.head? ≠ some '/') : Begins line c t .plain

theorem begins_afterPlain (line : Nat) (before c : Char) (t : Text) :
    Begins line c t (Mode.afterPlain line before c t) := by
  unfold Mode.afterPlain
  split_ifs with quote backslash star slash address
  · exact .string quote
  · exact .escape backslash
  · rw [Bool.and_eq_true, decide_eq_true_eq, beq_iff_eq] at star
    exact .block star.1 star.2
  · rw [Bool.and_eq_true, decide_eq_true_eq, beq_iff_eq] at slash
    exact .line slash.1 slash.2
  · rw [startsAddress_cons, Bool.and_eq_true, Bool.and_eq_true, beq_iff_eq] at address
    exact .address address.1.2
  · refine .nothing ?_
    rintro rfl
    exact ⟨by simpa using star, by simpa using slash⟩

/-! ## Removed characters -/

/-- Whether characters are removed in a mode. -/
def Mode.Removes : Mode → Prop
  | .opening _ | .block _ | .closing | .line => True
  | _ => False

/-- Reading goes through one character. -/
theorem stripFrom_cons_eq_ok {m : Mode} {line : Nat} {before c : Char} {t u : Text}
    (h : stripFrom m line before (c :: t) = .ok u) :
    ∃ line' v, stripFrom (m.after line before c t) line' c t = .ok v ∧
      u = written c m (m.after line before c t) ++ v := by
  rw [stripFrom] at h
  obtain ⟨v, rest, whole⟩ := ok_of_map h
  exact ⟨_, v, rest, whole⟩

/-- Where characters are removed, a line feed or a space is the first that is left. -/
theorem head?_of_removes {m : Mode} {line : Nat} {before d : Char} {t u : Text}
    (removes : m.Removes) (h : stripFrom m line before t = .ok (d :: u)) : d = '\n' ∨ d = ' ' := by
  induction t generalizing m line before with
  | nil => cases m <;> cases h
  | cons c t ih =>
    obtain ⟨line', v, rest, whole⟩ := stripFrom_cons_eq_ok h
    cases m with
    | plain | escaped | string | stringEscaped | address => cases removes
    | opening start =>
      subst whole
      refine ih ?_ rest
      exact trivial
    | closing => exact .inr (List.cons.inj whole).1
    | block start =>
      by_cases hc : c = '\n'
      · rw [written, if_pos hc] at whole
        exact .inl (List.cons.inj whole).1
      · rw [written, if_neg hc, List.nil_append] at whole
        subst whole
        refine ih ?_ rest
        rw [Mode.after]
        split <;> trivial
    | line =>
      by_cases hc : c = '\n'
      · rw [written, if_pos hc] at whole
        exact .inl (List.cons.inj whole).1
      · rw [written, if_neg hc, List.nil_append] at whole
        subst whole
        refine ih ?_ rest
        rw [Mode.after, if_neg hc]
        trivial

/-- A character of plain text is left as it is, unless a comment begins with it. -/
theorem written_plain {c : Char} {m : Mode} (h : ¬ m.Removes) : written c .plain m = [c] := by
  cases m <;> first | rfl | exact absurd trivial h

theorem Begins.removes {line : Nat} {c : Char} {t : Text} {m : Mode} (h : Begins line c t m)
    (removes : m.Removes) : c = '/' ∧ written c .plain m = [] := by
  cases h with
  | block slash | line slash => exact ⟨slash, rfl⟩
  | string | escape | address | nothing => exact removes.elim

/-! ## Kept characters -/

/-- A letter that changes nothing in plain text or in an address, and that is not left in
the place of a comment. -/
structure Passes (d : Char) : Prop where
  quote : Text.isQuote d = false
  ne : d ≠ '\\' ∧ d ≠ '/' ∧ d ≠ ')' ∧ d ≠ '\n' ∧ d ≠ ' '
  lower : d.toLower ≠ 'u'

theorem Passes.after_eq {d : Char} (hd : Passes d) {m : Mode} (copies : m = .plain ∨ m = .address)
    (line : Nat) (before : Char) (t : Text) :
    m.after line before d t = m ∧ written d m m = [d] := by
  obtain ⟨backslash, slash, parenthesis, -, -⟩ := hd.ne
  rcases copies with rfl | rfl
  · have starts : startsAddress before (d :: t) = false := by
      rw [startsAddress_cons, beq_false_of_ne hd.lower, Bool.and_false, Bool.false_and]
    simp [Mode.after, Mode.afterPlain, hd.quote, backslash, slash, starts, written]
  · exact ⟨if_neg parenthesis, rfl⟩

/-- Such a letter is left just if it was there. -/
theorem stripFrom_passes {d : Char} (hd : Passes d) {m : Mode} (copies : m = .plain ∨ m = .address)
    {line : Nat} {before : Char} {t u : Text} (h : stripFrom m line before t = .ok u) :
    (∀ t', t = d :: t' → ∃ line' u', u = d :: u' ∧ stripFrom m line' d t' = .ok u') ∧
      ∀ u', u = d :: u' → ∃ line' t', t = d :: t' ∧ stripFrom m line' d t' = .ok u' := by
  have forward (t' : Text) (ht : t = d :: t') :
      ∃ line' u', u = d :: u' ∧ stripFrom m line' d t' = .ok u' := by
    subst ht
    obtain ⟨line', v, rest, whole⟩ := stripFrom_cons_eq_ok h
    obtain ⟨same, kept⟩ := hd.after_eq copies line before t'
    rw [same] at rest whole
    exact ⟨line', v, by rw [whole, kept]; rfl, rest⟩
  refine ⟨forward, ?_⟩
  rintro u' rfl
  obtain ⟨-, -, -, feed, space⟩ := hd.ne
  cases t with
  | nil => rcases copies with rfl | rfl <;> cases h
  | cons c t =>
    obtain ⟨line', v, rest, whole⟩ := stripFrom_cons_eq_ok h
    have kept : written c m (m.after line before c t) = [c] := by
      rcases copies with rfl | rfl
      · refine written_plain ?_
        intro removes
        rw [Mode.after, ((begins_afterPlain line before c t).removes removes).2,
          List.nil_append] at whole
        subst whole
        rcases head?_of_removes removes rest with h | h
        · exact feed h
        · exact space h
      · rfl
    rw [kept] at whole
    obtain rfl := (List.cons.inj whole).1
    obtain ⟨line', v', same, rest⟩ := forward t rfl
    obtain rfl := (List.cons.inj same).2
    exact ⟨line', t, rfl, rest⟩

theorem passes_of_toLower {d : Char} (h : d.toLower = 'r' ∨ d.toLower = 'l' ∨ d = '(') :
    Passes d := by
  have ne {e : Char} (he : e.toLower ≠ 'r' ∧ e.toLower ≠ 'l' ∧ e ≠ '(') : d ≠ e := by
    rintro rfl
    rcases h with h | h | h
    · exact he.1 h
    · exact he.2.1 h
    · exact he.2.2 h
  refine ⟨?_, ⟨ne (by decide), ne (by decide), ne (by decide), ne (by decide), ne (by decide)⟩, ?_⟩
  · rw [Text.isQuote, Bool.or_eq_false_iff, beq_eq_false_iff_ne, beq_eq_false_iff_ne]
    exact ⟨ne (by decide), ne (by decide)⟩
  · intro lower
    rcases h with h | h | rfl
    · cases h.symm.trans lower
    · cases h.symm.trans lower
    · cases lower

/-- `url(` stands in what is left just where it stood before. -/
theorem endsAddressMark_of_stripFrom {m : Mode} (copies : m = .plain ∨ m = .address) {line : Nat}
    {before : Char} {t u : Text} (h : stripFrom m line before t = .ok u) :
    EndsAddressMark u ↔ EndsAddressMark t := by
  rw [endsAddressMark_iff, endsAddressMark_iff]
  constructor
  · rintro ⟨r, l, after, rfl, hr, hl⟩
    obtain ⟨_, t₁, rfl, h₁⟩ := (stripFrom_passes (passes_of_toLower (.inl hr)) copies h).2 _ rfl
    obtain ⟨_, t₂, rfl, h₂⟩ :=
      (stripFrom_passes (passes_of_toLower (.inr (.inl hl))) copies h₁).2 _ rfl
    obtain ⟨_, t₃, rfl, h₃⟩ :=
      (stripFrom_passes (passes_of_toLower (.inr (.inr rfl))) copies h₂).2 _ rfl
    exact ⟨r, l, t₃, rfl, hr, hl⟩
  · rintro ⟨r, l, after, rfl, hr, hl⟩
    obtain ⟨_, u₁, rfl, h₁⟩ := (stripFrom_passes (passes_of_toLower (.inl hr)) copies h).1 _ rfl
    obtain ⟨_, u₂, rfl, h₂⟩ :=
      (stripFrom_passes (passes_of_toLower (.inr (.inl hl))) copies h₁).1 _ rfl
    obtain ⟨_, u₃, rfl, h₃⟩ :=
      (stripFrom_passes (passes_of_toLower (.inr (.inr rfl))) copies h₂).1 _ rfl
    exact ⟨r, l, u₃, rfl, hr, hl⟩

/-- What follows a slash that is left is kept. -/
theorem head?_of_plain {line : Nat} {before : Char} {t u : Text}
    (h : stripFrom .plain line before t = .ok u) (slash : t.head? ≠ some '/') :
    u.head? = t.head? := by
  cases t with
  | nil =>
    cases h
    rfl
  | cons c t =>
    obtain ⟨line', v, rest, rfl⟩ := stripFrom_cons_eq_ok h
    have kept : ¬ (Mode.afterPlain line before c t).Removes := fun removes =>
      slash (congrArg some ((begins_afterPlain line before c t).removes removes).1)
    rw [Mode.after, written_plain kept]
    rfl

/-! ## Both readings -/

/-- The mode of a second reading of what is left, beside the mode of the first reading.
Behind `before` the first has `t` to read, and the second stands behind `before'`. -/
inductive Resumes (before before' : Char) (t : Text) : Mode → Mode → Prop where
  | plain (ident : isIdentChar before' = isIdentChar before) : Resumes before before' t .plain .plain
  | escaped : Resumes before before' t .escaped .escaped
  | string (quote : Char) (start start' : Nat) :
    Resumes before before' t (.string quote start) (.string quote start')
  | stringEscaped (quote : Char) (start start' : Nat) :
    Resumes before before' t (.stringEscaped quote start) (.stringEscaped quote start')
  | address : Resumes before before' t .address .address
  | opening (start : Nat) : Resumes before before' t (.opening start) .plain
  | block (start : Nat) : Resumes before before' t (.block start) .plain
  | closing (slash : t.head? = some '/') : Resumes before before' t .closing .plain
  | line : Resumes before before' t .line .plain

/-- What a character that is kept begins in plain text, it begins again in what is left. -/
theorem afterPlain_of_kept {line place : Nat} {before before' c : Char} {t u : Text}
    (ident : isIdentChar before' = isIdentChar before)
    (kept : ¬ (Mode.afterPlain line before c t).Removes)
    (h : stripFrom (Mode.afterPlain line before c t) place c t = .ok u) (line' : Nat) :
    Mode.afterPlain line' before' c u = Mode.afterPlain line' before c t := by
  have begins := begins_afterPlain line before c t
  refine afterPlain_congr ident ?_ ?_
  · intro slash
    subst slash
    generalize Mode.afterPlain line before '/' t = m at begins kept h
    cases begins with
    | string quote => cases quote
    | escape backslash => cases backslash
    | block | line => exact absurd trivial kept
    | address letter => cases letter
    | nothing slash => rw [head?_of_plain h (slash rfl).2]; exact ⟨.rfl, .rfl⟩
  · intro letter
    have other {d : Char} (hd : d.toLower ≠ 'u') : c ≠ d := by
      rintro rfl
      exact hd letter
    generalize Mode.afterPlain line before c t = m at begins kept h
    cases begins with
    | string quote =>
      rw [Text.isQuote, Bool.or_eq_true, beq_iff_eq, beq_iff_eq] at quote
      exact absurd quote (not_or.mpr ⟨other (by decide), other (by decide)⟩)
    | escape backslash => exact absurd backslash (other (by decide))
    | block slash | line slash => exact absurd slash (other (by decide))
    | address => exact endsAddressMark_of_stripFrom (.inr rfl) h
    | nothing => exact endsAddressMark_of_stripFrom (.inl rfl) h

/-- The line at which something begins does not matter to what begins. -/
theorem resumes_of_kept {line : Nat} {before c : Char} {t : Text} (line' : Nat)
    (kept : ¬ (Mode.afterPlain line before c t).Removes) :
    Resumes c c t (Mode.afterPlain line before c t) (Mode.afterPlain line' before c t) := by
  unfold Mode.afterPlain at kept ⊢
  split_ifs at kept ⊢
  · exact .string c line line'
  · exact .escaped
  · exact absurd trivial kept
  · exact absurd trivial kept
  · exact .address
  · exact .plain rfl

theorem Resumes.not_removes {before before' : Char} {t : Text} {m m' : Mode}
    (h : Resumes before before' t m m') : ¬ m'.Removes := by
  cases h <;> exact id

/-- What is left of a character that is a space or ends a line is left again. -/
theorem stripFrom_cons_of_blank {line : Nat} {before c : Char} {u : Text}
    (blank : c = '\n' ∨ c = ' ') (h : ∀ line, stripFrom .plain line c u = .ok u) :
    stripFrom .plain line before (c :: u) = .ok (c :: u) := by
  have plain : Mode.afterPlain line before c u = .plain := by
    rcases blank with rfl | rfl <;> simp [Mode.afterPlain, Text.isQuote, startsAddress_cons]
  rw [stripFrom, Mode.after, plain, h]
  rfl

/-- Wherever the first reading stands, the second one keeps all that is still left. -/
theorem stripFrom_of_resumes {m m' : Mode} {line : Nat} {before before' : Char} {t u : Text}
    (h : stripFrom m line before t = .ok u) (resumes : Resumes before before' t m m') (line' : Nat) :
    stripFrom m' line' before' u = .ok u := by
  induction t generalizing m m' line before before' u line' with
  | nil => cases resumes <;> cases h <;> rfl
  | cons c t ih =>
    obtain ⟨place, v, rest, rfl⟩ := stripFrom_cons_eq_ok h
    -- Where the second reading meets the same character, it goes the same way.
    have kept {m' : Mode} (hw : written c m (m.after line before c t) = [c])
        (next : Resumes c c t (m.after line before c t) (m'.after line' before' c v))
        (copied : written c m' (m'.after line' before' c v) = [c]) :
        stripFrom m' line' before' (written c m (m.after line before c t) ++ v) =
          .ok (written c m (m.after line before c t) ++ v) := by
      rw [hw, List.singleton_append, stripFrom, ih rest next, copied]
      rfl
    cases resumes with
    | plain ident =>
      by_cases removes : (Mode.afterPlain line before c t).Removes
      · rw [Mode.after, ((begins_afterPlain line before c t).removes removes).2, List.nil_append]
        rw [Mode.after] at rest
        refine ih rest ?_ line'
        generalize Mode.afterPlain line before c t = m, begins_afterPlain line before c t = begins
          at removes
        cases begins with
        | block => exact .opening line
        | line => exact .line
        | string | escape | address | nothing => exact removes.elim
      · have next := resumes_of_kept line' removes
        rw [← afterPlain_of_kept ident removes rest line'] at next
        exact kept (written_plain removes) next (written_plain next.not_removes)
    | escaped => exact kept rfl (.plain rfl) rfl
    | string quote start start' =>
      refine kept rfl ?_ rfl
      rw [Mode.after, Mode.after]
      split_ifs
      · exact .stringEscaped quote start start'
      · exact .plain rfl
      · exact .string quote start start'
    | stringEscaped quote start start' => exact kept rfl (.string quote start start') rfl
    | address =>
      refine kept rfl ?_ rfl
      rw [Mode.after, Mode.after]
      split_ifs
      · exact .plain rfl
      · exact .address
    | opening start => exact ih rest (.block start) line'
    | block start =>
      by_cases feed : c = '\n'
      · subst feed
        exact stripFrom_cons_of_blank (.inl rfl) (ih rest (.block start))
      · rw [written, if_neg feed, List.nil_append]
        refine ih rest ?_ line'
        rw [Mode.after]
        split_ifs with ends
        · rw [Bool.and_eq_true, beq_iff_eq] at ends
          exact .closing ends.2
        · exact .block start
    | closing slash =>
      obtain rfl := Option.some.inj slash
      exact stripFrom_cons_of_blank (.inr rfl) (ih rest (.plain (by decide)))
    | line =>
      by_cases feed : c = '\n'
      · subst feed
        exact stripFrom_cons_of_blank (.inl rfl) (ih rest (.plain rfl))
      · rw [written, if_neg feed, List.nil_append]
        rw [Mode.after, if_neg feed] at rest
        exact ih rest .line line'

/-- Nothing is removed from a text whose comments have been removed. -/
theorem strip_strip {t u : Text} (h : strip t = .ok u) : strip u = .ok u :=
  stripFrom_of_resumes h (.plain rfl) 1

/-- A slash that is escaped begins no comment, and a comment between the letters of `url(`
leaves them apart. -/
theorem strip_strip_apart :
    strip "a\\//*b\n*/ur/**/l('/*')//c\nurl(//d)" = .ok "a\\/\n ur l('/*')\nurl(//d)" ∧
      strip "a\\/\n ur l('/*')\nurl(//d)" = .ok "a\\/\n ur l('/*')\nurl(//d)" := by
  have left : strip "a\\//*b\n*/ur/**/l('/*')//c\nurl(//d)" =
      .ok "a\\/\n ur l('/*')\nurl(//d)" := rfl
  exact ⟨left, strip_strip left⟩

end StyleTypings.Less.Comment
