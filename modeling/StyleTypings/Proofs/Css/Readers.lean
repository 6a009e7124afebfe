/-
Blind readers — what is read from a steady text whatever its blanks.

Every reader of the tokenizer reads the same from a steady text and from what the text
collapses to, and what it leaves of the one collapses to what it leaves of the other
(`Commutes`).  Readers that are put together from such readers are such readers again, up to
the reader of a token (`takeToken_commutes`).
-/
import StyleTypings.Proofs.Css.Skipping
import StyleTypings.Proofs.Css.Steps

namespace StyleTypings.Css

open Text

/-! ## Readers -/

/-- A reader reads the same from a text and from what it collapses to behind a character, and
what it leaves is steady. -/
structure Commutes {α : Type} (read : Text → α × Text) (s : Text) : Prop where
  eq : read (collapseAfter s) = ((read s).1, collapseAfter (read s).2)
  steady : Steady (read s).2

namespace Commutes

variable {α β : Type} {s : Text}

theorem keep (a : α) (h : Steady s) : Commutes (fun t => (a, t)) s := ⟨rfl, h⟩

/-- What is read next may depend on what has been read. -/
theorem bind {read : Text → α × Text} {next : α → Text → β × Text} (h : Commutes read s)
    (h' : ∀ a, Commutes (next a) (read s).2) :
    Commutes (fun t => next (read t).1 (read t).2) s := by
  refine ⟨?_, (h' _).steady⟩
  simp only [h.eq, (h' _).eq]

theorem map {read : Text → α × Text} (f : α → β) (h : Commutes read s) :
    Commutes (fun t => (f (read t).1, (read t).2)) s :=
  h.bind fun a => keep (f a) h.steady

/-- What is read may depend on a test that collapsing does not change. -/
theorem ite {p : Text → Bool} {yes no : Text → α × Text}
    (same : p (collapseAfter s) = p s) (hyes : Commutes yes s) (hno : Commutes no s) :
    Commutes (fun t => if p t then yes t else no t) s := by
  cases hp : p s with
  | true =>
    refine ⟨?_, ?_⟩
    · simp only [same, hp, if_true, hyes.eq]
    · simp only [hp, if_true, hyes.steady]
  | false =>
    refine ⟨?_, ?_⟩
    · simp only [same, hp, Bool.false_eq_true, if_false, hno.eq]
    · simp only [hp, Bool.false_eq_true, if_false, hno.steady]

/-- What is read may depend on whether the text begins with a certain text without blanks. -/
theorem follow {w : Text} (ink : ∀ c ∈ w, isBlank c = false) {read yes no : Text → α × Text}
    (present : ∀ t, read (w ++ t) = yes t) (absent : ∀ t, ¬ w <+: t → read t = no t)
    (hyes : ∀ t, s = w ++ t → Commutes yes t) (hno : Commutes no s) : Commutes read s := by
  by_cases begins : w <+: s
  · obtain ⟨t, rfl⟩ := begins
    have rest := hyes t rfl
    refine ⟨?_, ?_⟩
    · rw [collapseAfter_append_left ink, present, present, rest.eq]
    · rw [present]
      exact rest.steady
  · refine ⟨?_, ?_⟩
    · rw [absent _ fun h => begins (prefix_of_collapseAfter ink h), absent s begins, hno.eq]
    · rw [absent s begins]
      exact hno.steady

/-- A character that is no blank stays before what comes after it. -/
theorem cons {read : Text → α × Text} {c : Char} (ink : isBlank c = false)
    (h : Commutes read (c :: s)) : Commutes (fun t => read (c :: t)) s :=
  ⟨by rw [← h.eq, collapseAfter_cons ink], h.steady⟩

end Commutes

/-! ## Names -/

theorem endsName_of_blank {b : Char} (hb : isCssBlank b = true) (t : Text) : EndsName (b :: t) := by
  have stop := of_isCssBlank (p := fun b => ! isNamePart b && b != '\\') (by decide) hb
  exact .cons (by simpa using stop) t

theorem endsName_collapseAfter {s : Text} (h : EndsName s) : EndsName (collapseAfter s) := by
  obtain ⟨rfl, hs⟩ | ⟨b, t, rfl, -, hs | ⟨t', hs⟩⟩ | ⟨c, t, rfl, -, hs⟩ := collapseAfter_cases s
  · exact nofun
  · rw [hs]
    exact .nil
  · rw [hs]
    exact .cons ⟨by decide, by decide⟩ t'
  · rw [hs]
    exact .cons (h c rfl) _

theorem takeName_escape {r : Text} (line : atNewline r = false) :
    takeName 0 ('\\' :: r) = ((escape r).1 :: (takeName 0 (r.drop (escape r).2)).1,
      (takeName 0 (r.drop (escape r).2)).2) := by
  rw [← takeName_eq_drop, takeName, if_pos rfl, line, if_neg Bool.false_ne_true]

theorem takeName_part {c : Char} (part : isNamePart c = true) (t : Text) :
    takeName 0 (c :: t) =
      ((if c = '\x00' then replacementChar else c) :: (takeName 0 t).1, (takeName 0 t).2) := by
  rw [takeName, if_neg (ne_backslash_of_isNamePart part), if_pos part]

theorem takeName_commutes {s : Text} (h : Steady s) : Commutes (takeName 0) s := by
  have stops {s : Text} (ends : EndsName s) (h : Steady s) : Commutes (takeName 0) s := by
    refine ⟨?_, ?_⟩
    · rw [takeName_of_endsName ends, takeName_of_endsName (endsName_collapseAfter ends)]
    · rw [takeName_of_endsName ends]
      exact h
  induction h with
  | nil => exact stops .nil .nil
  | blank blank rest => exact stops (endsName_of_blank blank _) (.blank blank rest)
  | @plain c s ink unescaped unquoted rest ih =>
    cases part : isNamePart c with
    | true =>
      refine ⟨?_, ?_⟩
      · rw [collapseAfter_cons ink, takeName_part part, takeName_part part, ih.eq]
      · rw [takeName_part part]
        exact ih.steady
    | false => exact stops (.cons ⟨part, unescaped⟩ s) (.plain ink unescaped unquoted rest)
  | @escape r s escaped rest ih =>
    have facts := escaped.escapes
    refine ⟨?_, ?_⟩
    · rw [collapseAfter_cons rfl, takeName_escape facts.line, takeName_escape facts.line',
        facts.char, facts.leaves, facts.leaves', ih.eq]
    · rw [takeName_escape facts.line, facts.leaves]
      exact ih.steady

/-- Only a hyphen and a backslash need another character to begin a name. -/
theorem startsName_cons {c : Char} (hyphen : c ≠ '-') (unescaped : c ≠ '\\') (t : Text) :
    startsName (c :: t) = isNameStart c := by
  unfold startsName
  split
  · rename_i heq
    cases heq
  · rename_i heq
    exact absurd (List.cons.inj heq).1 hyphen
  · rename_i heq
    exact absurd (List.cons.inj heq).1 hyphen
  · rename_i heq
    exact absurd (List.cons.inj heq).1 unescaped
  · rename_i heq
    rw [(List.cons.inj heq).1]

theorem startsName_blank {b : Char} (hb : isCssBlank b = true) (t : Text) :
    startsName (b :: t) = false := by
  have blank := isBlank_of_isCssBlank hb
  have none := of_isCssBlank (p := (! isNameStart ·)) (by decide) hb
  rw [startsName_cons (ne_of_isBlank blank rfl) (ne_of_isBlank blank rfl)]
  simpa using none

theorem startsName_hyphen_blank {b : Char} (hb : isCssBlank b = true) (t : Text) :
    startsName ('-' :: b :: t) = false := by
  have none := of_isCssBlank (p := fun b => ! (isNameStart b || b == '-' || b == '\\'))
    (by decide) hb
  rwa [Bool.not_eq_true'] at none

theorem startsName_collapseAfter {s : Text} (h : Steady s) :
    startsName (collapseAfter s) = startsName s := by
  refine h.same (fun b t hb => startsName_blank hb t) ?_
  rintro c t rfl ink
  by_cases backslash : c = '\\'
  · subst backslash
    obtain ⟨s, escaped, -⟩ := h.escaped
    show (! atNewline (collapseAfter t)) = ! atNewline t
    rw [escaped.escapes.line, escaped.escapes.line']
  by_cases hyphen : c = '-'
  · subst hyphen
    have rest := h.tail (by decide)
    exact rest.same (f := fun t => startsName ('-' :: t))
      (fun b t hb => startsName_hyphen_blank hb t) fun _ _ _ _ => rfl
  · rw [startsName_cons hyphen backslash, startsName_cons hyphen backslash]

/-! ## Numerals -/

theorem isDigit_of_isBlank (b : Char) (hb : isBlank b = true) : b.isDigit = false := by
  cases hdigit : b.isDigit with
  | false => rfl
  | true =>
    have hex : isHexDigit b = true := by simp [isHexDigit, hdigit]
    exact absurd (hb.symm.trans (isBlank_of_isHexDigit hex)) (by decide)

theorem atDigit_collapseAfter {s : Text} (h : Steady s) :
    atDigit (collapseAfter s) = atDigit s :=
  h.same (fun b _ hb => isDigit_of_isBlank b (isBlank_of_isCssBlank hb)) fun _ _ _ _ => rfl

theorem takeSign_collapseAfter (s : Text) : takeSign (collapseAfter s) =
    ((takeSign s).1, (takeSign s).2.1, collapseAfter (takeSign s).2.2) := by
  obtain ⟨rfl, -⟩ | ⟨b, t, rfl, hb, hs⟩ | ⟨c, t, rfl, -, hs⟩ := collapseAfter_cases s
  · rfl
  · rw [takeSign_cons (ne_of_isBlank hb rfl) (ne_of_isBlank hb rfl)]
    rcases hs with hs | ⟨t', hs⟩ <;> rw [hs] <;> rfl
  · rw [hs]
    by_cases minus : c = '-'
    · subst minus
      rfl
    · by_cases plus : c = '+'
      · subst plus
        rfl
      · rw [takeSign_cons minus plus, takeSign_cons minus plus, ← hs]

theorem takeSign_steady {s : Text} (h : Steady s) : Steady (takeSign s).2.2 := by
  unfold takeSign
  split
  · exact h.tail (by decide)
  · exact h.tail (by decide)
  · exact h

theorem startsUnsigned_collapseAfter {s : Text} (h : Steady s) :
    startsUnsigned (collapseAfter s) = startsUnsigned s := by
  refine h.same ?_ ?_
  · intro b t hb
    have blank := isBlank_of_isCssBlank hb
    rw [startsUnsigned_cons (ne_of_isBlank blank rfl), isDigit_of_isBlank b blank]
    rfl
  · rintro c t rfl ink
    by_cases point : c = '.'
    · subst point
      exact atDigit_collapseAfter (h.tail (by decide))
    · rw [startsUnsigned_cons point, startsUnsigned_cons point]

theorem startsNumeral_collapseAfter {s : Text} (h : Steady s) :
    startsNumeral (collapseAfter s) = startsNumeral s := by
  rw [startsNumeral, takeSign_collapseAfter, startsUnsigned_collapseAfter (takeSign_steady h),
    startsNumeral]

/-- A sign and its factor, as they are read. -/
def readSign (t : Text) : (Bool × Float) × Text :=
  (((takeSign t).1, (takeSign t).2.1), (takeSign t).2.2)

theorem readSign_commutes {s : Text} (h : Steady s) : Commutes readSign s := by
  refine ⟨?_, takeSign_steady h⟩
  rw [readSign, takeSign_collapseAfter]
  rfl

/-- The digits at the beginning of a text, as they are read. -/
def readDigits (t : Text) : Text × Text := (t.takeWhile Char.isDigit, t.dropWhile Char.isDigit)

theorem readDigits_commutes {s : Text} (h : Steady s) : Commutes readDigits s := by
  refine ⟨?_, h.dropWhile rfl⟩
  rw [readDigits, takeWhile_collapseAfter isDigit_of_isBlank,
    dropWhile_collapseAfter isDigit_of_isBlank]
  rfl

theorem takeFraction_commutes {s : Text} (h : Steady s) : Commutes takeFraction s := by
  refine .follow (w := ['.']) (forall_eq_false rfl) (fun _ => rfl) ?_ ?_
    (.keep 0.0 h)
  · intro t point
    unfold takeFraction
    split
    · rename_i rest
      exact absurd ⟨rest, rfl⟩ point
    · rfl
  · rintro t rfl
    have rest := h.tail (by decide)
    refine .ite (atDigit_collapseAfter rest) ((readDigits_commutes rest).map _) ⟨?_, h⟩
    exact congrArg (Prod.mk 0.0) (collapseAfter_cons rfl t).symm

theorem takeExponent_commutes {s : Text} (h : Steady s) : Commutes takeExponent s := by
  have other {c : Char} (letter : ¬ (c = 'e' ∨ c = 'E')) (t : Text) :
      takeExponent (c :: t) = (none, c :: t) := by
    rw [takeExponent, if_neg letter]
  obtain ⟨rfl, -⟩ | ⟨b, t, rfl, hb, hs⟩ | ⟨c, t, rfl, -, hs⟩ := collapseAfter_cases s
  · exact ⟨rfl, h⟩
  · have none := other (not_or.mpr ⟨ne_of_isBlank hb rfl, ne_of_isBlank hb rfl⟩) t
    refine ⟨?_, none ▸ h⟩
    rw [none]
    rcases hs with hs | ⟨t', hs⟩ <;> rw [hs] <;> rfl
  · by_cases letter : c = 'e' ∨ c = 'E'
    · have rest := h.tail (by rcases letter with rfl | rfl <;> decide)
      have digits := readDigits_commutes (readSign_commutes rest).steady
      refine ⟨?_, ?_⟩
      · rw [hs, takeExponent, takeExponent, if_pos letter, if_pos letter, takeSign_collapseAfter]
        simp only [atDigit_collapseAfter (takeSign_steady rest),
          takeWhile_collapseAfter isDigit_of_isBlank, dropWhile_collapseAfter isDigit_of_isBlank]
        split
        · rfl
        · rw [← hs]
      · rw [takeExponent, if_pos letter]
        simp only
        split
        · exact digits.steady
        · exact h
    · have none := other letter
      refine ⟨?_, none t ▸ h⟩
      rw [none, hs, none]

/-- The percent sign behind a numeral, if there is one. -/
def takePercent (value : Float) (signed : Bool) : Text → Numeral × Text
  | '%' :: rest => (⟨percentValue value, signed, true⟩, rest)
  | t => (⟨toSingle value, signed, false⟩, t)

theorem takePercent_of_not (value : Float) (signed : Bool) {t : Text} (h : ¬ ['%'] <+: t) :
    takePercent value signed t = (⟨toSingle value, signed, false⟩, t) :=
  takePercent.eq_2 _ _ _ fun rest heq => h ⟨rest, heq.symm⟩

theorem takePercent_commutes (value : Float) (signed : Bool) {s : Text} (h : Steady s) :
    Commutes (takePercent value signed) s := by
  refine .follow (w := ['%']) (forall_eq_false rfl) (fun _ => rfl)
    (fun _ => takePercent_of_not value signed) ?_ (.keep _ h)
  rintro t rfl
  exact .keep _ (h.tail (by decide))

/-- The value of a numeral, from its parts. -/
def scaled (sign whole fraction : Float) : Option Float → Float
  | some exponent => sign * (whole + fraction) * Float.pow 10.0 exponent
  | none => sign * (whole + fraction)

/-- A numeral is read part by part. -/
theorem takeNumeral_eq (t : Text) :
    takeNumeral t =
      let sign := readSign t
      let digits := readDigits sign.2
      let fraction := takeFraction digits.2
      let exponent := takeExponent fraction.2
      takePercent (scaled sign.1.2 (wholePart digits.1) fraction.1 exponent.1) sign.1.1
        exponent.2 := by
  simp only [takeNumeral, readSign, readDigits]
  split
  · rename_i percent
    rw [percent]
    cases (takeExponent _).1 <;> rfl
  · rename_i other
    rw [takePercent.eq_2 _ _ _ other]
    cases (takeExponent _).1 <;> rfl

theorem takeNumeral_commutes {s : Text} (h : Steady s) : Commutes takeNumeral s := by
  have sign := readSign_commutes h
  have digits := readDigits_commutes sign.steady
  have fraction := takeFraction_commutes digits.steady
  have exponent := takeExponent_commutes fraction.steady
  have whole := sign.bind fun signed => digits.bind fun whole => fraction.bind fun part =>
    exponent.bind fun power =>
      takePercent_commutes (scaled signed.2 (wholePart whole) part power) signed.1 exponent.steady
  exact funext takeNumeral_eq ▸ whole

/-! ## Tokens -/

/-- The unit behind a numeral. -/
def takeUnit (n : Numeral) (t : Text) : Token × Text :=
  if n.percent then (.numeral n.value n.signed ['%'], t)
  else if startsName t then (.numeral n.value n.signed (takeName 0 t).1, (takeName 0 t).2)
  else (.numeral n.value n.signed [], t)

theorem takeMeasure_commutes {s : Text} (h : Steady s) : Commutes takeMeasure s := by
  have numeral := takeNumeral_commutes h
  have rest := numeral.steady
  have unit (n : Numeral) : Commutes (takeUnit n) (takeNumeral s).2 := by
    refine .ite rfl (.keep _ rest) (.ite (startsName_collapseAfter rest) ?_ (.keep _ rest))
    exact (takeName_commutes rest).map _
  exact numeral.bind unit

theorem takeMatcher_commutes (c : Char) {s : Text} (h : Steady s) : Commutes (takeMatcher c) s := by
  refine .follow (w := ['=']) (forall_eq_false rfl) (fun _ => rfl) ?_ ?_
    (.keep (.delim c) h)
  · exact fun t other => takeMatcher.eq_2 _ _ fun rest heq => other ⟨rest, heq.symm⟩
  · rintro t rfl
    exact .keep _ (h.tail (by decide))

theorem takeAtKeyword_commutes {s : Text} (h : Steady s) : Commutes takeAtKeyword s :=
  .ite (startsName_collapseAfter h) ((takeName_commutes h).map _) (.keep _ h)

/-- Whether a text goes on with a digit or a hyphen, as a name behind a hash may. -/
def startsAnyPart : Text → Bool
  | c :: _ => c.isDigit || c == '-'
  | [] => false

theorem startsAnyPart_collapseAfter {s : Text} (h : Steady s) :
    startsAnyPart (collapseAfter s) = startsAnyPart s := by
  refine h.same ?_ fun _ _ _ _ => rfl
  intro b t hb
  have none := of_isCssBlank (p := fun b => ! (b.isDigit || b == '-')) (by decide) hb
  rwa [Bool.not_eq_true'] at none

theorem takeHash_commutes {s : Text} (h : Steady s) : Commutes takeHash s := by
  refine .ite (p := fun t => startsName t || startsAnyPart t) ?_ ((takeName_commutes h).map _)
    (.keep _ h)
  rw [startsName_collapseAfter h, startsAnyPart_collapseAfter h]

/-- What a name is: that of a function or an address where a parenthesis follows it, and an
identifier otherwise. -/
def takeCall (name : Text) (t : Text) : Token × Text :=
  match t with
  | '(' :: after =>
    if name.sameAscii "url" then
      match afterAddress? after with
      | some rest => (.address, rest)
      | none => (.function name, after)
    else (.function name, after)
  | _ => (.ident name, t)

theorem takeCall_commutes (name : Text) {s : Text} (h : Steady s) : Commutes (takeCall name) s := by
  refine .follow (w := ['(']) (forall_eq_false rfl) (fun _ => rfl) ?_ ?_
    (.keep (.ident name) h)
  · intro t other
    unfold takeCall
    split
    · rename_i after
      exact absurd ⟨after, rfl⟩ other
    · rfl
  · rintro t rfl
    have after : Steady t := h.tail (by decide)
    refine .ite rfl ?_ (.keep _ after)
    obtain ⟨rest, steady, address, address'⟩ := afterAddress?_collapseAfter after
    refine ⟨?_, ?_⟩
    · simp only [List.append_eq, List.nil_append, address, address']
    · simp only [List.append_eq, List.nil_append, address]
      exact steady

theorem takeIdentLike_commutes {s : Text} (h : Steady s) : Commutes takeIdentLike s := by
  have name := takeName_commutes h
  exact name.bind fun n => takeCall_commutes n name.steady

theorem startsNumeral_cons_collapseAfter {c : Char} (ink : isBlank c = false) {s : Text}
    (h : Steady (c :: s)) : startsNumeral (c :: collapseAfter s) = startsNumeral (c :: s) := by
  rw [← collapseAfter_cons ink, startsNumeral_collapseAfter h]

theorem startsName_cons_collapseAfter {c : Char} (ink : isBlank c = false) {s : Text}
    (h : Steady (c :: s)) : startsName (c :: collapseAfter s) = startsName (c :: s) := by
  rw [← collapseAfter_cons ink, startsName_collapseAfter h]

/-- A hyphen begins a numeral, an arrow or a name, or stands by itself. -/
theorem takeToken_hyphen_commutes {s : Text} (h : Steady ('-' :: s)) :
    Commutes (takeToken '-') s := by
  have rest := h.tail (by decide)
  have measure := ((takeMeasure_commutes h).cons rfl).map some
  have identLike := ((takeIdentLike_commutes h).cons rfl).map some
  refine .ite (p := fun t => startsNumeral ('-' :: t)) (startsNumeral_cons_collapseAfter rfl h)
    measure ?_
  refine .follow (w := ['-', '>']) (forall_eq_false rfl) (fun _ => rfl) ?_ ?_
    (.ite (p := fun t => startsName ('-' :: t)) (startsName_cons_collapseAfter rfl h)
      identLike (.keep (some (.delim '-')) rest))
  · intro t other
    split
    · rename_i after
      exact absurd ⟨after, rfl⟩ other
    · rfl
  · rintro t rfl
    exact .keep _ ((rest.tail (by decide)).tail (by decide))

/-- A slash begins a comment or stands by itself. -/
theorem takeToken_slash_commutes {s : Text} (rest : Steady s) : Commutes (takeToken '/') s := by
  refine .follow (w := ['*']) (forall_eq_false rfl) (fun _ => rfl) ?_ ?_ (.keep (some (.delim '/')) rest)
  · intro t other
    simp only [takeToken]
    split
    · rename_i after
      exact absurd ⟨after, rfl⟩ other
    · rfl
  · rintro t rfl
    refine ⟨?_, skipComment_steady (rest.tail (by decide))⟩
    show (none, skipComment (collapseAfter t)) = (none, collapseAfter (skipComment t))
    rw [skipComment_collapse_behind, skipComment_collapse]

theorem takeToken_angle_commutes {s : Text} (rest : Steady s) : Commutes (takeToken '<') s := by
  refine .follow (w := ['!', '-', '-']) (forall_eq_false rfl) (fun _ => rfl) ?_ ?_
    (.keep (some (.delim '<')) rest)
  · intro t other
    simp only [takeToken]
    split
    · rename_i after
      exact absurd ⟨after, rfl⟩ other
    · rfl
  · rintro t rfl
    exact .keep _ (((rest.tail (by decide)).tail (by decide)).tail (by decide))

/-- A backslash begins a name, for what stands behind it is an escape. -/
theorem takeToken_backslash_commutes {r : Text} (h : Steady ('\\' :: r)) :
    Commutes (takeToken '\\') r := by
  have identLike := ((takeIdentLike_commutes h).cons rfl).map some
  obtain ⟨s, escaped, -⟩ := h.escaped
  have facts := escaped.escapes
  refine ⟨?_, ?_⟩
  · rw [takeToken_backslash facts.line', takeToken_backslash facts.line, identLike.eq]
  · rw [takeToken_backslash facts.line]
    exact identLike.steady

/-- A token is read alike, and what comes after it stays steady. -/
theorem takeToken_commutes {c : Char} {s : Text} (h : Steady (c :: s)) (ink : isBlank c = false) :
    Commutes (takeToken c) s := by
  by_cases backslash : c = '\\'
  · subst backslash
    exact takeToken_backslash_commutes h
  have rest := h.tail backslash
  have only (token : Token) : Commutes (fun t => (some token, t)) s := .keep _ rest
  have measure := ((takeMeasure_commutes h).cons ink).map some
  by_cases sign : c ∈ signs
  · obtain ⟨token, htoken⟩ := takeToken_of_mem_signs sign
    exact funext htoken ▸ only token
  by_cases matcher : c ∈ matchers
  · exact funext (takeToken_of_mem_matchers matcher) ▸ (takeMatcher_commutes c rest).map some
  by_cases point : c = '+' ∨ c = '.'
  · refine funext (takeToken_point point) ▸ .ite ?_ measure (only _)
    exact startsNumeral_cons_collapseAfter ink h
  by_cases mark : c ∈ marks
  · have unquoted := h.unquoted c rfl
    simp only [marks, List.mem_append, List.mem_cons, List.not_mem_nil, or_false] at mark
    rcases mark with
      ((rfl | rfl | rfl | rfl | plus | dot | rfl | rfl | rfl | escape) | hmem) | hmem
    · cases unquoted
    · cases unquoted
    · exact (takeHash_commutes rest).map some
    · exact (takeAtKeyword_commutes rest).map some
    · exact absurd (.inl plus) point
    · exact absurd (.inr dot) point
    · exact takeToken_hyphen_commutes h
    · exact takeToken_slash_commutes rest
    · exact takeToken_angle_commutes rest
    · exact absurd escape backslash
    · exact absurd hmem sign
    · exact absurd hmem matcher
  · have identLike := ((takeIdentLike_commutes h).cons ink).map some
    refine funext (takeToken_of_not_mem_marks mark) ▸ ?_
    simp only [isCssBlank_of_not_isBlank ink, Bool.false_eq_true, if_false]
    exact .ite rfl measure (.ite rfl identLike (only _))

end StyleTypings.Css
