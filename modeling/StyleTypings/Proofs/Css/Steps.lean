/-
Steps — the tokens of a text, one after the other.

The first character of a text decides what is read.  Whatever it is, a token takes at least
one character (`takeToken_length_le`), so as many steps as a text has characters are enough
for it, and more make no difference (`tokensWithin_eq`): the tokens of a text are the token
at its beginning and the tokens of what comes after that (`tokens_cons`).
-/
import StyleTypings.Proofs.Css.ClassSelectors

namespace StyleTypings.Css

/-! ## The first character -/

/-- The characters that are tokens whatever comes after them. -/
def signs : List Char := ['(', ')', '[', ']', '{', '}', ',', ':', ';']

/-- The characters that make a sign with an equals sign. -/
def matchers : List Char := ['$', '*', '^', '|', '~']

theorem takeToken_of_mem_signs {c : Char} (h : c ∈ signs) :
    ∃ token, ∀ t, takeToken c t = (some token, t) := by
  simp only [signs, List.mem_cons, List.not_mem_nil, or_false] at h
  rcases h with rfl | rfl | rfl | rfl | rfl | rfl | rfl | rfl | rfl <;> exact ⟨_, fun _ => rfl⟩

theorem takeToken_of_mem_matchers {c : Char} (h : c ∈ matchers) (t : Text) :
    takeToken c t = (some (takeMatcher c t).1, (takeMatcher c t).2) := by
  simp only [matchers, List.mem_cons, List.not_mem_nil, or_false] at h
  rcases h with rfl | rfl | rfl | rfl | rfl <;> rfl

theorem takeToken_point {c : Char} (h : c = '+' ∨ c = '.') (t : Text) :
    takeToken c t =
      if startsNumeral (c :: t) then (some (takeMeasure (c :: t)).1, (takeMeasure (c :: t)).2)
      else (some (.delim c), t) := by
  rcases h with rfl | rfl <;> rfl

theorem takeToken_backslash {t : Text} (line : atNewline t = false) :
    takeToken '\\' t = (some (takeIdentLike ('\\' :: t)).1, (takeIdentLike ('\\' :: t)).2) := by
  show (if atNewline t then _ else _) = _
  rw [line, if_neg Bool.false_ne_true]

/-- The characters that are looked at before all others where a token begins. -/
def marks : List Char :=
  ['"', '\'', '#', '@', '+', '.', '-', '/', '<', '\\'] ++ signs ++ matchers

theorem takeToken_of_not_mem_marks {c : Char} (h : c ∉ marks) (t : Text) :
    takeToken c t =
      if isCssBlank c then (some .blank, t.dropWhile isCssBlank)
      else if c.isDigit then (some (takeMeasure (c :: t)).1, (takeMeasure (c :: t)).2)
      else if isNameStart c then (some (takeIdentLike (c :: t)).1, (takeIdentLike (c :: t)).2)
      else (some (.delim c), t) := by
  unfold takeToken
  split
  case h_25 => rfl
  all_goals exact absurd (by decide) h

theorem takeSign_cons {c : Char} (minus : c ≠ '-') (plus : c ≠ '+') (t : Text) :
    takeSign (c :: t) = (false, 1.0, c :: t) := by
  unfold takeSign
  split
  · rename_i heq
    exact absurd (List.cons.inj heq).1 minus
  · rename_i heq
    exact absurd (List.cons.inj heq).1 plus
  · rfl

theorem startsUnsigned_cons {c : Char} (point : c ≠ '.') (t : Text) :
    startsUnsigned (c :: t) = c.isDigit := by
  unfold startsUnsigned
  split
  · rename_i heq
    exact absurd (List.cons.inj heq).1 point
  · rfl

theorem startsNumeral_of_isDigit {c : Char} (h : c.isDigit = true) (t : Text) :
    startsNumeral (c :: t) = true := by
  have other {d : Char} (hd : d.isDigit = false) : c ≠ d := by
    rintro rfl
    exact absurd (h.symm.trans hd) (by decide)
  rw [startsNumeral, takeSign_cons (other (by decide)) (other (by decide)),
    startsUnsigned_cons (other (by decide)), h]

/-! ## Progress -/

theorem length_takeName_lt {t : Text} (h : startsName t = true) :
    (takeName 0 t).2.length < t.length := by
  cases t with
  | nil => cases h
  | cons c rest =>
    have taken {s : Text} (hs : s <:+ rest) : s.length < (c :: rest).length :=
      Nat.lt_succ_of_le hs.length_le
    have part (hc : isNamePart c = true) :
        (takeName 0 (c :: rest)).2.length < (c :: rest).length := by
      rw [takeName, if_neg (ne_backslash_of_isNamePart hc), if_pos hc]
      exact taken (takeName_suffix 0 rest)
    obtain ⟨rfl, -⟩ | ⟨rfl, line⟩ | begins := startsName_cases h
    · exact part (by decide)
    · rw [takeName, if_pos rfl, line, if_neg Bool.false_ne_true]
      exact taken (takeName_suffix _ rest)
    · exact part (by simp [isNamePart, begins])

/-- What makes a name a function or an address comes after the name. -/
theorem takeIdentLike_suffix_takeName (t : Text) : (takeIdentLike t).2 <:+ (takeName 0 t).2 := by
  simp only [takeIdentLike]
  split
  · rename_i after hafter
    rw [hafter]
    have behind := List.suffix_cons '(' after
    split
    · split
      · exact (afterAddress?_suffix ‹_›).trans behind
      · exact behind
    · exact behind
  · exact List.suffix_refl _

theorem length_takeIdentLike_lt {t : Text} (h : startsName t = true) :
    (takeIdentLike t).2.length < t.length :=
  (takeIdentLike_suffix_takeName t).length_le.trans_lt (length_takeName_lt h)

/-- A numeral takes its digits, or its point and the digits behind it. -/
theorem length_takeFraction_lt {t : Text} (h : startsUnsigned t = true) :
    (takeFraction (t.dropWhile Char.isDigit)).2.length < t.length := by
  unfold startsUnsigned at h
  split at h
  · rename_i rest
    rw [List.dropWhile_cons_of_neg (by decide), takeFraction, if_pos h]
    exact Nat.lt_succ_of_le (List.dropWhile_suffix _).length_le
  · cases t with
    | nil => cases h
    | cons d rest =>
      have digit : d.isDigit = true := h
      rw [List.dropWhile_cons_of_pos digit]
      have rest := (takeFraction_suffix _).trans (List.dropWhile_suffix (l := rest) Char.isDigit)
      exact Nat.lt_succ_of_le rest.length_le

theorem length_takeNumeral_lt {t : Text} (h : startsNumeral t = true) :
    (takeNumeral t).2.length < t.length := by
  have sign := (takeSign_suffix t).length_le
  have fraction := length_takeFraction_lt h
  have exponent := (takeExponent_suffix _).length_le.trans_lt (fraction.trans_le sign)
  simp only [takeNumeral]
  split
  · rename_i rest hrest
    rw [hrest, List.length_cons] at exponent
    exact Nat.lt_of_succ_lt exponent
  · exact exponent

theorem length_takeMeasure_lt {t : Text} (h : startsNumeral t = true) :
    (takeMeasure t).2.length < t.length := by
  refine Nat.lt_of_le_of_lt ?_ (length_takeNumeral_lt h)
  simp only [takeMeasure]
  split
  · exact Nat.le_refl _
  split
  · exact (takeName_suffix 0 _).length_le
  · exact Nat.le_refl _

/-- A token takes at least one character. -/
theorem takeToken_length_le (c : Char) (rest : Text) :
    (takeToken c rest).2.length ≤ rest.length := by
  have measure (h : startsNumeral (c :: rest) = true) :
      (takeMeasure (c :: rest)).2.length ≤ rest.length :=
    Nat.le_of_lt_succ (length_takeMeasure_lt h)
  have identLike (h : startsName (c :: rest) = true) :
      (takeIdentLike (c :: rest)).2.length ≤ rest.length :=
    Nat.le_of_lt_succ (length_takeIdentLike_lt h)
  have behind {t w : Text} (h : rest = w ++ t) : t.length ≤ rest.length :=
    (h ▸ List.suffix_append w t).length_le
  by_cases sign : c ∈ signs
  · obtain ⟨token, htoken⟩ := takeToken_of_mem_signs sign
    rw [htoken]
  by_cases matcher : c ∈ matchers
  · rw [takeToken_of_mem_matchers matcher]
    exact (takeMatcher_suffix c rest).length_le
  by_cases point : c = '+' ∨ c = '.'
  · rw [takeToken_point point]
    split
    · exact measure ‹_›
    · exact Nat.le_refl _
  by_cases mark : c ∈ marks
  · simp only [marks, List.mem_append, List.mem_cons, List.not_mem_nil, or_false] at mark
    rcases mark with
      ((rfl | rfl | rfl | rfl | plus | dot | rfl | rfl | rfl | rfl) | hmem) | hmem
    · exact (takeQuoted_suffix '"' rest).length_le
    · exact (takeQuoted_suffix '\'' rest).length_le
    · exact (takeHash_suffix rest).length_le
    · exact (takeAtKeyword_suffix rest).length_le
    · exact absurd (.inl plus) point
    · exact absurd (.inr dot) point
    · simp only [takeToken]
      split
      · exact measure ‹_›
      split
      · exact behind (w := ['-', '>']) rfl
      split
      · exact identLike ‹_›
      · exact Nat.le_refl _
    · simp only [takeToken]
      split
      · rename_i after
        exact (skipComment_suffix after).length_le.trans (behind (w := ['*']) rfl)
      · exact Nat.le_refl _
    · simp only [takeToken]
      split
      · exact behind (w := ['!', '-', '-']) rfl
      · exact Nat.le_refl _
    · simp only [takeToken]
      split
      · exact Nat.le_refl _
      · rename_i line
        exact identLike (by simpa [startsName] using line)
    · exact absurd hmem sign
    · exact absurd hmem matcher
  · rw [takeToken_of_not_mem_marks mark]
    split
    · exact (List.dropWhile_suffix _).length_le
    split
    · exact measure (startsNumeral_of_isDigit ‹_› rest)
    split
    · rename_i begins
      exact identLike (startsName_of_isNameStart begins rest)
    · exact Nat.le_refl _

/-! ## All tokens -/

/-- Steps beyond the number of characters change nothing. -/
theorem tokensWithin_eq {steps : Nat} {t : Text} (enough : t.length ≤ steps) :
    tokensWithin steps t = tokens t := by
  have same {n m : Nat} {t : Text} (hn : t.length ≤ n) (hm : t.length ≤ m) :
      tokensWithin n t = tokensWithin m t := by
    induction n generalizing m t with
    | zero =>
      obtain rfl := List.eq_nil_of_length_eq_zero (Nat.le_zero.mp hn)
      cases m <;> rfl
    | succ n ih =>
      cases t with
      | nil => cases m <;> rfl
      | cons c rest =>
        cases m with
        | zero => cases hm
        | succ m =>
          have shorter := takeToken_length_le c rest
          have next := ih (shorter.trans (Nat.le_of_succ_le_succ hn))
            (shorter.trans (Nat.le_of_succ_le_succ hm))
          exact congrArg ((takeToken c rest).1.toList ++ ·) next
  exact same enough (Nat.le_refl _)

/-- The tokens of a text are the one at its beginning and those of what comes after it. -/
theorem tokens_cons (c : Char) (rest : Text) :
    tokens (c :: rest) = (takeToken c rest).1.toList ++ tokens (takeToken c rest).2 := by
  rw [← tokensWithin_eq (takeToken_length_le c rest)]
  rfl

end StyleTypings.Css
