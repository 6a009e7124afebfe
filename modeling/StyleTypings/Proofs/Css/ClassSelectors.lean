/-
Class selectors — a point with a name that is spelled.

A spelling of a name begins like a name: a digit that would begin a number, and a
hyphen by itself, are escaped.  So the tokenizer takes the point for a point and the
spelling for one identifier, and the selector mentions the name and no other class
(`ofSelector_of_spells`).
-/
import StyleTypings.Proofs.Css.Components
import StyleTypings.Proofs.Css.Spelling

namespace StyleTypings.Css

/-! ## How a spelling begins -/

theorem isNameStart_of_isNamePart {c : Char} (part : isNamePart c = true)
    (digit : c.isDigit = false) (hyphen : c ≠ '-') : isNameStart c = true := by
  simpa [isNamePart, digit, hyphen] using part

theorem isDigit_of_isNameStart {c : Char} (h : isNameStart c = true) : c.isDigit = false := by
  by_cases ascii : c.toNat < 128
  · exact forall_ascii (P := fun c => isNameStart c = true → c.isDigit = false)
      (by decide +kernel) ascii h
  · by_contra digit
    simp only [Bool.not_eq_false, Char.isDigit_iff_toNat, Char.reduceToNat] at digit
    omega

/-- How the character that begins a name is written: as itself, if it can begin a name
or is a hyphen, or with a backslash. -/
theorem spellFirst_cases (c : Char) :
    (spellFirst c = [c] ∧ (isNameStart c = true ∨ c = '-')) ∨
    ∃ d rest, spellFirst c = '\\' :: d :: rest ∧ isNewline d = false := by
  have coded : isCoded c = true → ∃ d rest, spellCode c = '\\' :: d :: rest ∧ isNewline d = false := by
    intro code
    have facts := codeFacts code
    obtain ⟨d, ds, hdigits⟩ := List.exists_cons_of_ne_nil facts.ne_nil
    have hd := facts.digits d (hdigits ▸ List.mem_cons_self)
    exact ⟨d, ds ++ [' '], by simp [spellCode, hdigits], atNewline_of_isHexDigit hd []⟩
  unfold spellFirst
  by_cases digit : c.isDigit = true
  · rw [if_pos digit]
    exact .inr (coded (by simp [isCoded, digit]))
  rw [if_neg digit, spellChar]
  by_cases control : isControl c = true
  · rw [if_pos control]
    exact .inr (coded (by simp [isCoded, control]))
  rw [if_neg control]
  by_cases part : isNamePart c = true
  · rw [if_pos part]
    refine .inl ⟨rfl, ?_⟩
    by_cases hyphen : c = '-'
    · exact .inr hyphen
    · exact .inl (isNameStart_of_isNamePart part (Bool.eq_false_iff.mpr digit) hyphen)
  · rw [if_neg part]
    exact .inr ⟨c, [], rfl, isNewline_of_isControl (Bool.eq_false_iff.mpr control)⟩

theorem startsName_of_isNameStart {c : Char} (h : isNameStart c = true) (rest : Text) :
    startsName (c :: rest) = true := by
  unfold startsName
  split
  case h_1 heq => cases heq
  case h_2 heq =>
    obtain ⟨rfl, _⟩ := List.cons.inj heq
    exact absurd h (by decide)
  case h_3 heq =>
    obtain ⟨rfl, _⟩ := List.cons.inj heq
    exact absurd h (by decide)
  case h_4 heq =>
    obtain ⟨rfl, _⟩ := List.cons.inj heq
    exact absurd h (by decide)
  case h_5 heq =>
    obtain ⟨rfl, _⟩ := List.cons.inj heq
    exact h

/-- A name is written so that it begins like one, whatever comes after it. -/
theorem startsName_spellName_append {n : Text} (ne : n ≠ []) (after : Text) :
    startsName (spellName n ++ after) = true := by
  fun_cases spellName n with
  | case1 => exact absurd rfl ne
  | case2 => rfl
  | case3 c rest =>
    obtain ⟨hfirst, hc⟩ | ⟨d, rest', hfirst, _⟩ := spellFirst_cases c
    · rw [hfirst]
      obtain hc | rfl := hc
      · simp [startsName, hc]
      · rfl
    · rw [hfirst]
      rfl
  | case4 c rest single hyphen =>
    obtain ⟨hfirst, hc⟩ | ⟨d, rest', hfirst, hd⟩ := spellFirst_cases c
    · rw [hfirst]
      obtain hc | rfl := hc
      · exact startsName_of_isNameStart hc _
      · cases rest with
        | nil => exact absurd rfl (single rfl)
        | cons d rest => exact absurd rfl (hyphen d rest rfl)
    · rw [hfirst]
      simp [startsName, atNewline, hd]

theorem startsName_spellName {n : Text} (ne : n ≠ []) : startsName (spellName n) = true := by
  simpa using startsName_spellName_append ne []

/-- What a text that begins like a name begins with. -/
theorem startsName_cases {c : Char} {rest : Text} (h : startsName (c :: rest) = true) :
    (c = '-' ∧ ∃ d after, rest = d :: after ∧ (isNameStart d = true ∨ d = '-' ∨ d = '\\')) ∨
    (c = '\\' ∧ atNewline rest = false) ∨ isNameStart c = true := by
  unfold startsName at h
  split at h
  case h_1 heq => cases heq
  case h_2 heq => cases h
  case h_3 d after heq =>
    obtain ⟨rfl, rfl⟩ := List.cons.inj heq
    refine .inl ⟨rfl, d, after, rfl, ?_⟩
    simpa [or_assoc] using h
  case h_4 heq =>
    obtain ⟨rfl, rfl⟩ := List.cons.inj heq
    exact .inr (.inl ⟨rfl, by simpa using h⟩)
  case h_5 heq =>
    obtain ⟨rfl, rfl⟩ := List.cons.inj heq
    exact .inr (.inr h)

/-- The blank that ends a code is not needed to begin like a name. -/
theorem startsName_of_append_blank {t : Text} (h : startsName (t ++ [' ']) = true) :
    startsName t = true := by
  cases t with
  | nil => exact absurd h (by decide)
  | cons c rest =>
    obtain ⟨rfl, d, after, hrest, hd⟩ | ⟨rfl, hline⟩ | hc := startsName_cases h
    · cases rest with
      | nil =>
        obtain ⟨rfl, _⟩ := List.cons.inj hrest
        exact absurd hd (by decide)
      | cons e rest => exact h
    · cases rest with
      | nil => rfl
      | cons e rest => exact h
    · exact startsName_of_isNameStart hc rest

/-! ## Reading -/

theorem atDigit_of_startsName {t : Text} (h : startsName t = true) : atDigit t = false := by
  cases t with
  | nil => rfl
  | cons c rest =>
    obtain ⟨rfl, _⟩ | ⟨rfl, _⟩ | hc := startsName_cases h
    · rfl
    · rfl
    · exact isDigit_of_isNameStart hc

theorem startsNumeral_hyphen {rest : Text} (h : startsName ('-' :: rest) = true) :
    startsNumeral ('-' :: rest) = false := by
  obtain ⟨_, d, after, rfl, hd⟩ | ⟨hc, _⟩ | hc := startsName_cases h
  · show startsUnsigned (d :: after) = false
    obtain hd | rfl | rfl := hd
    · unfold startsUnsigned
      split
      case h_1 heq =>
        obtain ⟨rfl, _⟩ := List.cons.inj heq
        exact absurd hd (by decide)
      case h_2 => exact isDigit_of_isNameStart hd
    · rfl
    · rfl
  · exact absurd hc (by decide)
  · exact absurd hc (by decide)

theorem isCssBlank_of_isNameStart {c : Char} (h : isNameStart c = true) : isCssBlank c = false := by
  simp only [isCssBlank, isNewline, Bool.or_eq_false_iff, beq_eq_false_iff_ne]
  refine ⟨⟨?_, ?_⟩, ⟨?_, ?_⟩, ?_⟩
  all_goals
    rintro rfl
    exact absurd h (by decide)

/-- What begins like a name is read as one. -/
theorem takeToken_of_startsName {c : Char} {rest : Text} (h : startsName (c :: rest) = true)
    (arrow : c = '-' → ∀ after, rest ≠ '-' :: '>' :: after) :
    takeToken c rest = (some (takeIdentLike (c :: rest)).1, (takeIdentLike (c :: rest)).2) := by
  unfold takeToken
  split
  case h_21 =>
    rw [startsNumeral_hyphen h, if_neg Bool.false_ne_true]
    split
    · exact absurd rfl (arrow rfl _)
    · rw [if_pos h]
  case h_24 =>
    obtain ⟨hc, _⟩ | ⟨_, hline⟩ | hc := startsName_cases h
    · exact absurd hc (by decide)
    · rw [hline, if_neg Bool.false_ne_true]
    · exact absurd hc (by decide)
  case h_25 minus _ _ backslash =>
    obtain ⟨hc, _⟩ | ⟨hc, _⟩ | hc := startsName_cases h
    · exact absurd hc minus
    · exact absurd hc backslash
    · rw [isCssBlank_of_isNameStart hc, if_neg Bool.false_ne_true, isDigit_of_isNameStart hc,
        if_neg Bool.false_ne_true, if_pos hc]
  all_goals exact absurd h Bool.false_ne_true

/-- A point and the spelling of a name are the point and one identifier. -/
theorem tokens_of_spells {t n : Text} (spells : Spells t n) (begins : startsName t = true) :
    tokens ('.' :: t) = [.delim '.', .ident n] := by
  have point : takeToken '.' t = (some (.delim '.'), t) := by
    have numeral : startsNumeral ('.' :: t) = false := atDigit_of_startsName begins
    simp [takeToken, numeral]
  cases t with
  | nil => exact absurd begins (by decide)
  | cons c rest =>
    have name : takeIdentLike (c :: rest) = (.ident n, []) := by
      rw [takeIdentLike, takeName_of_spells spells]
    have first : takeToken c rest = (some (.ident n), []) := by
      rw [takeToken_of_startsName begins, name]
      rintro rfl after rfl
      obtain ⟨_, _, rfl, after_hyphen⟩ := spells.of_ne_backslash (by decide)
      obtain ⟨_, _, rfl, arrow⟩ := after_hyphen.of_ne_backslash (by decide)
      exact absurd (arrow.of_ne_backslash (by decide)).1 (by decide)
    rw [tokens, List.length_cons, List.length_cons, tokensWithin, point]
    simp only
    rw [tokensWithin, first]
    cases rest.length <;> rfl

end StyleTypings.Css

namespace StyleTypings.Classes

open Css

/-- A point and the spelling of a name mention the name, and no other class. -/
theorem ofSelector_of_spells {t n : Text} (spells : Spells t n) (begins : startsName t = true) :
    ofSelector ('.' :: t) = [n] := by
  rw [ofSelector, components, tokens_of_spells spells begins]
  rfl

end StyleTypings.Classes
