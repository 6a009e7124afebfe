/-
Tokens — how the tokenizer moves through a text.

Every reader leaves a suffix of the text it was given (`takeToken_suffix`).  So what a
token says has been read somewhere in the text; for an identifier this means that its
name is the one at the beginning of some suffix (`ident_mem_tokens`).
-/
import StyleTypings.Css.Token
import Mathlib.Data.List.Infix

namespace StyleTypings.Css

/-! ## Names and strings -/

theorem takeName_suffix (skip : Nat) (t : Text) : (takeName skip t).2 <:+ t := by
  induction t generalizing skip with
  | nil => cases skip <;> exact List.suffix_refl _
  | cons c rest ih =>
    cases skip with
    | succ skip => exact (ih skip).trans (List.suffix_cons c rest)
    | zero =>
      rw [takeName]
      split
      · split
        · exact List.suffix_refl _
        · exact (ih _).trans (List.suffix_cons c rest)
      · split
        · exact (ih 0).trans (List.suffix_cons c rest)
        · exact List.suffix_refl _

theorem takeString_suffix (quote : Char) (skip : Nat) (t : Text) :
    (takeString quote skip t).2 <:+ t := by
  induction t generalizing skip with
  | nil => cases skip <;> exact List.suffix_refl _
  | cons c rest ih =>
    cases skip with
    | succ skip => exact (ih skip).trans (List.suffix_cons c rest)
    | zero =>
      rw [takeString]
      split
      · exact List.suffix_cons c rest
      split
      · exact List.suffix_refl _
      split
      · split
        · exact List.nil_suffix
        split
        · exact (ih _).trans (List.suffix_cons c rest)
        · exact (ih _).trans (List.suffix_cons c rest)
      · exact (ih 0).trans (List.suffix_cons c rest)

theorem takeQuoted_suffix (quote : Char) (t : Text) : (takeQuoted quote t).2 <:+ t := by
  have h := takeString_suffix quote 0 t
  unfold takeQuoted
  split <;> simp_all

/-! ## Addresses and comments -/

/-- An address ends behind a parenthesis, or not at all. -/
theorem skipAddress_cases (state : AddressState) (skip : Nat) (s : Text) :
    skipAddress state skip s = [] ∨ ∃ u, s = u ++ ')' :: skipAddress state skip s := by
  induction s generalizing state skip with
  | nil => cases skip <;> exact .inl rfl
  | cons c s ih =>
    have later (state : AddressState) (skip : Nat) :
        skipAddress state skip s = [] ∨ ∃ u, c :: s = u ++ ')' :: skipAddress state skip s := by
      refine (ih state skip).imp id ?_
      rintro ⟨u, hu⟩
      exact ⟨c :: u, congrArg (c :: ·) hu⟩
    cases skip with
    | succ skip => exact later state skip
    | zero =>
      rw [skipAddress.eq_def]
      simp only
      split
      · rename_i paren
        rw [paren]
        exact .inr ⟨[], rfl⟩
      cases state with
      | content =>
        simp only
        split
        · exact later _ _
        split
        · exact later _ _
        split
        · split
          · exact later _ _
          · exact later _ _
        · exact later _ _
      | gap => exact later _ _
      | spoiled =>
        simp only
        split <;> exact later _ _

theorem skipAddress_suffix (state : AddressState) (skip : Nat) (t : Text) :
    skipAddress state skip t <:+ t := by
  rcases skipAddress_cases state skip t with nothing | ⟨u, hu⟩
  · rw [nothing]
    exact List.nil_suffix
  · exact (List.suffix_cons ')' _).trans ⟨u, hu.symm⟩

theorem afterAddress?_suffix {t after : Text} (h : afterAddress? t = some after) : after <:+ t := by
  have hdrop : t.dropWhile isCssBlank <:+ t := List.dropWhile_suffix _
  unfold afterAddress? at h
  split at h
  · cases h
    exact List.nil_suffix
  · rename_i c rest hrest
    split at h
    · cases h
    · cases h
      rw [hrest] at hdrop
      exact (skipAddress_suffix _ _ _).trans hdrop

/-- A comment ends behind a slash, or not at all. -/
theorem skipComment_cases (s : Text) :
    skipComment s = [] ∨ ∃ u, s = u ++ '/' :: skipComment s := by
  fun_induction skipComment s with
  | case1 => exact .inl rfl
  | case2 rest => exact .inr ⟨['*'], rfl⟩
  | case3 c rest _ ih =>
    refine ih.imp id ?_
    rintro ⟨u, hu⟩
    exact ⟨c :: u, congrArg (c :: ·) hu⟩

theorem skipComment_suffix (t : Text) : skipComment t <:+ t := by
  rcases skipComment_cases t with nothing | ⟨u, hu⟩
  · rw [nothing]
    exact List.nil_suffix
  · exact (List.suffix_cons '/' _).trans ⟨u, hu.symm⟩

/-! ## Numerals -/

theorem takeSign_suffix (t : Text) : (takeSign t).2.2 <:+ t := by
  unfold takeSign
  split
  · exact List.suffix_cons _ _
  · exact List.suffix_cons _ _
  · exact List.suffix_refl _

theorem takeFraction_suffix (t : Text) : (takeFraction t).2 <:+ t := by
  unfold takeFraction
  split
  · split
    · exact (List.dropWhile_suffix _).trans (List.suffix_cons _ _)
    · exact List.suffix_refl _
  · exact List.suffix_refl _

theorem takeExponent_suffix (t : Text) : (takeExponent t).2 <:+ t := by
  unfold takeExponent
  split
  · rename_i c rest
    split
    · simp only
      split
      · exact ((List.dropWhile_suffix _).trans (takeSign_suffix rest)).trans (List.suffix_cons c rest)
      · exact List.suffix_refl _
    · exact List.suffix_refl _
  · exact List.suffix_refl _

theorem takeNumeral_suffix (t : Text) : (takeNumeral t).2 <:+ t := by
  have hsign := takeSign_suffix t
  have hwhole : (takeSign t).2.2.dropWhile Char.isDigit <:+ t :=
    (List.dropWhile_suffix _).trans hsign
  have hfraction := (takeFraction_suffix _).trans hwhole
  have hexponent := (takeExponent_suffix _).trans hfraction
  simp only [takeNumeral]
  split
  · rename_i rest hrest
    rw [hrest] at hexponent
    exact (List.suffix_cons _ _).trans hexponent
  · exact hexponent

theorem takeMeasure_suffix (t : Text) : (takeMeasure t).2 <:+ t := by
  have h := takeNumeral_suffix t
  simp only [takeMeasure]
  split
  · exact h
  split
  · exact (takeName_suffix 0 _).trans h
  · exact h

/-! ## Tokens -/

theorem takeIdentLike_suffix (t : Text) : (takeIdentLike t).2 <:+ t := by
  have h := takeName_suffix 0 t
  simp only [takeIdentLike]
  split
  · rename_i after hafter
    rw [hafter] at h
    have hafter' : after <:+ t := (List.suffix_cons _ _).trans h
    split
    · split
      · exact (afterAddress?_suffix ‹_›).trans hafter'
      · exact hafter'
    · exact hafter'
  · exact h

theorem takeMatcher_suffix (c : Char) (rest : Text) : (takeMatcher c rest).2 <:+ rest := by
  unfold takeMatcher
  split
  · exact List.suffix_cons _ _
  · exact List.suffix_refl _

theorem takeHash_suffix (rest : Text) : (takeHash rest).2 <:+ rest := by
  simp only [takeHash]
  generalize (startsName rest || _) = named
  cases named with
  | true => exact takeName_suffix 0 rest
  | false => exact List.suffix_refl _

theorem takeAtKeyword_suffix (rest : Text) : (takeAtKeyword rest).2 <:+ rest := by
  simp only [takeAtKeyword]
  split
  · exact takeName_suffix 0 rest
  · exact List.suffix_refl _

/-- A token leaves a suffix of the text it is taken from. -/
theorem takeToken_suffix (c : Char) (rest : Text) : (takeToken c rest).2 <:+ c :: rest := by
  have hrest : rest <:+ c :: rest := List.suffix_cons c rest
  have measure := takeMeasure_suffix (c :: rest)
  have identLike := takeIdentLike_suffix (c :: rest)
  unfold takeToken
  split
  case h_1 => exact (takeQuoted_suffix _ _).trans hrest
  case h_2 => exact (takeQuoted_suffix _ _).trans hrest
  case h_3 => exact (takeHash_suffix _).trans hrest
  case h_4 => exact (takeAtKeyword_suffix _).trans hrest
  case h_14 => exact (takeMatcher_suffix _ _).trans hrest
  case h_15 => exact (takeMatcher_suffix _ _).trans hrest
  case h_16 => exact (takeMatcher_suffix _ _).trans hrest
  case h_17 => exact (takeMatcher_suffix _ _).trans hrest
  case h_18 => exact (takeMatcher_suffix _ _).trans hrest
  case h_19 => split <;> assumption
  case h_20 => split <;> assumption
  case h_21 =>
    split
    · exact measure
    · split
      · exact ((List.suffix_cons _ _).trans (List.suffix_cons _ _)).trans hrest
      · split <;> assumption
  case h_22 =>
    split
    · exact ((skipComment_suffix _).trans (List.suffix_cons _ _)).trans hrest
    · exact hrest
  case h_23 =>
    split
    · exact (((List.suffix_cons _ _).trans (List.suffix_cons _ _)).trans
        (List.suffix_cons _ _)).trans hrest
    · exact hrest
  case h_24 => split <;> assumption
  case h_25 =>
    split
    · exact (List.dropWhile_suffix _).trans hrest
    split
    · exact measure
    split
    · exact identLike
    · exact hrest
  all_goals exact hrest

/-! ## Identifiers -/

theorem takeQuoted_ne_ident (quote : Char) (t name : Text) : (takeQuoted quote t).1 ≠ .ident name := by
  unfold takeQuoted
  split <;> nofun

theorem takeHash_ne_ident (rest name : Text) : (takeHash rest).1 ≠ .ident name := by
  simp only [takeHash]
  generalize (startsName rest || _) = named
  cases named <;> nofun

theorem takeAtKeyword_ne_ident (rest name : Text) : (takeAtKeyword rest).1 ≠ .ident name := by
  simp only [takeAtKeyword]
  split <;> nofun

theorem takeMatcher_ne_ident (c : Char) (rest name : Text) :
    (takeMatcher c rest).1 ≠ .ident name := by
  unfold takeMatcher
  split <;> nofun

theorem takeMeasure_ne_ident (t name : Text) : (takeMeasure t).1 ≠ .ident name := by
  simp only [takeMeasure]
  split
  · nofun
  split <;> nofun

theorem takeIdentLike_ident {t name : Text} (h : (takeIdentLike t).1 = .ident name) :
    (takeName 0 t).1 = name := by
  simp only [takeIdentLike] at h
  split at h
  · split at h
    · split at h <;> cases h
    · cases h
  · cases h
    rfl

/-- An identifier has the name at the beginning of the text it is taken from. -/
theorem takeToken_ident {c : Char} {rest name : Text}
    (h : (takeToken c rest).1 = some (.ident name)) : (takeName 0 (c :: rest)).1 = name := by
  unfold takeToken at h
  split at h
  case h_1 => exact absurd (Option.some.inj h) (takeQuoted_ne_ident _ _ _)
  case h_2 => exact absurd (Option.some.inj h) (takeQuoted_ne_ident _ _ _)
  case h_3 => exact absurd (Option.some.inj h) (takeHash_ne_ident _ _)
  case h_4 => exact absurd (Option.some.inj h) (takeAtKeyword_ne_ident _ _)
  case h_14 => exact absurd (Option.some.inj h) (takeMatcher_ne_ident _ _ _)
  case h_15 => exact absurd (Option.some.inj h) (takeMatcher_ne_ident _ _ _)
  case h_16 => exact absurd (Option.some.inj h) (takeMatcher_ne_ident _ _ _)
  case h_17 => exact absurd (Option.some.inj h) (takeMatcher_ne_ident _ _ _)
  case h_18 => exact absurd (Option.some.inj h) (takeMatcher_ne_ident _ _ _)
  case h_19 =>
    split at h
    · exact absurd (Option.some.inj h) (takeMeasure_ne_ident _ _)
    · cases h
  case h_20 =>
    split at h
    · exact absurd (Option.some.inj h) (takeMeasure_ne_ident _ _)
    · cases h
  case h_21 =>
    split at h
    · exact absurd (Option.some.inj h) (takeMeasure_ne_ident _ _)
    split at h
    · cases h
    split at h
    · exact takeIdentLike_ident (Option.some.inj h)
    · cases h
  case h_22 => split at h <;> cases h
  case h_23 => split at h <;> cases h
  case h_24 =>
    split at h
    · cases h
    · exact takeIdentLike_ident (Option.some.inj h)
  case h_25 =>
    split at h
    · cases h
    split at h
    · exact absurd (Option.some.inj h) (takeMeasure_ne_ident _ _)
    split at h
    · exact takeIdentLike_ident (Option.some.inj h)
    · cases h
  all_goals cases h

theorem ident_mem_tokensWithin {steps : Nat} {t name : Text}
    (h : .ident name ∈ tokensWithin steps t) : ∃ s, s <:+ t ∧ (takeName 0 s).1 = name := by
  induction steps generalizing t with
  | zero => cases h
  | succ steps ih =>
    cases t with
    | nil => cases h
    | cons c rest =>
      rcases List.mem_append.mp h with hfirst | hlater
      · exact ⟨c :: rest, List.suffix_refl _, takeToken_ident (Option.mem_toList.mp hfirst)⟩
      · obtain ⟨s, hs, hname⟩ := ih hlater
        exact ⟨s, hs.trans (takeToken_suffix c rest), hname⟩

/-- The name of every identifier of a text begins some suffix of the text. -/
theorem ident_mem_tokens {t name : Text} (h : .ident name ∈ tokens t) :
    ∃ s, s <:+ t ∧ (takeName 0 s).1 = name :=
  ident_mem_tokensWithin h

end StyleTypings.Css
