/-
Spelling — names written so that they are read as one identifier.

`spellName` escapes a name the way a style sheet has to: a backslash before every
special character of ASCII, and a code for control characters and for a digit that
would begin a number.  `Spells t n` says that the text `t` spells the name `n`; a
reader that takes a name from `t` gets `n` and leaves nothing (`takeName_of_spells`).
-/
import StyleTypings.Css.Name
import StyleTypings.Proofs.Words

namespace StyleTypings.Css

/-! ## Spellings -/

/-- Whether a character is written by its code wherever it stands. -/
def isControl (c : Char) : Bool := (1 ≤ c.toNat && c.toNat ≤ 0x1F) || c.toNat == 0x7F

/-- The digits of a character's code. -/
def codeDigits (c : Char) : Text := Nat.toDigits 16 c.toNat

/-- A character written by its code, with the blank that ends it. -/
def spellCode (c : Char) : Text := '\\' :: codeDigits c ++ [' ']

/-- A character inside a name. -/
def spellChar (c : Char) : Text :=
  if isControl c then spellCode c else if isNamePart c then [c] else ['\\', c]

/-- A character where a digit would begin a number. -/
def spellFirst (c : Char) : Text := if c.isDigit then spellCode c else spellChar c

/-- A name with everything in it escaped that has to be. -/
def spellName : Text → Text
  | [] => []
  | ['-'] => ['\\', '-']
  | '-' :: c :: rest => '-' :: spellFirst c ++ rest.flatMap spellChar
  | c :: rest => spellFirst c ++ rest.flatMap spellChar

/-- Whether a character may be written by its code: the control characters and the
digits. -/
def isCoded (c : Char) : Bool := isControl c || c.isDigit

/-- A text spells a name.  The blank after a code may be missing at the end. -/
inductive Spells : Text → Text → Prop where
  | nil : Spells [] []
  | plain {c : Char} {t n : Text} (part : isNamePart c = true) (real : c ≠ '\x00')
      (rest : Spells t n) : Spells (c :: t) (c :: n)
  | escaped {c : Char} {t n : Text} (real : c ≠ '\x00') (code : isHexDigit c = false)
      (line : isNewline c = false) (rest : Spells t n) : Spells ('\\' :: c :: t) (c :: n)
  | coded {c : Char} {t n : Text} (code : isCoded c = true) (ne : n ≠ []) (rest : Spells t n) :
    Spells ('\\' :: codeDigits c ++ ' ' :: t) (c :: n)
  | last {c : Char} (code : isCoded c = true) : Spells ('\\' :: codeDigits c) [c]

/-! ## Codes -/

/-- What holds of every character of ASCII can be checked one by one. -/
theorem forall_ascii {P : Char → Prop} (h : ∀ n < 128, P (Char.ofNat n)) {c : Char}
    (hc : c.toNat < 128) : P c := by
  have := h c.toNat hc
  rwa [Char.ofNat_toNat] at this

theorem toNat_lt_of_isCoded {c : Char} (h : isCoded c = true) : c.toNat < 128 := by
  simp only [isCoded, isControl, Bool.or_eq_true, Bool.and_eq_true, decide_eq_true_eq, beq_iff_eq,
    Char.isDigit_iff_toNat, Char.reduceToNat] at h
  omega

theorem toNat_lt_of_isHexDigit {c : Char} (h : isHexDigit c = true) : c.toNat < 128 := by
  simp only [isHexDigit, Bool.or_eq_true, Bool.and_eq_true, decide_eq_true_eq, Char.le_def,
    Char.isDigit_iff_toNat, Char.reduceToNat, UInt32.le_iff_toNat_le, Char.toNat_val] at h
  omega

/-- What is known of the code of a character that is written by it. -/
structure CodeFacts (c : Char) : Prop where
  digits : ∀ d ∈ codeDigits c, isHexDigit d = true
  ne_nil : codeDigits c ≠ []
  length_le : (codeDigits c).length ≤ 6
  charOfCode : charOfCode (hexNumber (codeDigits c)) = c

theorem codeFacts {c : Char} (h : isCoded c = true) : CodeFacts c := by
  have facts : isCoded c = true → (codeDigits c).all isHexDigit = true ∧ codeDigits c ≠ [] ∧
      (codeDigits c).length ≤ 6 ∧ charOfCode (hexNumber (codeDigits c)) = c :=
    forall_ascii (P := fun c => isCoded c = true → (codeDigits c).all isHexDigit = true ∧
      codeDigits c ≠ [] ∧ (codeDigits c).length ≤ 6 ∧ Css.charOfCode (hexNumber (codeDigits c)) = c)
      (by decide +kernel) (toNat_lt_of_isCoded h)
  obtain ⟨digits, ne, length, number⟩ := facts h
  exact ⟨List.all_eq_true.mp digits, ne, length, number⟩

/-! ## Reading names -/

theorem ne_backslash_of_isNamePart {c : Char} (h : isNamePart c = true) : c ≠ '\\' := by
  rintro rfl
  exact absurd h (by decide)

theorem atNewline_of_isHexDigit {d : Char} (h : isHexDigit d = true) (t : Text) :
    atNewline (d :: t) = false := by
  simp only [atNewline, isNewline, Bool.or_eq_false_iff, beq_eq_false_iff_ne]
  refine ⟨⟨?_, ?_⟩, ?_⟩
  all_goals
    rintro rfl
    exact absurd h (by decide)

/-- What is passed is not read. -/
theorem takeName_eq_drop (skip : Nat) (t : Text) : takeName skip t = takeName 0 (t.drop skip) := by
  induction t generalizing skip with
  | nil => cases skip <;> rfl
  | cons c rest ih =>
    cases skip with
    | zero => rfl
    | succ skip => exact ih skip

/-- Hexadecimal digits that are a whole code where a text follows them. -/
structure IsCode (ds after : Text) : Prop where
  digits : ∀ d ∈ ds, isHexDigit d = true
  ne_nil : ds ≠ []
  length_le : ds.length ≤ 6
  ends : ds.length = 6 ∨ ∀ c ∈ after.head?, isHexDigit c = false

/-- Hexadecimal digits after a backslash stand for the character with their number. -/
theorem escape_code {ds t : Text} (h : IsCode ds t) :
    escape (ds ++ t) = (charOfCode (hexNumber ds), ds.length + blankLength t) := by
  have digits : ((ds ++ t).take 6).takeWhile isHexDigit = ds := by
    rw [List.take_append, List.take_of_length_le h.length_le,
      List.takeWhile_append_of_pos h.digits]
    rcases h.ends with full | ends
    · simp [full]
    · cases t with
      | nil => simp
      | cons c t =>
        have hc := ends c rfl
        cases 6 - ds.length <;> simp [hc]
  obtain ⟨d, rest, rfl⟩ := List.exists_cons_of_ne_nil h.ne_nil
  have hd := h.digits d List.mem_cons_self
  unfold escape
  simp only [List.cons_append, hd, if_true] at digits ⊢
  rw [digits]
  simp

theorem escape_digits {ds t : Text} (hds : ∀ d ∈ ds, isHexDigit d = true) (ne : ds ≠ [])
    (length_le : ds.length ≤ 6) (ht : ∀ c ∈ t.head?, isHexDigit c = false) :
    escape (ds ++ t) = (charOfCode (hexNumber ds), ds.length + blankLength t) :=
  escape_code ⟨hds, ne, length_le, .inr ht⟩

theorem CodeFacts.takeName_eq {c : Char} (h : CodeFacts c) (t : Text)
    (ht : ∀ d ∈ t.head?, isHexDigit d = false) :
    takeName 0 ('\\' :: codeDigits c ++ t) =
      (c :: (takeName 0 (t.drop (blankLength t))).1, (takeName 0 (t.drop (blankLength t))).2) := by
  have escaped := escape_digits h.digits h.ne_nil h.length_le ht
  rw [h.charOfCode] at escaped
  obtain ⟨d, rest, hdigits⟩ := List.exists_cons_of_ne_nil h.ne_nil
  have hd : isHexDigit d = true := h.digits d (hdigits ▸ List.mem_cons_self)
  have line : atNewline (codeDigits c ++ t) = false := by
    rw [hdigits]
    exact atNewline_of_isHexDigit hd _
  rw [List.cons_append, takeName, if_pos rfl, line, if_neg Bool.false_ne_true, escaped]
  simp only
  rw [takeName_eq_drop, List.drop_length_add_append]

/-- What spells a name is read as the name, to the end. -/
theorem takeName_of_spells {t n : Text} (h : Spells t n) : takeName 0 t = (n, []) := by
  induction h with
  | nil => rfl
  | @plain c t n part real rest ih =>
    rw [takeName, if_neg (ne_backslash_of_isNamePart part), if_pos part, ih, if_neg real]
  | @escaped c t n real code line rest ih =>
    have hescape : escape (c :: t) = (c, 1) := by simp [escape, code, real]
    rw [takeName, if_pos rfl, hescape]
    simp only [atNewline, line]
    rw [takeName_eq_drop, List.drop_one, List.tail_cons, ih]
    rfl
  | @coded c t n code ne rest ih =>
    rw [(codeFacts code).takeName_eq (' ' :: t) (by simp; decide)]
    simp only [blankLength, isCssBlank]
    simp [ih]
  | @last c code =>
    have := (codeFacts code).takeName_eq [] (by simp)
    simpa [blankLength, takeName] using this

/-! ## Writing names -/

/-- A text spells a name, perhaps with the blank that ends a code at the end of it. -/
def Writes (x n : Text) : Prop := ∃ t, Spells t n ∧ (x = t ∨ (n ≠ [] ∧ x = t ++ [' ']))

namespace Writes

variable {c : Char} {x n : Text}

theorem nil : Writes [] [] := ⟨[], .nil, .inl rfl⟩

theorem plain (part : isNamePart c = true) (real : c ≠ '\x00') (h : Writes x n) :
    Writes (c :: x) (c :: n) := by
  obtain ⟨t, spells, rfl | ⟨_, rfl⟩⟩ := h
  · exact ⟨_, .plain part real spells, .inl rfl⟩
  · exact ⟨_, .plain part real spells, .inr ⟨List.cons_ne_nil c n, rfl⟩⟩

theorem escaped (real : c ≠ '\x00') (code : isHexDigit c = false) (line : isNewline c = false)
    (h : Writes x n) : Writes ('\\' :: c :: x) (c :: n) := by
  obtain ⟨t, spells, rfl | ⟨_, rfl⟩⟩ := h
  · exact ⟨_, .escaped real code line spells, .inl rfl⟩
  · exact ⟨_, .escaped real code line spells, .inr ⟨List.cons_ne_nil c n, rfl⟩⟩

theorem coded (code : isCoded c = true) (h : Writes x n) : Writes (spellCode c ++ x) (c :: n) := by
  obtain ⟨t, spells, hx⟩ := h
  cases n with
  | nil =>
    obtain rfl | ⟨ne, _⟩ := hx
    · cases spells
      exact ⟨_, .last code, .inr ⟨List.cons_ne_nil c [], by simp [spellCode]⟩⟩
    · exact absurd rfl ne
  | cons d n =>
    refine ⟨_, .coded code (List.cons_ne_nil d n) spells, ?_⟩
    obtain rfl | ⟨_, rfl⟩ := hx
    · exact .inl (by simp [spellCode])
    · exact .inr ⟨List.cons_ne_nil c _, by simp [spellCode]⟩

end Writes

theorem isNewline_of_isControl {c : Char} (h : isControl c = false) : isNewline c = false := by
  simp only [isNewline, Bool.or_eq_false_iff, beq_eq_false_iff_ne]
  refine ⟨⟨?_, ?_⟩, ?_⟩
  all_goals
    rintro rfl
    exact absurd h (by decide)

theorem isHexDigit_of_isNamePart {c : Char} (h : isNamePart c = false) : isHexDigit c = false := by
  by_contra hc
  rw [Bool.not_eq_false] at hc
  have named := forall_ascii (P := fun c => isHexDigit c = true → isNamePart c = true)
    (by decide +kernel) (toNat_lt_of_isHexDigit hc) hc
  exact absurd (h.symm.trans named) Bool.false_ne_true

theorem writes_spellChar {c : Char} {x n : Text} (real : c ≠ '\x00') (h : Writes x n) :
    Writes (spellChar c ++ x) (c :: n) := by
  unfold spellChar
  by_cases control : isControl c = true
  · rw [if_pos control]
    exact .coded (by simp [isCoded, control]) h
  rw [if_neg control]
  rw [Bool.not_eq_true] at control
  by_cases part : isNamePart c = true
  · rw [if_pos part]
    exact .plain part real h
  · rw [if_neg part]
    rw [Bool.not_eq_true] at part
    exact .escaped real (isHexDigit_of_isNamePart part) (isNewline_of_isControl control) h

theorem writes_spellFirst {c : Char} {x n : Text} (real : c ≠ '\x00') (h : Writes x n) :
    Writes (spellFirst c ++ x) (c :: n) := by
  unfold spellFirst
  split
  · exact .coded (by simp [isCoded, *]) h
  · exact writes_spellChar real h

theorem writes_flatMap {n : Text} (real : ∀ c ∈ n, c ≠ '\x00') :
    Writes (n.flatMap spellChar) n := by
  induction n with
  | nil => exact .nil
  | cons c n ih =>
    rw [List.flatMap_cons]
    exact writes_spellChar (real c List.mem_cons_self)
      (ih fun d hd => real d (List.mem_cons_of_mem c hd))

/-- A name without the NUL character is spelled by `spellName`. -/
theorem writes_spellName {n : Text} (real : ∀ c ∈ n, c ≠ '\x00') : Writes (spellName n) n := by
  fun_cases spellName n with
  | case1 => exact .nil
  | case2 => exact .escaped (by decide) (by decide) (by decide) .nil
  | case3 c rest =>
    refine .plain (by decide) (by decide) (writes_spellFirst (real c (by simp)) ?_)
    exact writes_flatMap fun d hd => real d (by simp [hd])
  | case4 c rest =>
    refine writes_spellFirst (real c (by simp)) ?_
    exact writes_flatMap fun d hd => real d (by simp [hd])

example : spellName "1a:b" = "\\31 a\\:b" := by decide

example : spellName "-1\x01-" = "-\\31 \\1 -" := by decide

/-! ## Spellings as texts -/

theorem isBlank_of_isHexDigit {d : Char} (h : isHexDigit d = true) : isBlank d = false :=
  forall_ascii (P := fun d => isHexDigit d = true → isBlank d = false) (by decide +kernel)
    (toNat_lt_of_isHexDigit h) h

theorem Spells.eq_nil {t : Text} (h : Spells t []) : t = [] := by
  cases h
  rfl

/-- A character that is no backslash spells itself. -/
theorem Spells.of_ne_backslash {c : Char} {t n : Text} (h : Spells (c :: t) n) (hc : c ≠ '\\') :
    isNamePart c = true ∧ ∃ m, n = c :: m ∧ Spells t m := by
  cases h with
  | plain part real rest => exact ⟨part, _, rfl, rest⟩
  | escaped => exact absurd rfl hc
  | coded => exact absurd rfl hc
  | last => exact absurd rfl hc

/-- A name without blanks is spelled with single spaces, after codes. -/
theorem Spells.tidy {t n : Text} (h : Spells t n) (ne : n ≠ [])
    (blank : ∀ c ∈ n, isBlank c = false) : Text.Tidy t := by
  have later : ∀ {w t n : Text}, (∀ c ∈ w, isBlank c = false) → w ≠ [] → Spells t n →
      (n ≠ [] → Text.Tidy t) → Text.Tidy (w ++ t) := by
    intro w t n hw hne spells tidy
    by_cases hn : n = []
    · subst hn
      rw [spells.eq_nil, List.append_nil]
      exact .word hne hw
    · exact (tidy hn).append hw
  induction h with
  | nil => exact absurd rfl ne
  | @plain c t n part real rest ih =>
    have hc := blank c List.mem_cons_self
    exact later (w := [c]) (by simpa using hc) (List.cons_ne_nil c []) rest fun hn =>
      ih hn fun d hd => blank d (List.mem_cons_of_mem c hd)
  | @escaped c t n real code line rest ih =>
    have hc := blank c List.mem_cons_self
    refine later (w := ['\\', c]) ?_ (List.cons_ne_nil _ _) rest fun hn =>
      ih hn fun d hd => blank d (List.mem_cons_of_mem c hd)
    simp only [List.mem_cons, List.not_mem_nil, or_false, forall_eq_or_imp, forall_eq]
    exact ⟨by decide, hc⟩
  | @coded c t n code hn rest ih =>
    refine .more (List.cons_ne_nil _ _) ?_ (ih hn fun d hd => blank d (List.mem_cons_of_mem c hd))
    rintro d (_ | ⟨_, hd⟩)
    · decide
    · exact isBlank_of_isHexDigit ((codeFacts code).digits d hd)
  | @last c code =>
    refine .word (List.cons_ne_nil _ _) ?_
    rintro d (_ | ⟨_, hd⟩)
    · decide
    · exact isBlank_of_isHexDigit ((codeFacts code).digits d hd)

/-- How many characters of a kind a spelling has, if a code has one of them just when its
character is of the kind, and neither the backslash nor the space is. -/
theorem Spells.countP_eq {p : Char → Bool} (backslash : p '\\' = false) (space : p ' ' = false)
    (codes : ∀ c, isCoded c = true → (codeDigits c).countP p = [c].countP p) {t n : Text}
    (h : Spells t n) : t.countP p = n.countP p := by
  induction h with
  | nil => rfl
  | plain _ _ _ ih => rw [List.countP_cons, List.countP_cons, ih]
  | escaped _ _ _ _ ih => simp [List.countP_cons, backslash, ih]
  | @coded c t n code _ _ ih =>
    have digits := codes c code
    simp only [List.cons_append, List.countP_cons, List.countP_append, List.countP_nil, backslash,
      space, ih] at digits ⊢
    simp [digits, Nat.add_comm]
  | last code => rw [List.countP_cons_of_neg (by simp [backslash]), codes _ code]

/-- A spelling has an ampersand just when the name has one. -/
theorem Spells.ampersand_mem {t n : Text} (h : Spells t n) : '&' ∈ t ↔ '&' ∈ n := by
  have codes : ∀ c, isCoded c = true →
      (codeDigits c).countP (· == '&') = [c].countP (· == '&') := fun c hc =>
    forall_ascii (P := fun c => isCoded c = true →
      (codeDigits c).countP (· == '&') = [c].countP (· == '&')) (by decide +kernel)
      (toNat_lt_of_isCoded hc) hc
  have count := h.countP_eq (p := (· == '&')) (by decide) (by decide) codes
  rw [← List.count_pos_iff, ← List.count_pos_iff]
  exact iff_of_eq (congrArg (0 < ·) count)

/-! ## Where a name can come from

The characters `\x06`, `\x16`, `&` and `6` have the codes below 64 that end in the
hexadecimal digit 6.  In a name that is read, each of them is one of them that stands
in the text, as itself or as the last digit of a code. -/

/-- Whether the code of a character is below 64 and ends in the digit 6. -/
def isSix (c : Char) : Bool := c.toNat % 16 == 6 && c.toNat < 64

theorem hexNumber_append (ds : Text) (d : Char) :
    hexNumber (ds ++ [d]) = 16 * hexNumber ds + hexValue d := by
  simp [hexNumber]

theorem eq_six_of_hexValue {d : Char} (h : isHexDigit d = true) (hd : hexValue d % 16 = 6) :
    d = '6' :=
  forall_ascii (P := fun d => isHexDigit d = true → hexValue d % 16 = 6 → d = '6')
    (by decide +kernel) (toNat_lt_of_isHexDigit h) h hd

theorem isSix_replacementChar : isSix replacementChar = false := by decide

theorem Spells.countP_isSix {t n : Text} (h : Spells t n) : t.countP isSix = n.countP isSix := by
  have codes : ∀ c, isCoded c = true → (codeDigits c).countP isSix = [c].countP isSix := fun c hc =>
    forall_ascii (P := fun c => isCoded c = true → (codeDigits c).countP isSix = [c].countP isSix)
      (by decide +kernel) (toNat_lt_of_isCoded hc) hc
  exact h.countP_eq (by decide) (by decide) codes

/-- The code of a character that has the number for its code. -/
theorem toNat_charOfCode {k : Nat} (h : k ≠ 0 ∧ k.isValidChar) : (charOfCode k).toNat = k := by
  rw [charOfCode, if_pos h, Char.ofNat, dif_pos h.2]
  rfl

/-- A code for one of them ends in the digit. -/
theorem six_mem_of_charOfCode {ds : Text} (hds : ∀ d ∈ ds, isHexDigit d = true)
    (h : isSix (charOfCode (hexNumber ds)) = true) : '6' ∈ ds := by
  rcases List.eq_nil_or_concat' ds with rfl | ⟨before, d, rfl⟩
  · exact absurd h (by decide)
  · by_cases valid : hexNumber (before ++ [d]) ≠ 0 ∧ (hexNumber (before ++ [d])).isValidChar
    · rw [isSix, toNat_charOfCode valid, hexNumber_append] at h
      simp only [Bool.and_eq_true, beq_iff_eq] at h
      have hd : hexValue d % 16 = 6 := by omega
      have := eq_six_of_hexValue (hds d (by simp)) hd
      simp [this]
    · rw [charOfCode, if_neg valid] at h
      exact absurd h (by decide)

/-- What an escape stands for, if it is one of them, is in the escape. -/
theorem six_le_escape (t : Text) :
    [(escape t).1].countP isSix ≤ (t.take (escape t).2).countP isSix := by
  by_cases h : isSix (escape t).1 = true
  · rw [List.countP_cons_of_pos h, List.countP_nil, Nat.zero_add, Nat.succ_le_iff,
      List.countP_pos_iff]
    unfold escape at h ⊢
    cases t with
    | nil => exact absurd h (by decide)
    | cons c rest =>
      simp only at h ⊢
      split at h
      · rename_i hc
        rw [if_pos hc]
        have hds : ∀ d ∈ ((c :: rest).take 6).takeWhile isHexDigit, isHexDigit d = true :=
          List.all_eq_true.mp List.all_takeWhile
        have within : ((c :: rest).take 6).takeWhile isHexDigit <+: c :: rest :=
          (List.takeWhile_prefix _).trans (List.take_prefix _ _)
        refine ⟨'6', List.IsPrefix.subset ?_ (six_mem_of_charOfCode hds h), by decide⟩
        exact List.prefix_take_iff.mpr ⟨within, Nat.le_add_right _ _⟩
      · rename_i hc
        rw [if_neg hc]
        split at h
        · exact absurd h (by decide)
        · rename_i hnul
          rw [if_neg hnul]
          exact ⟨c, by simp, h⟩
  · rw [List.countP_cons_of_neg h]
    exact Nat.zero_le _

/-- A name that is read has no more of them than the text it is read from. -/
theorem six_le_takeName (skip : Nat) (t : Text) :
    (takeName skip t).1.countP isSix ≤ (t.drop skip).countP isSix := by
  induction t generalizing skip with
  | nil => cases skip <;> exact Nat.le_refl _
  | cons c rest ih =>
    cases skip with
    | succ skip => exact ih skip
    | zero =>
      rw [takeName, List.drop_zero]
      split
      · split
        · exact Nat.zero_le _
        · have hescape := six_le_escape rest
          have hname := ih (escape rest).2
          have hsplit : rest.countP isSix =
              (rest.take (escape rest).2).countP isSix + (rest.drop (escape rest).2).countP isSix := by
            rw [← List.countP_append, List.take_append_drop]
          simp only [List.countP_cons, List.countP_nil] at hescape ⊢
          omega
      · split
        · have hname := ih 0
          rw [List.drop_zero] at hname
          simp only [List.countP_cons]
          split
          · simp [isSix_replacementChar]
            omega
          · omega
        · exact Nat.zero_le _

end StyleTypings.Css
