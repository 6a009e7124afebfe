/-
Inert texts — what no reader of a style sheet takes for anything but text.

Names are spelled with letters, digits, hyphens, underscores, characters above ASCII,
escapes, and the spaces that end codes.  In such a text an escaped character never
counts as what it would be by itself, so the text passes through the removal of
comments, the cutting into pieces, the splitting of lists and everything else that
looks for marks.
-/
import StyleTypings.Less.Comment
import StyleTypings.Less.Node
import StyleTypings.Less.Scope
import StyleTypings.Less.Selector
import StyleTypings.Proofs.Css.Spelling
import StyleTypings.Proofs.Variables

namespace StyleTypings.Less

open Css

/-- Name characters, spaces and escapes. -/
inductive Inert : Text → Prop where
  | nil : Inert []
  | plain {c : Char} {t : Text} (part : isNamePart c = true ∨ c = ' ') (rest : Inert t) :
    Inert (c :: t)
  | escape {c : Char} {t : Text} (line : c ≠ '\n') (rest : Inert t) : Inert ('\\' :: c :: t)

theorem Inert.append {s t : Text} (hs : Inert s) (ht : Inert t) : Inert (s ++ t) := by
  induction hs with
  | nil => exact ht
  | plain part _ ih => exact .plain part ih
  | escape line _ ih => exact .escape line ih

theorem Inert.digits {ds t : Text} (hds : ∀ d ∈ ds, isHexDigit d = true) (ht : Inert t) :
    Inert (ds ++ t) := by
  induction ds with
  | nil => exact ht
  | cons d ds ih =>
    have hd : isNamePart d = true := by
      by_contra hpart
      have := isHexDigit_of_isNamePart (Bool.eq_false_iff.mpr hpart)
      exact absurd (hds d List.mem_cons_self) (by simp [this])
    exact .plain (.inl hd) (ih fun e he => hds e (List.mem_cons_of_mem d he))

/-- A code is an escape of its first digit with the others after it. -/
theorem Inert.code {c : Char} {t : Text} (code : isCoded c = true) (ht : Inert t) :
    Inert ('\\' :: codeDigits c ++ t) := by
  have facts := codeFacts code
  obtain ⟨d, ds, hdigits⟩ := List.exists_cons_of_ne_nil facts.ne_nil
  have hds := facts.digits
  rw [hdigits] at hds ⊢
  refine .escape ?_ (.digits (fun e he => hds e (List.mem_cons_of_mem d he)) ht)
  rintro rfl
  exact absurd (hds _ List.mem_cons_self) (by decide)

/-- What spells a name is inert. -/
theorem inert_of_spells {t n : Text} (h : Spells t n) : Inert t := by
  induction h with
  | nil => exact .nil
  | plain part _ _ ih => exact .plain (.inl part) ih
  | @escaped c t n real code line rest ih =>
    refine .escape ?_ ih
    rintro rfl
    exact absurd line (by decide)
  | coded code _ _ ih => exact .code code (.plain (.inr rfl) ih)
  | last code => simpa using Inert.code code .nil

theorem inert_of_writes {x n : Text} (h : Writes x n) : Inert x := by
  obtain ⟨t, spells, rfl | ⟨_, rfl⟩⟩ := h
  · exact inert_of_spells spells
  · exact (inert_of_spells spells).append (.plain (.inr rfl) .nil)

/-- A plain character is none of the marks. -/
theorem ne_of_plain {c d : Char} (h : isNamePart c = true ∨ c = ' ')
    (hd : isNamePart d = false ∧ d ≠ ' ') : c ≠ d := by
  rintro rfl
  obtain h | h := h
  · exact absurd (h.symm.trans hd.1) (by decide)
  · exact hd.2 h

/-- No word stands right before an opening parenthesis, also not at the end of an inert
text that a brace follows. -/
theorem Inert.ne_call {t s : Text} (h : Inert t) (hs : s = [] ∨ ∃ r, s = '{' :: r) {w v : Text}
    (hw : '\\' ∉ w ∧ '{' ∉ w) : t ++ s ≠ w ++ '(' :: v := by
  induction w generalizing t with
  | nil =>
    intro heq
    cases h with
    | nil => rcases hs with rfl | ⟨r, rfl⟩ <;> simp at heq
    | plain part rest => exact ne_of_plain part (by decide) (List.cons.inj heq).1
    | escape line rest => exact absurd (List.cons.inj heq).1 (by decide)
  | cons a w ih =>
    intro heq
    simp only [List.mem_cons, not_or] at hw
    cases h with
    | nil =>
      rcases hs with rfl | ⟨r, rfl⟩
      · simp at heq
      · exact hw.2.1 (List.cons.inj heq).1
    | plain part rest => exact ih rest ⟨hw.1.2, hw.2.2⟩ (List.cons.inj heq).2
    | escape line rest => exact hw.1.1 (List.cons.inj heq).1

/-! ## Comments -/

theorem eq_paren_of_toLower {c : Char} (h : c.toLower = '(') : c = '(' := by
  by_cases ascii : c.toNat < 128
  · exact forall_ascii (P := fun c => c.toLower = '(' → c = '(') (by decide +kernel) ascii h
  · by_cases upper : c.val ≥ 'A'.val ∧ c.val ≤ 'Z'.val
    · have := UInt32.le_iff_toNat_le.mp upper.2
      simp only [Char.toNat_val, Char.reduceToNat] at this
      omega
    · exact (dif_neg upper).symm.trans h

/-- An address does not begin in an inert text. -/
theorem Inert.not_address {t r : Text} (h : Inert t) :
    Text.sameAscii ((t ++ '{' :: r).take 4) "url(" = false := by
  have ne_of_lower : ∀ {c d e : Char}, c.toLower = d → e.toLower ≠ d → c ≠ e := by
    rintro c d e hc he rfl
    exact he hc
  by_contra hsame
  rw [Bool.not_eq_false, Text.sameAscii, beq_iff_eq] at hsame
  have hmap : ((t ++ '{' :: r).take 4).map Char.toLower = ['u', 'r', 'l', '('] := hsame
  rcases hx : t ++ '{' :: r with _ | ⟨c₁, _ | ⟨c₂, _ | ⟨c₃, _ | ⟨c₄, after⟩⟩⟩⟩ <;>
    rw [hx] at hmap <;> simp at hmap
  obtain ⟨h₁, h₂, h₃, h₄⟩ := hmap
  obtain rfl := eq_paren_of_toLower h₄
  refine h.ne_call (.inr ⟨r, rfl⟩) (w := [c₁, c₂, c₃]) (v := after) ?_ hx
  simp only [List.mem_cons, List.not_mem_nil, or_false, not_or]
  exact ⟨⟨(ne_of_lower h₁ (by decide)).symm, (ne_of_lower h₂ (by decide)).symm,
      (ne_of_lower h₃ (by decide)).symm⟩,
    (ne_of_lower h₁ (by decide)).symm, (ne_of_lower h₂ (by decide)).symm,
    (ne_of_lower h₃ (by decide)).symm⟩

namespace Comment

theorem afterPlain_plain {c before : Char} {t r : Text} {line : Nat}
    (part : isNamePart c = true ∨ c = ' ') (h : Inert (c :: t)) :
    Mode.afterPlain line before c (t ++ '{' :: r) = .plain := by
  have quote : Text.isQuote c = false := by
    rw [Text.isQuote, Bool.or_eq_false_iff, beq_eq_false_iff_ne, beq_eq_false_iff_ne]
    exact ⟨ne_of_plain part (by decide), ne_of_plain part (by decide)⟩
  have address : startsAddress before (c :: (t ++ '{' :: r)) = false := by
    rw [startsAddress, ← List.cons_append, h.not_address, Bool.and_false]
  simp [Mode.afterPlain, quote, address, ne_of_plain (d := '\\') part (by decide),
    ne_of_plain (d := '/') part (by decide)]

/-- An inert text is no comment and begins none. -/
theorem stripFrom_inert {t : Text} (h : Inert t) (r : Text) (line : Nat) (before : Char) :
    ∃ last, stripFrom .plain line before (t ++ '{' :: r) =
      (stripFrom .plain line last ('{' :: r)).map (t ++ ·) := by
  induction h generalizing before with
  | nil =>
    refine ⟨before, ?_⟩
    rw [List.nil_append]
    cases stripFrom .plain line before ('{' :: r) <;> rfl
  | @plain c t part rest ih =>
    obtain ⟨last, ih⟩ := ih c
    refine ⟨last, ?_⟩
    have feed : c ≠ '\n' := ne_of_plain part (by decide)
    rw [List.cons_append, stripFrom]
    simp only [Mode.after, afterPlain_plain part (.plain part rest), feed, decide_false,
      Bool.false_and, Bool.false_eq_true, if_false, ih, written]
    cases stripFrom .plain line last ('{' :: r) <;> rfl
  | @escape c t feed rest ih =>
    obtain ⟨last, ih⟩ := ih c
    refine ⟨last, ?_⟩
    have slash : '\\' ≠ '\n' := by decide
    have begins : Mode.afterPlain line before '\\' (c :: t ++ '{' :: r) = .escaped := by
      simp [Mode.afterPlain, Text.isQuote]
    rw [List.cons_append, stripFrom, List.cons_append, stripFrom]
    rw [List.cons_append] at begins
    simp only [Mode.after, begins, feed, slash, decide_false, Bool.false_and, Bool.false_eq_true, if_false,
      ih, written]
    cases stripFrom .plain line last ('{' :: r) <;> rfl

end Comment

/-! ## Pieces -/

namespace Reading

variable {p : Progress} {c : Char}

/-- A piece that has begun stays where it has, and so does the line. -/
theorem located_of_begun (feed : c ≠ '\n') (begun : p.current.all isBlank = false) :
    p.located c = p := by
  simp [Progress.located, feed, begun]

theorem plainStep_plain (outside : p.parens = 0) (part : isNamePart c = true ∨ c = ' ') :
    p.plainStep c = p.push c .plain := by
  have quote : Text.isQuote c = false := by
    rw [Text.isQuote, Bool.or_eq_false_iff, beq_eq_false_iff_ne, beq_eq_false_iff_ne]
    exact ⟨ne_of_plain part (by decide), ne_of_plain part (by decide)⟩
  have ne : ∀ d, isNamePart d = false ∧ d ≠ ' ' → c ≠ d := fun d hd => ne_of_plain part hd
  simp [Progress.plainStep, quote, outside, ne '\\' (by decide), ne '@' (by decide),
    ne '(' (by decide), ne ')' (by decide), ne '\x7b' (by decide), ne '\x7d' (by decide),
    ne ';' (by decide)]

theorem push_begun (mode : Mode) (begun : p.current.all isBlank = false) :
    (p.push c mode).current.all isBlank = false := by
  rw [Progress.push, List.all_cons, begun, Bool.and_false]

/-- An inert text inside a piece becomes part of the piece as it is. -/
theorem foldl_step_inert {t : Text} (h : Inert t) {p : Progress} (mode : p.mode = .plain)
    (outside : p.parens = 0) (begun : p.current.all isBlank = false) :
    t.foldl Progress.step p = { p with current := t.reverse ++ p.current } := by
  induction h generalizing p with
  | nil => rfl
  | @plain c t part rest ih =>
    have feed : c ≠ '\n' := ne_of_plain part (by decide)
    have step : p.step c = p.push c .plain := by
      rw [Progress.step, located_of_begun feed begun]
      simp only [mode]
      exact plainStep_plain outside part
    rw [List.foldl_cons, step, ih (p := p.push c .plain) rfl outside (push_begun _ begun)]
    simp [Progress.push, mode]
  | @escape c t feed rest ih =>
    have first : p.step '\\' = p.push '\\' .escaped := by
      rw [Progress.step, located_of_begun (by decide) begun]
      simp [mode, Progress.plainStep, Text.isQuote]
    have second : (p.push '\\' .escaped).step c = (p.push '\\' .escaped).push c .plain := by
      rw [Progress.step, located_of_begun feed (push_begun _ begun)]
      rfl
    rw [List.foldl_cons, List.foldl_cons, first, second,
      ih (p := (p.push '\\' .escaped).push c .plain) rfl outside
        (push_begun _ (push_begun _ begun))]
    simp [Progress.push, mode]

end Reading

/-! ## Lists -/

theorem splitFrom_inert {t : Text} (h : Inert t) : splitFrom ',' .none t = [t] := by
  induction h with
  | nil => rfl
  | @plain c t part rest ih =>
    have ne : ∀ d, isNamePart d = false ∧ d ≠ ' ' → c ≠ d := fun d hd => ne_of_plain part hd
    have quote : Text.isQuote c = false := by
      rw [Text.isQuote, Bool.or_eq_false_iff, beq_eq_false_iff_ne, beq_eq_false_iff_ne]
      exact ⟨ne '"' (by decide), ne '\'' (by decide)⟩
    have after : Openness.none.after c = .none := by
      simp [Openness.after, Openness.none, quote, ne '\\' (by decide), ne '(' (by decide),
        ne '[' (by decide), ne ')' (by decide), ne ']' (by decide)]
    rw [splitFrom, after, ih]
    simp [ne ',' (by decide), consFirst]
  | @escape c t feed rest ih =>
    have first : splitFrom ',' .none ('\\' :: c :: t) =
        consFirst '\\' (splitFrom ',' ⟨true, none, 0⟩ (c :: t)) := rfl
    have second : splitFrom ',' ⟨true, none, 0⟩ (c :: t) =
        consFirst c (splitFrom ',' .none t) := rfl
    rw [first, second, ih]
    rfl

/-! ## Interpolations -/

theorem Inert.head_ne {t : Text} (h : Inert t) {d : Char} (hd : isNamePart d = false ∧ d ≠ ' ')
    (escape : d ≠ '\\') (after : Text) : t ≠ d :: after := by
  rintro rfl
  cases h with
  | plain part _ => exact ne_of_plain part hd rfl
  | escape _ _ => exact escape rfl

/-- There is nothing to interpolate in an inert text. -/
theorem replaceNames_inert {resolve : Text → Except CompileError Text} {t : Text} (h : Inert t) :
    Scope.replaceNames resolve 0 t = .ok t := by
  induction h with
  | nil => rfl
  | @plain c t part rest ih =>
    rw [Scope.replaceNames_cons (.inl (ne_of_plain part (by decide))), ih]
    rfl
  | @escape c t feed rest ih =>
    rw [Scope.replaceNames_cons (.inl (by decide)),
      Scope.replaceNames_cons (.inr (rest.head_ne (by decide) (by decide))), ih]
    rfl

/-! ## Extensions -/

theorem eq_append_of_isPrefixOf? {s t after : Text} (h : List.isPrefixOf? s t = some after) :
    t = s ++ after := by
  induction s generalizing t with
  | nil => exact Option.some.inj h
  | cons c s ih =>
    cases t with
    | nil => cases h
    | cons d t =>
      rw [List.isPrefixOf?] at h
      split at h
      · rename_i hcd
        rw [beq_iff_eq.mp hcd, ih h, List.cons_append]
      · cases h

theorem breakOn?_extend_cons {c : Char} {t : Text} (hc : c ≠ ':')
    (h : Text.breakOn? ":extend(" t = none) : Text.breakOn? ":extend(" (c :: t) = none := by
  have hprefix : List.isPrefixOf? (":extend(" : Text) (c :: t) = none := by
    simp [List.isPrefixOf?, hc.symm]
  rw [Text.breakOn?, hprefix, h]
  rfl

/-- No extension is in an inert text. -/
theorem breakOn?_inert {t : Text} (h : Inert t) : Text.breakOn? ":extend(" t = none := by
  induction h with
  | nil => rfl
  | @plain c t part rest ih => exact breakOn?_extend_cons (ne_of_plain part (by decide)) ih
  | @escape c t feed rest ih =>
    refine breakOn?_extend_cons (by decide) ?_
    by_cases hc : c = ':'
    · subst hc
      have hprefix : List.isPrefixOf? (":extend(" : Text) (':' :: t) = none := by
        cases hp : List.isPrefixOf? (":extend(" : Text) (':' :: t) with
        | none => rfl
        | some after =>
          have heq := (List.cons.inj (eq_append_of_isPrefixOf? hp)).2
          refine absurd ?_ (rest.ne_call (.inl rfl) (w := "extend") (v := after) (by decide))
          rw [List.append_nil, heq]
          rfl
      rw [Text.breakOn?, hprefix, ih]
      rfl
    · exact breakOn?_extend_cons hc ih

end StyleTypings.Less
