/-
Skipping — what comes after a comment or an address, whatever its blanks.

A comment ends behind its mark wherever blanks are, and so does an address that a character
has spoiled: neither depends on the text being steady.  In an address that is well formed so
far an escape may hide the parenthesis that would close it, so there it does.
-/
import StyleTypings.Proofs.Css.Steady

namespace StyleTypings.Css

open Text

/-! ## Comments -/

theorem skipComment_cons {c : Char} {t : Text} (h : c ≠ '*' ∨ ∀ rest, t ≠ '/' :: rest) :
    skipComment (c :: t) = skipComment t := by
  refine skipComment.eq_3 c t fun rest hc ht => ?_
  rcases h with h | h
  · exact h hc
  · exact h rest ht

/-- A blank in a comment is passed over. -/
theorem skipComment_collapse_behind (s : Text) :
    skipComment (collapseAfter s) = skipComment (collapse s) := by
  rw [collapseAfter]
  split
  · exact skipComment_cons (.inl (by decide))
  · rfl

theorem skipComment_collapse (s : Text) :
    skipComment (collapse s) = collapseAfter (skipComment s) := by
  induction s with
  | nil => rfl
  | cons c s ih =>
    cases hc : isBlank c with
    | true =>
      rw [collapse_cons_blank hc, ih, skipComment_cons (.inl (ne_of_isBlank hc rfl))]
    | false =>
      rw [collapse_cons hc]
      by_cases ends : c = '*' ∧ ∃ rest, s = '/' :: rest
      · obtain ⟨rfl, rest, rfl⟩ := ends
        rw [collapseAfter_cons rfl]
        rfl
      · rw [not_and_or, not_exists] at ends
        have ends' : c ≠ '*' ∨ ∀ rest, collapseAfter s ≠ '/' :: rest := by
          refine ends.imp id fun none rest heq => ?_
          obtain ⟨after, hs⟩ := exists_cons_of_collapseAfter rfl heq
          exact none after hs
        rw [skipComment_cons ends', skipComment_cons ends, skipComment_collapse_behind, ih]

theorem skipComment_steady {s : Text} (h : Steady s) : Steady (skipComment s) := by
  rcases skipComment_cases s with nothing | ⟨u, hu⟩
  · exact nothing ▸ .nil
  · exact h.behind hu rfl rfl (by decide)

/-! ## Addresses -/

theorem skipAddress_eq_drop (state : AddressState) (skip : Nat) (t : Text) :
    skipAddress state skip t = skipAddress state 0 (t.drop skip) := by
  induction t generalizing skip with
  | nil => cases skip <;> rfl
  | cons c rest ih =>
    cases skip with
    | zero => rfl
    | succ skip => exact ih skip

theorem skipAddress_spoiled_cons {c : Char} {t : Text} (closing : c ≠ ')')
    (h : c ≠ '\\' ∨ ∀ e ∈ t.head?, e ≠ ')' ∧ e ≠ '\\') :
    skipAddress .spoiled 0 (c :: t) = skipAddress .spoiled 0 t := by
  rw [skipAddress.eq_def]
  simp only [if_neg closing]
  split
  · exact absurd rfl (h.resolve_left (· rfl) _ rfl).1
  · exact absurd rfl (h.resolve_left (· rfl) _ rfl).2
  · rfl

theorem skipAddress_spoiled_pair {e : Char} (he : e = ')' ∨ e = '\\') (t : Text) :
    skipAddress .spoiled 0 ('\\' :: e :: t) = skipAddress .spoiled 0 t := by
  rcases he with rfl | rfl <;> rfl

/-- A blank in an address that is spoiled is passed over. -/
theorem skipAddress_spoiled_behind (s : Text) :
    skipAddress .spoiled 0 (collapseAfter s) = skipAddress .spoiled 0 (collapse s) := by
  rw [collapseAfter]
  split
  · exact skipAddress_spoiled_cons (by decide) (.inl (by decide))
  · rfl

theorem skipAddress_spoiled_collapse : ∀ s : Text,
    skipAddress .spoiled 0 (collapse s) = collapseAfter (skipAddress .spoiled 0 s)
  | [] => rfl
  | c :: s => by
    cases hc : isBlank c with
    | true =>
      rw [collapse_cons_blank hc, skipAddress_spoiled_collapse s,
        skipAddress_spoiled_cons (ne_of_isBlank hc rfl) (.inl (ne_of_isBlank hc rfl))]
    | false =>
      rw [collapse_cons hc]
      by_cases closing : c = ')'
      · subst closing
        rfl
      by_cases pair : c = '\\' ∧ ∃ e ∈ s.head?, e = ')' ∨ e = '\\'
      · obtain ⟨rfl, e, he, pair⟩ := pair
        cases s with
        | nil => cases he
        | cons _ s =>
          cases he
          have ink : isBlank e = false := by rcases pair with rfl | rfl <;> rfl
          rw [collapseAfter_cons ink, skipAddress_spoiled_pair pair, skipAddress_spoiled_pair pair,
            skipAddress_spoiled_behind, skipAddress_spoiled_collapse s]
      · rw [not_and_or] at pair
        have single : c ≠ '\\' ∨ ∀ e ∈ s.head?, e ≠ ')' ∧ e ≠ '\\' :=
          pair.imp id fun h e he => not_or.mp fun heq => h ⟨e, he, heq⟩
        have single' : c ≠ '\\' ∨ ∀ e ∈ (collapseAfter s).head?, e ≠ ')' ∧ e ≠ '\\' := by
          refine single.imp id fun h e he => ?_
          obtain ⟨t, ht⟩ := List.head?_eq_some_iff.mp he
          cases hblank : isBlank e with
          | true => exact ⟨ne_of_isBlank hblank rfl, ne_of_isBlank hblank rfl⟩
          | false =>
            obtain ⟨after, rfl⟩ := exists_cons_of_collapseAfter hblank ht
            exact h e rfl
        rw [skipAddress_spoiled_cons closing single', skipAddress_spoiled_cons closing single,
          skipAddress_spoiled_behind, skipAddress_spoiled_collapse s]

theorem skipAddress_gap_collapse {s : Text}
    (css : ∀ c ∈ s, isBlank c = true → isCssBlank c = true) :
    skipAddress .gap 0 (collapse s) = collapseAfter (skipAddress .gap 0 s) := by
  induction s with
  | nil => rfl
  | cons c s ih =>
    obtain ⟨hcss, later⟩ := List.forall_mem_cons.mp css
    cases hc : isBlank c with
    | true =>
      have next : skipAddress .gap 0 (c :: s) = skipAddress .gap 0 s := by
        rw [skipAddress.eq_def]
        simp only [if_neg (ne_of_isBlank hc rfl : c ≠ ')'), hcss hc, if_true]
      rw [collapse_cons_blank hc, ih later, next]
    | false =>
      have ink := isCssBlank_of_not_isBlank hc
      rw [collapse_cons hc]
      by_cases closing : c = ')'
      · subst closing
        rfl
      · have next (t : Text) : skipAddress .gap 0 (c :: t) = skipAddress .spoiled 0 t := by
          rw [skipAddress.eq_def]
          simp only [if_neg closing, ink, Bool.false_eq_true, if_false]
        rw [next, next, skipAddress_spoiled_behind, skipAddress_spoiled_collapse]

theorem skipAddress_steady {state : AddressState} {s : Text} (h : Steady s) :
    Steady (skipAddress state 0 s) := by
  rcases skipAddress_cases state 0 s with nothing | ⟨u, hu⟩
  · exact nothing ▸ .nil
  · exact h.behind hu rfl rfl (by decide)

theorem skipAddress_collapseAfter {s : Text} (h : Steady s) :
    skipAddress .content 0 (collapseAfter s) = collapseAfter (skipAddress .content 0 s) := by
  have blanks {b : Char} (hb : isCssBlank b = true) (t : Text) :
      skipAddress .content 0 (b :: t) = skipAddress .gap 0 t := by
    have hne : b ≠ ')' := ne_of_isBlank (isBlank_of_isCssBlank hb) rfl
    rw [skipAddress.eq_def]
    simp only [if_neg hne, hb, if_true]
  induction h with
  | nil => rfl
  | @blank b s blank rest =>
    rw [collapseAfter_cons_blank (isBlank_of_isCssBlank blank), blanks blank,
      ← skipAddress_gap_collapse rest.css]
    split
    · rename_i nothing
      rw [nothing]
      rfl
    · exact blanks rfl _
  | @plain c s ink unescaped unquoted rest ih =>
    rw [collapseAfter_cons ink]
    by_cases closing : c = ')'
    · subst closing
      rfl
    have notBlank := isCssBlank_of_not_isBlank ink
    have next (t : Text) : skipAddress .content 0 (c :: t) =
        skipAddress (if spoilsAddress c then .spoiled else .content) 0 t := by
      rw [skipAddress.eq_def]
      simp only [if_neg closing, notBlank, Bool.false_eq_true, if_false, if_neg unescaped]
      split <;> rfl
    rw [next, next]
    split
    · rw [skipAddress_spoiled_behind, skipAddress_spoiled_collapse]
    · exact ih
  | @escape r s escaped rest ih =>
    have facts := escaped.escapes
    have next {t : Text} (line : atNewline t = false) : skipAddress .content 0 ('\\' :: t) =
        skipAddress .content 0 (t.drop (escape t).2) := by
      rw [← skipAddress_eq_drop, skipAddress.eq_def]
      simp only [line, Bool.false_eq_true, if_false, if_true]
      rfl
    rw [collapseAfter_cons rfl, next facts.line, next facts.line', facts.leaves, facts.leaves', ih]

theorem dropWhile_isCssBlank {s : Text} (css : ∀ c ∈ s, isBlank c = true → isCssBlank c = true) :
    s.dropWhile isCssBlank = s.dropWhile isBlank := by
  induction s with
  | nil => rfl
  | cons c s ih =>
    obtain ⟨hcss, later⟩ := List.forall_mem_cons.mp css
    cases hc : isBlank c with
    | true => rw [List.dropWhile_cons_of_pos (hcss hc), List.dropWhile_cons_of_pos hc, ih later]
    | false =>
      rw [List.dropWhile_cons_of_neg (by simp [isCssBlank_of_not_isBlank hc]),
        List.dropWhile_cons_of_neg (by simp [hc])]

theorem dropWhile_isCssBlank_collapseAfter (s : Text) :
    (collapseAfter s).dropWhile isCssBlank = collapse s := by
  have kept : (collapse s).dropWhile isCssBlank = collapse s := by
    cases hs : collapse s with
    | nil => rfl
    | cons c t =>
      have ink := isCssBlank_of_not_isBlank (flush_collapse s c (by rw [hs]; rfl))
      rw [List.dropWhile_cons_of_neg (by simp [ink])]
  rw [collapseAfter]
  split
  · rw [List.dropWhile_cons_of_pos rfl, kept]
  · exact kept

/-- Where no quote follows, an address begins behind the blanks. -/
theorem afterAddress?_eq {t : Text}
    (unquoted : ∀ c ∈ (t.dropWhile isCssBlank).head?, isQuote c = false) :
    afterAddress? t = some (skipAddress .content 0 (t.dropWhile isCssBlank)) := by
  unfold afterAddress?
  split
  · rename_i nothing
    rw [nothing]
    rfl
  · rename_i c rest hrest
    rw [hrest] at unquoted ⊢
    have hc := unquoted c rfl
    rw [if_neg]
    rintro (rfl | rfl) <;> cases hc

theorem afterAddress?_collapseAfter {s : Text} (h : Steady s) :
    ∃ t, Steady t ∧ afterAddress? s = some t ∧
      afterAddress? (collapseAfter s) = some (collapseAfter t) := by
  have rest : Steady (s.dropWhile isCssBlank) := h.dropWhile rfl
  have unquoted := rest.unquoted
  have collapsed : (collapseAfter s).dropWhile isCssBlank =
      collapseAfter (s.dropWhile isCssBlank) := by
    rw [dropWhile_isCssBlank_collapseAfter, collapse_eq_dropWhile, dropWhile_isCssBlank h.css]
  refine ⟨_, skipAddress_steady rest, afterAddress?_eq unquoted, ?_⟩
  rw [afterAddress?_eq, collapsed, skipAddress_collapseAfter rest]
  rw [collapsed]
  exact head?_collapseAfter rfl unquoted

end StyleTypings.Css
