/-
Steady texts — texts whose escapes stay as they are when blanks are collapsed.

To most readers of CSS a run of blanks is one blank.  An escape is different: it may be an
escaped blank, and one blank ends a code.  A text is steady if it has no blanks but those of
CSS, a blank that is escaped is one space between an escape and something else, and no blanks
follow the one that ends a code unless nothing else does.  Then every escape stands for the
same when the text is collapsed, and what it leaves of the one text collapses to what it
leaves of the other (`Escaped.escapes`).
-/
import StyleTypings.Proofs.Collapsing
import StyleTypings.Proofs.Css.Reading

namespace StyleTypings.Css

open Text

/-! ## Blanks -/

/-- All blanks of CSS. -/
def cssBlanks : List Char := [' ', '\t', '\n', '\r', Char.ofNat 0xC]

theorem mem_cssBlanks {b : Char} (hb : isCssBlank b = true) : b ∈ cssBlanks := by
  simp only [isCssBlank, isNewline, Bool.or_eq_true, beq_iff_eq] at hb
  simp only [cssBlanks, List.mem_cons, List.not_mem_nil, or_false]
  tauto

theorem of_isCssBlank {p : Char → Bool} (h : cssBlanks.all p = true) {b : Char}
    (hb : isCssBlank b = true) : p b = true :=
  List.all_eq_true.mp h b (mem_cssBlanks hb)

theorem isBlank_of_isCssBlank {c : Char} (h : isCssBlank c = true) : isBlank c = true :=
  of_isCssBlank (by decide) h

theorem isCssBlank_of_not_isBlank {c : Char} (h : isBlank c = false) : isCssBlank c = false := by
  cases hc : isCssBlank c with
  | false => rfl
  | true => exact absurd ((isBlank_of_isCssBlank hc).symm.trans h) (by decide)

/-! ## Escapes -/

/-- What stands behind a backslash, with what is left behind the escape.  An escaped blank is
a space with something else behind it; behind a code and the blank that ends it, if one does,
there is something else or nothing but blanks. -/
inductive Escaped : Text → Text → Prop where
  | nothing : Escaped [] []
  | char {c : Char} {s : Text} (code : isHexDigit c = false) (ink : isBlank c = false) :
    Escaped (c :: s) s
  | space {s : Text} (flush : Flush s) (ne : s ≠ []) : Escaped (' ' :: s) s
  | code {ds w s : Text} (code : IsCode ds (w ++ s)) (ending : blankLength (w ++ s) = w.length)
    (behind : Flush s ∨ ∀ c ∈ s, isBlank c = true) : Escaped (ds ++ (w ++ s)) s

/-- A text without quotes and without blanks that are none of CSS, in which no escape depends
on how many blanks there are. -/
inductive Steady : Text → Prop where
  | nil : Steady []
  | blank {b : Char} {s : Text} (blank : isCssBlank b = true) (rest : Steady s) : Steady (b :: s)
  | plain {c : Char} {s : Text} (ink : isBlank c = false) (unescaped : c ≠ '\\')
    (unquoted : isQuote c = false) (rest : Steady s) : Steady (c :: s)
  | escape {r s : Text} (escaped : Escaped r s) (rest : Steady s) : Steady ('\\' :: r)

/-- Where nothing is escaped, all that matters is what the blanks are. -/
theorem Steady.of_all {s : Text}
    (h : s.all fun c => c != '\\' && ! isQuote c && (! isBlank c || isCssBlank c)) : Steady s := by
  induction s with
  | nil => exact .nil
  | cons c s ih =>
    simp only [List.all_cons, Bool.and_eq_true, bne_iff_ne, Bool.not_eq_true', Bool.or_eq_true] at h
    obtain ⟨⟨⟨unescaped, unquoted⟩, ink | css⟩, later⟩ := h
    · exact .plain ink unescaped unquoted (ih (by simpa using later))
    · exact .blank css (ih (by simpa using later))

/-- What stands behind a backslash is an escape that leaves a text, and is the same escape
when it is collapsed. -/
structure Escapes (r s : Text) : Prop where
  line : atNewline r = false
  line' : atNewline (collapseAfter r) = false
  char : (escape (collapseAfter r)).1 = (escape r).1
  leaves : r.drop (escape r).2 = s
  leaves' : (collapseAfter r).drop (escape (collapseAfter r)).2 = collapseAfter s

/-- What ends a code is blank. -/
theorem mem_take_blankLength {t : Text} : ∀ c ∈ t.take (blankLength t), isCssBlank c = true := by
  unfold blankLength
  split
  · simp only [List.take_succ_cons, List.take_zero, List.forall_mem_cons]
    exact ⟨rfl, rfl, List.forall_mem_nil _⟩
  · split
    · rename_i blank
      simpa using blank
    · simp
  · simp

theorem isCssBlank_of_ending {w s : Text} (ending : blankLength (w ++ s) = w.length) :
    ∀ c ∈ w, isCssBlank c = true := by
  have := mem_take_blankLength (t := w ++ s)
  rwa [ending, List.take_left] at this

/-- The blanks of a steady text are those of CSS. -/
theorem Steady.css {s : Text} (h : Steady s) : ∀ c ∈ s, isBlank c = true → isCssBlank c = true := by
  induction h with
  | nil => exact List.forall_mem_nil _
  | blank blank _ ih => exact List.forall_mem_cons.mpr ⟨fun _ => blank, ih⟩
  | plain ink _ _ _ ih =>
    exact List.forall_mem_cons.mpr ⟨fun hc => absurd (hc.symm.trans ink) (by decide), ih⟩
  | escape escaped _ ih =>
    refine List.forall_mem_cons.mpr ⟨fun hc => absurd hc (by decide), ?_⟩
    cases escaped with
    | nothing => exact ih
    | char _ ink =>
      exact List.forall_mem_cons.mpr ⟨fun hc => absurd (hc.symm.trans ink) (by decide), ih⟩
    | space _ _ => exact List.forall_mem_cons.mpr ⟨fun _ => rfl, ih⟩
    | code code ending _ =>
      refine List.forall_mem_append.mpr ⟨fun d hd hblank => ?_,
        List.forall_mem_append.mpr ⟨fun c hc _ => isCssBlank_of_ending ending c hc, ih⟩⟩
      exact absurd (hblank.symm.trans (isBlank_of_isHexDigit (code.digits d hd))) (by decide)

/-- A steady text begins with no quote. -/
theorem Steady.unquoted {s : Text} (h : Steady s) : ∀ c ∈ s.head?, isQuote c = false := by
  cases h with
  | nil => exact nofun
  | @blank b s blank _ =>
    rintro _ ⟨⟩
    simpa using of_isCssBlank (p := (! isQuote ·)) (by decide) blank
  | plain _ _ unquoted _ =>
    rintro _ ⟨⟩
    exact unquoted
  | escape _ _ =>
    rintro _ ⟨⟩
    rfl

theorem blankLength_of_flush {s : Text} (h : Flush s) : blankLength s = 0 := by
  cases s with
  | nil => rfl
  | cons c s =>
    have none := mem_take_blankLength (t := c :: s)
    cases hlength : blankLength (c :: s) with
    | zero => rfl
    | succ n =>
      rw [hlength, List.take_succ_cons] at none
      have blank := isBlank_of_isCssBlank (none c List.mem_cons_self)
      exact absurd (blank.symm.trans (h c rfl)) (by decide)

/-- Where a code ends in a text, it ends in what the text collapses to. -/
theorem ending_collapseAfter {w s : Text} (ending : blankLength (w ++ s) = w.length)
    (behind : Flush s ∨ ∀ c ∈ s, isBlank c = true) :
    ∃ w', collapseAfter (w ++ s) = w' ++ collapseAfter s ∧
      blankLength (w' ++ collapseAfter s) = w'.length := by
  have blanks (c : Char) (hc : c ∈ w) := isBlank_of_isCssBlank (isCssBlank_of_ending ending c hc)
  have atEnd (h : ∀ c ∈ s, isBlank c = true) :
      ∃ w', collapseAfter (w ++ s) = w' ++ collapseAfter s ∧
        blankLength (w' ++ collapseAfter s) = w'.length := by
    refine ⟨[], ?_, ?_⟩
    · rw [collapseAfter_of_blank h, collapseAfter_of_blank]
      · rfl
      · exact List.forall_mem_append.mpr ⟨blanks, h⟩
    · rw [collapseAfter_of_blank h]
      rfl
  rcases behind with flush | h
  · by_cases ne : s = []
    · exact atEnd (by simp [ne])
    · by_cases some : w = []
      · subst some
        exact ⟨[], rfl, blankLength_of_flush flush.collapseAfter⟩
      · exact ⟨[' '], collapseAfter_append blanks some flush ne, rfl⟩
  · exact atEnd h

theorem Escaped.escapes {r s : Text} (h : Escaped r s) : Escapes r s := by
  cases h with
  | nothing => exact ⟨rfl, rfl, rfl, rfl, rfl⟩
  | @char c s code ink =>
    have line : isNewline c = false := (Bool.or_eq_false_iff.mp (isCssBlank_of_not_isBlank ink)).2
    have one (t : Text) : escape (c :: t) = (if c = '\x00' then replacementChar else c, 1) := by
      simp only [escape, code, Bool.false_eq_true, if_false]
      split <;> rfl
    have behind := collapseAfter_cons ink s
    refine ⟨line, ?_, ?_, ?_, ?_⟩
    · rw [behind]
      exact line
    · rw [behind, one, one]
    · rw [one]
      rfl
    · rw [behind, one]
      rfl
  | space flush ne =>
    have behind : collapseAfter (' ' :: s) = ' ' :: collapseAfter s :=
      collapseAfter_append (w := [' ']) (by simp; rfl) (List.cons_ne_nil _ _) flush ne
    refine ⟨rfl, ?_, ?_, rfl, ?_⟩
    · rw [behind]
      rfl
    · rw [behind]
      rfl
    · rw [behind]
      rfl
  | @code ds w s code ending behind =>
    obtain ⟨w', hcollapse, hending⟩ := ending_collapseAfter ending behind
    have whole : collapseAfter (ds ++ (w ++ s)) = ds ++ (w' ++ collapseAfter s) := by
      rw [collapseAfter_append_left fun d hd => isBlank_of_isHexDigit (code.digits d hd), hcollapse]
    have code' : IsCode ds (w' ++ collapseAfter s) := by
      refine ⟨code.digits, code.ne_nil, code.length_le, ?_⟩
      rw [← hcollapse]
      exact code.ends.imp id (head?_collapseAfter rfl)
    have line (t : Text) : atNewline (ds ++ t) = false := by
      obtain ⟨d, rest, rfl⟩ := List.exists_cons_of_ne_nil code.ne_nil
      exact atNewline_of_isHexDigit (code.digits d List.mem_cons_self) _
    refine ⟨line _, ?_, ?_, ?_, ?_⟩
    · rw [whole]
      exact line _
    · rw [whole, escape_code code', escape_code code]
    · rw [escape_code code, ending, List.drop_length_add_append, List.drop_left]
    · rw [whole, escape_code code', hending, List.drop_length_add_append, List.drop_left]

/-! ## Parts of a steady text -/

/-- What stands behind a backslash is an escape. -/
theorem Steady.escaped {r : Text} (h : Steady ('\\' :: r)) : ∃ s, Escaped r s ∧ Steady s := by
  cases h with
  | blank blank _ => cases blank
  | plain _ unescaped _ _ => exact absurd rfl unescaped
  | escape escaped rest => exact ⟨_, escaped, rest⟩

/-- What reads the same from nothing and from blanks, and behind a character from what comes
after it and from what that collapses to, reads the same from the whole text. -/
theorem Steady.same {α : Type} {f : Text → α} {s : Text} (h : Steady s)
    (blank : ∀ b t, isCssBlank b = true → f (b :: t) = f [])
    (ink : ∀ c t, s = c :: t → isBlank c = false → f (c :: collapseAfter t) = f (c :: t)) :
    f (collapseAfter s) = f s := by
  obtain ⟨rfl, -⟩ | ⟨b, t, rfl, hb, hs⟩ | ⟨c, t, rfl, hc, hs⟩ := collapseAfter_cases s
  · rfl
  · rw [blank b t (h.css b List.mem_cons_self hb)]
    rcases hs with hs | ⟨t', hs⟩
    · rw [hs]
    · rw [hs, blank ' ' t' rfl]
  · rw [hs, ink c t rfl hc]

theorem Steady.tail {c : Char} {s : Text} (h : Steady (c :: s)) (unescaped : c ≠ '\\') :
    Steady s := by
  cases h with
  | blank _ rest => exact rest
  | plain _ _ _ rest => exact rest
  | escape _ _ => exact absurd rfl unescaped

theorem Steady.dropWhile {p : Char → Bool} (hp : p '\\' = false) {s : Text} (h : Steady s) :
    Steady (s.dropWhile p) := by
  induction s with
  | nil => exact h
  | cons c s ih =>
    cases hc : p c with
    | true =>
      rw [List.dropWhile_cons_of_pos hc]
      refine ih (h.tail ?_)
      rintro rfl
      exact absurd (hc.symm.trans hp) (by decide)
    | false =>
      rw [List.dropWhile_cons_of_neg (by simp [hc])]
      exact h

/-- A steady text is steady behind any character that has no part in a code and is no
backslash. -/
theorem Steady.behind {c : Char} {t u v : Text} (h : Steady t) (heq : t = u ++ c :: v)
    (hex : isHexDigit c = false) (ink : isBlank c = false) (unescaped : c ≠ '\\') : Steady v := by
  have later {d : Char} {s u : Text} (heq : d :: s = u ++ c :: v) :
      (c = d ∧ v = s) ∨ ∃ u', s = u' ++ c :: v := by
    cases u with
    | nil => exact .inl ⟨(List.cons.inj heq).1.symm, (List.cons.inj heq).2.symm⟩
    | cons _ u => exact .inr ⟨u, (List.cons.inj heq).2⟩
  induction h generalizing u with
  | nil => simp at heq
  | blank _ rest ih =>
    obtain ⟨rfl, rfl⟩ | ⟨u', hs⟩ := later heq
    · exact rest
    · exact ih hs
  | plain _ _ _ rest ih =>
    obtain ⟨rfl, rfl⟩ | ⟨u', hs⟩ := later heq
    · exact rest
    · exact ih hs
  | escape escaped rest ih =>
    obtain ⟨rfl, -⟩ | ⟨u', hr⟩ := later heq
    · exact absurd rfl unescaped
    · cases escaped with
      | nothing => simp at hr
      | char _ _ =>
        obtain ⟨rfl, rfl⟩ | ⟨u', hs⟩ := later hr
        · exact rest
        · exact ih hs
      | space _ _ =>
        obtain ⟨rfl, rfl⟩ | ⟨u', hs⟩ := later hr
        · exact rest
        · exact ih hs
      | code code ending _ =>
        have digits : c ∉ _ := fun hc => absurd ((code.digits c hc).symm.trans hex) (by decide)
        obtain ⟨_, -, hs⟩ := exists_of_append_eq hr digits
        have blanks : c ∉ _ := fun hc =>
          ne_of_isBlank (isBlank_of_isCssBlank (isCssBlank_of_ending ending c hc)) ink rfl
        obtain ⟨_, -, hs⟩ := exists_of_append_eq hs blanks
        exact ih hs

end StyleTypings.Css
