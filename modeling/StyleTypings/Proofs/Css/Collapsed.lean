/-
Collapsed selectors — the classes of a selector whatever its blanks.

What a steady text collapses to has the same tokens, but for the blanks at its beginning and
at its end (`tokens_collapse`).  A token for blanks before or behind everything else mentions
no class, also where the end of the text leaves brackets open, so the classes are the same
(`ofSelector_collapse`).  They are not the same for every text without quotes, since the
blank of an escape may be taken for another.
-/
import StyleTypings.Proofs.Css.Brackets
import StyleTypings.Proofs.Css.Readers
import Mathlib.Data.List.DropRight

namespace StyleTypings.Css

open Text

/-! ## Tokens -/

theorem takeToken_blank {b : Char} (hb : isCssBlank b = true) (t : Text) :
    takeToken b t = (some .blank, t.dropWhile isCssBlank) := by
  have other := of_isCssBlank (p := (! marks.contains ·)) (by decide) hb
  rw [Bool.not_eq_true', List.contains_eq_mem, decide_eq_false_iff_not] at other
  rw [takeToken_of_not_mem_marks other, if_pos hb]

/-- The blanks at the beginning of a text are one token. -/
theorem tokens_cons_blank {b : Char} (hb : isCssBlank b = true) (t : Text) :
    tokens (b :: t) = .blank :: tokens (t.dropWhile isCssBlank) := by
  rw [tokens_cons, takeToken_blank hb]
  rfl

/-- A token for blanks, or none. -/
def Gap (ts : List Token) : Prop := ts = [] ∨ ts = [.blank]

/-- A steady text has the tokens of what it collapses to, and maybe blanks at its end. -/
theorem tokens_collapseAfter {s : Text} (h : Steady s) :
    ∃ after, Gap after ∧ tokens s = tokens (collapseAfter s) ++ after := by
  induction hn : s.length using Nat.strong_induction_on generalizing s with
  | h n ih =>
    cases s with
    | nil => exact ⟨[], .inl rfl, rfl⟩
    | cons c t =>
      have shorter {u : Text} (hu : u.length ≤ t.length) : u.length < n :=
        hn ▸ Nat.lt_succ_of_le hu
      cases hc : isBlank c with
      | true =>
        have blank := h.css c List.mem_cons_self hc
        have behind := h.tail (ne_of_isBlank hc rfl)
        have ink := dropWhile_isCssBlank behind.css
        obtain ⟨after, gap, later⟩ :=
          ih _ (shorter (List.dropWhile_suffix isCssBlank).length_le) (behind.dropWhile rfl) rfl
        rw [tokens_cons_blank blank, collapseAfter_dropWhile hc, ← ink]
        by_cases nothing : t.dropWhile isCssBlank = []
        · exact ⟨[.blank], .inr rfl, by rw [nothing, if_pos rfl]; rfl⟩
        · have kept : (collapseAfter (t.dropWhile isCssBlank)).dropWhile isCssBlank =
              collapseAfter (t.dropWhile isCssBlank) := by
            rw [dropWhile_isCssBlank_collapseAfter, collapse_eq_dropWhile, ink,
              List.dropWhile_idempotent]
          refine ⟨after, gap, ?_⟩
          rw [if_neg nothing, tokens_cons_blank rfl, kept, later, List.cons_append]
      | false =>
        have token := takeToken_commutes h hc
        obtain ⟨after, gap, later⟩ := ih _ (shorter (takeToken_length_le c t)) token.steady rfl
        refine ⟨after, gap, ?_⟩
        rw [collapseAfter_cons hc, tokens_cons, tokens_cons, token.eq, later, List.append_assoc]

/-- A steady text has the tokens of what it collapses to, and maybe blanks around them. -/
theorem tokens_collapse {s : Text} (h : Steady s) :
    ∃ before after, Gap before ∧ Gap after ∧ tokens s = before ++ tokens (collapse s) ++ after := by
  obtain ⟨after, gap, later⟩ := tokens_collapseAfter (h.dropWhile (p := isCssBlank) rfl)
  have inked : collapse s = collapseAfter (s.dropWhile isCssBlank) := by
    rw [collapse_eq_dropWhile, dropWhile_isCssBlank h.css]
  cases s with
  | nil => exact ⟨[], [], .inl rfl, .inl rfl, rfl⟩
  | cons c t =>
    cases hc : isCssBlank c with
    | true =>
      refine ⟨[.blank], after, .inr rfl, gap, ?_⟩
      rw [List.dropWhile_cons_of_pos hc] at later inked
      rw [inked, tokens_cons_blank hc, later]
      rfl
    | false =>
      refine ⟨[], after, .inl rfl, gap, ?_⟩
      rw [List.dropWhile_cons_of_neg (by simp [hc])] at later inked
      rw [inked, later]
      rfl

end StyleTypings.Css

namespace StyleTypings.Classes

open Css Text

/-! ## Classes -/

/-- Components that mention the same classes, whatever stands before them. -/
def SameScan (cs ds : List Component) : Prop := ∀ before, scan before cs = scan before ds

theorem SameScan.append_left {cs ds : List Component} (h : SameScan cs ds) (es : List Component) :
    SameScan (es ++ cs) (es ++ ds) := by
  induction es with
  | nil => exact h
  | cons e es ih =>
    intro before
    cases e with
    | token t =>
      rw [List.cons_append, List.cons_append, scan, scan, ih]
    | block o content =>
      rw [List.cons_append, List.cons_append, scan, scan, ih]

theorem SameScan.block {cs ds : List Component} (h : SameScan cs ds) (o : Opener) :
    SameScan [.block o cs] [.block o ds] := by
  intro before
  simp only [scan, within, h .other]

/-- A blank mentions nothing. -/
theorem sameScan_blank : SameScan [.token .blank] [] := by
  intro before
  rfl

/-- What stands last before all brackets are closed may be replaced by what mentions the same. -/
theorem SameScan.closeAll {cs ds : List Component} (h : SameScan cs ds)
    (opened : List (Opener × List Component)) (outside : List Component) :
    SameScan ((Nesting.addAll ⟨opened, outside⟩ cs).closeAll opened.length)
      ((Nesting.addAll ⟨opened, outside⟩ ds).closeAll opened.length) := by
  induction opened generalizing cs ds with
  | nil =>
    have outermost (es : List Component) :
        (Nesting.addAll ⟨[], outside⟩ es).closeAll 0 = outside.reverse ++ es := by
      rw [Nesting.addAll_outside, Nesting.closeAll, List.reverse_append, List.reverse_reverse]
    rw [List.length_nil, outermost, outermost]
    exact h.append_left _
  | cons frame opened ih =>
    obtain ⟨o, content⟩ := frame
    have close (es : List Component) :
        (Nesting.addAll ⟨(o, content) :: opened, outside⟩ es).closeAll (opened.length + 1) =
          (Nesting.addAll ⟨opened, outside⟩ [.block o (content.reverse ++ es)]).closeAll
            opened.length := by
      rw [Nesting.addAll_opened, Nesting.closeAll, Nesting.close, List.reverse_append,
        List.reverse_reverse]
      rfl
    rw [List.length_cons, close, close]
    exact ih ((h.append_left _).block o)

theorem blank_plain : Token.Plain .blank := ⟨rfl, fun o => by cases o <;> rfl⟩

/-- Blanks at the end of a text mention nothing. -/
theorem scan_concat_blank (ts : List Token) :
    SameScan (componentsOf (ts ++ [.blank])) (componentsOf ts) := by
  have opened (n : Nesting) : (n.add (.token .blank)).opened.length = n.opened.length := by
    obtain ⟨_ | ⟨frame, opened⟩, outside⟩ := n <;> rfl
  rw [componentsOf, componentsOf, List.foldl_append, List.foldl_cons, List.foldl_nil,
    Nesting.step_plain blank_plain, opened]
  exact sameScan_blank.closeAll _ _

/-- Blanks around a text mention nothing. -/
theorem scan_gaps {before after : List Token} (hb : Gap before) (ha : Gap after)
    (ts : List Token) :
    scan .other (componentsOf (before ++ ts ++ after)) = scan .other (componentsOf ts) := by
  have first : scan .other (componentsOf (before ++ ts)) = scan .other (componentsOf ts) := by
    rcases hb with rfl | rfl
    · rfl
    · rw [List.singleton_append, componentsOf_cons blank_plain, scan]
      rfl
  rcases ha with rfl | rfl
  · rw [List.append_nil, first]
  · rw [scan_concat_blank, first]

/-- Collapsing the blanks of a steady text changes none of the classes that it mentions. -/
theorem ofSelector_collapse {s : Text} (h : Steady s) : ofSelector (collapse s) = ofSelector s := by
  obtain ⟨before, after, gap, gap', htokens⟩ := tokens_collapse h
  rw [ofSelector, ofSelector, components, components, htokens, scan_gaps gap gap']

/-- Runs of blanks, an escaped space, and a code that a line break ends. -/
theorem ofSelector_collapse_escapes :
    let s : Text := [' ', '.', 'a', '\\', ' ', 'b', '\t', ' ', '.', '\\', '3', '1', '\n', 'c', ' ']
    Steady s ∧ ofSelector (collapse s) = ofSelector s ∧
      ofSelector s = [['a', ' ', 'b'], ['1', 'c']] := by
  have last : Steady ['c', ' '] := .of_all (by decide)
  have digits : IsCode ['3', '1'] ['\n', 'c', ' '] := by
    refine ⟨List.all_eq_true.mp (by decide), by decide, by decide, .inr ?_⟩
    rintro _ ⟨⟩
    rfl
  have code : Steady ['\\', '3', '1', '\n', 'c', ' '] := by
    refine .escape (.code (w := ['\n']) digits rfl (.inl ?_)) last
    rintro _ ⟨⟩
    rfl
  have space : Steady ['\\', ' ', 'b', '\t', ' ', '.', '\\', '3', '1', '\n', 'c', ' '] := by
    refine .escape (.space ?_ (List.cons_ne_nil _ _)) ?_
    · rintro _ ⟨⟩
      rfl
    · exact .plain rfl (by decide) rfl (.blank rfl (.blank rfl (.plain rfl (by decide) rfl code)))
  have steady := Steady.blank (b := ' ') rfl
    (.plain (c := '.') rfl (by decide) rfl (.plain (c := 'a') rfl (by decide) rfl space))
  exact ⟨steady, ofSelector_collapse steady, by decide⟩

/-- An escaped space before another one is lost, and the space between two selectors is escaped
in its place: the name of the type behind it comes to the name of the class. -/
theorem not_forall_ofSelector_collapse :
    ¬ ∀ s : Text, (∀ c ∈ s, isQuote c = false) → ofSelector (collapse s) = ofSelector s := by
  intro h
  have same := h ['.', 'a', '\\', ' ', ' ', 'b'] (forall_eq_false (by decide))
  exact absurd same (by decide)

/-- So is a blank behind the one that ends a code. -/
example : ofSelector (collapse ['.', '\\', '3', '1', ' ', ' ', 'b']) = [['1', 'b']] ∧
    ofSelector ['.', '\\', '3', '1', ' ', ' ', 'b'] = [['1']] := by decide

end StyleTypings.Classes
