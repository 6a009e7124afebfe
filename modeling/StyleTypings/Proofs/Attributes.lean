/-
Attributes — a string in an attribute selector on its way through compilation.

Comments, pieces, lists and tokens are read with regard to strings, so whatever stands in
the quotes of `[title="..."]` is nothing to them.  Three steps have no regard to strings:
the prelude is cut at a guard, extensions are dropped, and the parent is put in the place of
every ampersand.  What they leave is still a string that goes on to the end of the selector
or to the bracket behind it (`Unfinished`).  So the class with the attribute comes out unless
the guard, which is then made up by the string, fails; and the class of the parent comes out
with it unless an ampersand is left in the string (`titledClasses_eq`).
-/
import StyleTypings.Proofs.Combinations
import StyleTypings.Proofs.Decoding
import StyleTypings.Proofs.Evaluation.Likeness
import StyleTypings.Proofs.Interpolation
import StyleTypings.Proofs.Printing
import StyleTypings.Proofs.QuotedValues

namespace StyleTypings.Less

open Css Halting Eval

/-! ## Strings that are cut short -/

/-- What may stand behind the first quote of a string in an attribute selector: the content,
and perhaps the closing quote and the bracket behind it. -/
structure Unfinished (w : Text) : Prop where
  unescaped : '\\' ∉ w
  oneLine : ∀ c ∈ w, isNewline c = false
  closes : ∀ rest, '"' :: rest <:+ w → rest <+: "]"

/-- A selector with the parent in the place of each ampersand. -/
def withParent (parent selector : Text) : Text :=
  selector.flatMap fun c => if c = '&' then parent else [c]

namespace Unfinished

variable {v w : Text}

theorem cons {c : Char} (ne : c ≠ '\\' ∧ c ≠ '"') (line : isNewline c = false) (h : Unfinished w) :
    Unfinished (c :: w) := by
  refine ⟨?_, List.forall_mem_cons.mpr ⟨line, h.oneLine⟩, ?_⟩
  · rw [List.mem_cons, not_or]
    exact ⟨Ne.symm ne.1, h.unescaped⟩
  · intro rest hrest
    rcases List.suffix_cons_iff.mp hrest with heq | hrest
    · exact absurd (List.cons.inj heq).1.symm ne.2
    · exact h.closes rest hrest

theorem of_closed (quote : '"' ∉ w) (unescaped : '\\' ∉ w)
    (oneLine : ∀ c ∈ w, isNewline c = false) : Unfinished (w ++ "\"]") := by
  induction w with
  | nil =>
    refine ⟨by decide, Text.forall_eq_false (by decide), ?_⟩
    intro rest h
    rcases List.suffix_cons_iff.mp h with heq | h
    · rw [(List.cons.inj heq).2]
      exact List.prefix_rfl
    · exact absurd (h.mem List.mem_cons_self) (by decide)
  | cons c w ih =>
    rw [List.mem_cons, not_or] at quote unescaped
    obtain ⟨line, later⟩ := List.forall_mem_cons.mp oneLine
    exact (ih quote.2 unescaped.2 later).cons ⟨Ne.symm unescaped.1, Ne.symm quote.1⟩ line

theorem of_suffix (h : Unfinished w) (hv : v <:+ w) : Unfinished v :=
  ⟨fun hmem => h.unescaped (hv.mem hmem), fun c hc => h.oneLine c (hv.mem hc),
    fun rest hrest => h.closes rest (hrest.trans hv)⟩

theorem of_prefix (h : Unfinished w) (hv : v <+: w) : Unfinished v := by
  obtain ⟨x, rfl⟩ := hv
  refine ⟨?_, ?_, ?_⟩
  · exact fun hmem => h.unescaped (List.mem_append_left x hmem)
  · exact fun c hc => h.oneLine c (List.mem_append_left x hc)
  · intro rest hrest
    obtain ⟨before, rfl⟩ := hrest
    have whole : '"' :: (rest ++ x) <:+ before ++ '"' :: rest ++ x := ⟨before, by simp⟩
    exact (List.prefix_append rest x).trans (h.closes _ whole)

theorem collapse (h : Unfinished w) : Unfinished (Text.collapse w) := by
  refine ⟨?_, ?_, ?_⟩
  · rw [Text.mem_collapse_iff rfl]
    exact h.unescaped
  · intro c hc
    cases blank : isBlank c with
    | true =>
      rw [Text.eq_space_of_mem_collapse hc blank]
      decide
    | false => exact h.oneLine c ((Text.mem_collapse_iff blank).mp hc)
  · intro rest hrest
    obtain ⟨after, suffix, rfl⟩ := Text.suffix_collapse rfl hrest
    rcases List.prefix_cons_iff.mp (h.closes after suffix) with rfl | ⟨none, rfl, hnone⟩
    · exact List.nil_prefix
    · rw [List.prefix_nil.mp hnone]
      exact List.prefix_rfl

theorem collapseAfter (h : Unfinished w) : Unfinished (Text.collapseAfter w) := by
  rw [Text.collapseAfter]
  split
  · exact h.collapse.cons ⟨by decide, by decide⟩ (by decide)
  · exact h.collapse

/-- A string that is cut short, or closed and followed by the bracket, is one part of a list. -/
theorem splitFrom_eq (h : Unfinished w) : splitFrom ',' ⟨false, some '"', 1⟩ w = [w] := by
  induction w with
  | nil => rfl
  | cons c w ih =>
    by_cases quote : c = '"'
    · subst quote
      rcases List.prefix_cons_iff.mp (h.closes w (List.suffix_refl _)) with rfl | ⟨none, rfl, hnone⟩
      · rfl
      · rw [List.prefix_nil.mp hnone]
        rfl
    · have escape : c ≠ '\\' := by
        rintro rfl
        exact h.unescaped List.mem_cons_self
      have opened : ¬ ((⟨false, some '"', 1⟩ : Openness) = .none ∧ c = ',') := fun h => nomatch h.1
      rw [splitFrom_cons_of_open opened, Openness.after_in_string quote escape,
        ih (h.of_suffix (List.suffix_cons c w))]
      rfl

/-- It is read as a string, with no more than the bracket left. -/
theorem takeString_eq (h : Unfinished w) :
    ∃ content rest, takeString '"' 0 w = (some content, rest) ∧ rest <+: "]" := by
  induction w with
  | nil => exact ⟨[], [], rfl, List.nil_prefix⟩
  | cons c w ih =>
    by_cases quote : c = '"'
    · subst quote
      exact ⟨[], w, by rw [takeString, if_pos rfl], h.closes w (List.suffix_refl _)⟩
    · obtain ⟨content, rest, hstring, hrest⟩ := ih (h.of_suffix (List.suffix_cons c w))
      have escape : c ≠ '\\' := by
        rintro rfl
        exact h.unescaped List.mem_cons_self
      refine ⟨(if c = '\x00' then replacementChar else c) :: content, rest, ?_, hrest⟩
      rw [takeString, if_neg quote, h.oneLine c List.mem_cons_self, if_neg Bool.false_ne_true,
        if_neg escape, hstring]
      rfl

/-- Its tokens are a string and perhaps the closing bracket. -/
theorem reads (h : Unfinished w) : ∃ content after,
    Reads ('"' :: w) (.string content :: after) [] ∧ (after = [] ∨ after = [.closeSquare]) := by
  obtain ⟨content, rest, hstring, hrest⟩ := h.takeString_eq
  have token : takeToken '"' w = (some (.string content), rest) := by
    show (some (takeQuoted '"' w).1, (takeQuoted '"' w).2) = _
    rw [takeQuoted, hstring]
  have suffix := takeString_suffix '"' 0 w
  rw [hstring] at suffix
  have string := Reads.of_takeToken token suffix.length_le
  rcases List.prefix_cons_iff.mp hrest with rfl | ⟨none, rfl, hnone⟩
  · exact ⟨content, [], string, .inl rfl⟩
  · rw [List.prefix_nil.mp hnone] at string
    have bracket : Reads "]" [.closeSquare] [] := .of_takeToken rfl (Nat.le_refl _)
    exact ⟨content, [.closeSquare], string.trans bracket, .inr rfl⟩

/-- What is left of it when a piece is cut out, and perhaps more behind the piece. -/
theorem of_cut {piece after rest : Text} (long : 1 < piece.length) (hrest : rest <:+ after)
    (h : Unfinished (v ++ (piece ++ after))) : Unfinished (v ++ rest) := by
  induction v with
  | nil => exact h.of_suffix (hrest.trans (List.suffix_append piece after))
  | cons c v ih =>
    have quote : c ≠ '"' := by
      rintro rfl
      have short : (v ++ (piece ++ after)).length ≤ 1 :=
        (h.closes _ (List.suffix_refl _)).length_le
      rw [List.length_append, List.length_append] at short
      omega
    have escape : c ≠ '\\' := by
      rintro rfl
      exact h.unescaped List.mem_cons_self
    exact (ih (h.of_suffix (List.suffix_cons c _))).cons ⟨escape, quote⟩
      (h.oneLine c List.mem_cons_self)

/-- It stays so when the parent `.p` is put in the place of ampersands. -/
theorem withParent (h : Unfinished w) : Unfinished (withParent ".p" w) := by
  induction w with
  | nil => exact h
  | cons c w ih =>
    have later := ih (h.of_suffix (List.suffix_cons c w))
    by_cases ampersand : c = '&'
    · subst ampersand
      exact (later.cons (c := 'p') ⟨by decide, by decide⟩ (by decide)).cons (c := '.')
        ⟨by decide, by decide⟩ (by decide)
    · have stays : Less.withParent ".p" (c :: w) = c :: Less.withParent ".p" w := by
        rw [Less.withParent, List.flatMap_cons, if_neg ampersand]
        rfl
      rw [stays]
      by_cases quote : c = '"'
      · subst quote
        have closes := h.closes w (List.suffix_refl _)
        rcases List.prefix_cons_iff.mp closes with rfl | ⟨none, rfl, hnone⟩
        · exact h
        · rw [List.prefix_nil.mp hnone] at h ⊢
          exact h
      · have escape : c ≠ '\\' := by
          rintro rfl
          exact h.unescaped List.mem_cons_self
        exact later.cons ⟨escape, quote⟩ (h.oneLine c List.mem_cons_self)

end Unfinished

/-! ## Joining -/

theorem fill_replicate (parent selector : Text) :
    Selector.fill selector (List.replicate (selector.count '&') parent) =
      withParent parent selector := by
  induction selector with
  | nil => rfl
  | cons c t ih =>
    by_cases ampersand : c = '&'
    · rw [ampersand, List.count_cons_self, List.replicate_succ, Selector.fill, if_pos rfl, ih]
      rfl
    · rw [List.count_cons_of_ne ampersand, Selector.fill_cons_of_ne ampersand, ih, withParent,
        withParent, List.flatMap_cons, if_neg ampersand]
      rfl

/-- A selector is joined to one parent in the place of its ampersands, or behind it. -/
theorem joinOne_singleton (parent selector : Text) : Selector.joinOne [parent] selector =
    [if '&' ∈ selector then withParent parent selector else parent ++ [' '] ++ selector] := by
  rw [Selector.joinOne_eq (List.cons_ne_nil parent []), tuples_singleton, List.map_singleton,
    List.map_singleton, fill_replicate]
  by_cases some : '&' ∈ selector
  · rw [if_neg (fun none => List.count_eq_zero.mp none some), if_pos some]
  · rw [if_pos (List.count_eq_zero.mpr some), if_neg some]

/-! ## The class with the attribute -/

/-- What stands before the content of the attribute's string. -/
def titleStart : Text := ".c[title=\""

/-- The class `c` with an attribute whose string may be cut short. -/
inductive Titled : Text → Prop where
  | mk (w : Text) (h : Unfinished w) : Titled (titleStart ++ w)

theorem breakOn?_eq_some {pat t before after : Text}
    (h : Text.breakOn? pat t = some (before, after)) : t = before ++ (pat ++ after) := by
  induction t generalizing before with
  | nil =>
    rw [Text.breakOn?] at h
    split at h
    · rename_i empty
      cases h
      rw [List.isEmpty_iff.mp empty]
      rfl
    · cases h
  | cons c t ih =>
    rw [Text.breakOn?] at h
    split at h
    · rename_i begins
      cases h
      show c :: t = pat ++ after
      exact eq_append_of_isPrefixOf? begins
    · obtain ⟨⟨before', after'⟩, hbreak, heq⟩ := Option.map_eq_some_iff.mp h
      cases heq
      rw [ih hbreak]
      rfl

theorem closeParens_suffix {depth : Nat} {t inside after : Text}
    (h : closeParens depth t = some (inside, after)) : after <:+ t := by
  fun_induction closeParens depth t generalizing inside with
  | case1 => cases h
  | case2 rest =>
    cases h
    exact List.suffix_cons _ _
  | case3 depth rest ih =>
    obtain ⟨⟨inside', after'⟩, hclose, heq⟩ := Option.map_eq_some_iff.mp h
    cases heq
    exact (ih hclose).trans (List.suffix_cons _ _)
  | case4 depth rest ih =>
    obtain ⟨⟨inside', after'⟩, hclose, heq⟩ := Option.map_eq_some_iff.mp h
    cases heq
    exact (ih hclose).trans (List.suffix_cons _ _)
  | case5 depth c rest _ _ _ ih =>
    obtain ⟨⟨inside', after'⟩, hclose, heq⟩ := Option.map_eq_some_iff.mp h
    cases heq
    exact (ih hclose).trans (List.suffix_cons _ _)

theorem trimRight_append_blank {b : Char} (hb : isBlank b = true) (t : Text) :
    Text.trimRight (t ++ [b]) = Text.trimRight t := by
  rw [Text.trimRight, List.reverse_append, List.reverse_singleton, List.singleton_append,
    List.dropWhile_cons_of_pos hb]
  rfl

theorem trimRight_append {c : Char} (hc : isBlank c = false) (t : Text) :
    Text.trimRight (t ++ [c]) = t ++ [c] := by
  rw [Text.trimRight, List.reverse_append, List.reverse_singleton, List.singleton_append,
    List.dropWhile_cons_of_neg (by simp [hc]), List.reverse_cons, List.reverse_reverse]

theorem begins_trimRight (t : Text) : Text.trimRight t <+: t := by
  induction t using List.reverseRecOn with
  | nil => exact List.prefix_rfl
  | append_singleton t c ih =>
    cases hc : isBlank c with
    | true =>
      rw [trimRight_append_blank hc]
      exact ih.trans (List.prefix_append t [c])
    | false =>
      rw [trimRight_append hc]

/-- What stands before a guard, less the blanks at its end. -/
theorem begins_breakGuard (t : Text) : (Selector.breakGuard t).1 <+: t := by
  induction t with
  | nil => exact List.prefix_rfl
  | cons c t ih =>
    rw [Selector.breakGuard]
    split
    · exact List.nil_prefix
    · exact List.cons_prefix_cons.mpr ⟨rfl, ih⟩

theorem begins_splitGuard (t : Text) : (Selector.splitGuard t).1 <+: t := by
  have before := begins_breakGuard t
  rw [Selector.splitGuard]
  split
  · rename_i heq
    rw [heq] at before
    exact (begins_trimRight _).trans before
  · exact List.prefix_rfl

theorem breakGuard_append_fst {w : Text} (hw : ∀ c ∈ w, isBlank c = false) (t : Text) :
    (Selector.breakGuard (w ++ t)).1 = w ++ (Selector.breakGuard t).1 := by
  induction w with
  | nil => rfl
  | cons c w ih =>
    obtain ⟨hc, later⟩ := List.forall_mem_cons.mp hw
    rw [List.cons_append, Selector.breakGuard, afterWhen?_of_not_isBlank hc]
    exact congrArg (c :: ·) (ih later)

/-- What ends in a word is not trimmed when more stands behind it. -/
theorem prefix_trimRight_append {w : Text} (h : Text.endsInWord w = true) (t : Text) :
    w <+: Text.trimRight (w ++ t) := by
  induction t using List.reverseRecOn with
  | nil =>
    rcases w.eq_nil_or_concat with rfl | ⟨v, c, rfl⟩
    · exact List.nil_prefix
    · rw [List.concat_eq_append, Text.endsInWord_append, Bool.not_eq_true'] at h
      rw [List.append_nil, List.concat_eq_append, trimRight_append h]
  | append_singleton t c ih =>
    cases hc : isBlank c with
    | true =>
      rw [← List.append_assoc, trimRight_append_blank hc]
      exact ih
    | false =>
      rw [← List.append_assoc, trimRight_append hc, List.append_assoc]
      exact List.prefix_append w _

namespace Titled

variable {t u : Text}

theorem of_prefix (h : Titled t) (hu : u <+: t) (start : titleStart <+: u) : Titled u := by
  obtain ⟨w, unfinished⟩ := h
  obtain ⟨v, rfl⟩ := start
  exact ⟨v, unfinished.of_prefix ((List.prefix_append_right_inj _).mp hu)⟩

/-- The string begins before a guard does. -/
theorem splitGuard (h : Titled t) : Titled (Selector.splitGuard t).1 := by
  refine h.of_prefix (begins_splitGuard t) ?_
  obtain ⟨w, -⟩ := h
  have before : (Selector.breakGuard (titleStart ++ w)).1 =
      titleStart ++ (Selector.breakGuard w).1 := 
        breakGuard_append_fst (Text.forall_eq_false (by decide)) w
  rw [Selector.splitGuard]
  split
  · rename_i heq
    rw [heq] at before
    dsimp only at before ⊢
    rw [before]
    exact prefix_trimRight_append (by decide) _
  · exact List.prefix_append _ _

/-- The string begins before an extension does. -/
theorem dropExtend? (h : Titled t) (hu : Selector.dropExtend? t = some u) : Titled u := by
  obtain ⟨w, unfinished⟩ := h
  obtain ⟨⟨before, after⟩, hbreak, heq⟩ := Option.map_eq_some_iff.mp hu
  obtain ⟨v, rfl, rfl⟩ := Text.exists_of_append_eq (c := ':') (breakOn?_eq_some hbreak) (by decide)
  dsimp only at heq
  cases hclose : closeParens 0 after with
  | none =>
    rw [hclose] at heq
    dsimp only at heq
    rw [← heq]
    exact ⟨v, unfinished.of_prefix (List.prefix_append v _)⟩
  | some parts =>
    obtain ⟨inside, rest⟩ := parts
    rw [hclose] at heq
    dsimp only at heq
    rw [← heq, List.append_assoc]
    have long : 1 < (":extend(" : Text).length := by decide
    exact ⟨v ++ rest, Unfinished.of_cut long (closeParens_suffix hclose) unfinished⟩

theorem dropExtends (h : Titled t) (n : Nat) : Titled (Selector.dropExtends n t) := by
  induction n generalizing t with
  | zero => exact h
  | succ n ih =>
    rw [Selector.dropExtends]
    split
    · exact ih (h.dropExtend? ‹_›)
    · exact h

theorem collapse (h : Titled t) : Titled (Text.collapse t) := by
  obtain ⟨w, unfinished⟩ := h
  rw [Text.collapse_append_left (Text.forall_eq_false (by decide)) (by decide)]
  exact ⟨_, unfinished.collapseAfter⟩

theorem splitTop_eq (h : Titled t) : splitTop ',' t = [t] := by
  obtain ⟨w, unfinished⟩ := h
  have start : splitTop ',' (titleStart ++ w) =
      titleStart.foldr consFirst (splitFrom ',' ⟨false, some '"', 1⟩ w) := rfl
  rw [start, unfinished.splitFrom_eq]
  rfl

theorem withParent (h : Titled t) : Titled (Less.withParent ".p" t) := by
  obtain ⟨w, unfinished⟩ := h
  rw [Less.withParent, List.flatMap_append]
  exact ⟨_, unfinished.withParent⟩

theorem isEmpty_eq (h : Titled t) : t.isEmpty = false := by
  obtain ⟨w, -⟩ := h
  rfl

/-- Behind a parent there is one selector: the text with the parent in the place of its
ampersands, or behind the parent. -/
theorem join_eq (h : Titled t) : Selector.join [".p"] t =
    [if '&' ∈ t then Less.withParent ".p" (Text.collapse t) else ".p " ++ Text.collapse t] := by
  have some := h.collapse.isEmpty_eq
  rw [Selector.join, h.splitTop_eq, List.map_singleton, List.filter_cons_of_pos (by simp [some]),
    List.filter_nil, List.flatMap_singleton, joinOne_singleton]
  simp only [Text.mem_collapse_iff (c := '&') rfl]
  rfl

/-- The class of the text is `c`. -/
theorem reads (h : Titled t) : ∃ content after,
    Reads t ([.delim '.', .ident "c", .openSquare, .ident "title", .delim '=', .string content] ++
      after) [] ∧ (after = [] ∨ after = [.closeSquare]) := by
  obtain ⟨w, unfinished⟩ := h
  obtain ⟨content, after, hstring, hafter⟩ := unfinished.reads
  refine ⟨content, after, ?_, hafter⟩
  have point : Reads (titleStart ++ w) [.delim '.'] (("c[title=\"" : Text) ++ w) :=
    .of_takeToken rfl (Nat.le_refl _)
  have name : Reads (("c[title=\"" : Text) ++ w) [.ident "c"] (("[title=\"" : Text) ++ w) :=
    .of_takeToken rfl (Nat.le_refl _)
  have bracket : Reads (("[title=\"" : Text) ++ w) [.openSquare] (("title=\"" : Text) ++ w) :=
    .of_takeToken rfl (Nat.le_refl _)
  have title : Reads (("title=\"" : Text) ++ w) [.ident "title"] (("=\"" : Text) ++ w) :=
    .of_takeToken rfl (List.suffix_append ("itle" : Text) _).length_le
  have equals : Reads (("=\"" : Text) ++ w) [.delim '='] ('"' :: w) :=
    .of_takeToken rfl (Nat.le_refl _)
  exact point.trans (name.trans (bracket.trans (title.trans (equals.trans hstring))))

end Titled

/-! ## Classes -/

open Classes in
theorem Titled.ofSelector_eq {t : Text} (h : Titled t) : ofSelector t = ["c"] := by
  obtain ⟨content, after, hreads, rfl | rfl⟩ := h.reads
  · rw [ofSelector, components, hreads.tokens_eq]
    rfl
  · rw [ofSelector, components, hreads.tokens_eq]
    rfl

open Classes in
theorem Titled.ofSelector_descendant {t : Text} (h : Titled t) :
    ofSelector (".p " ++ t) = ["p", "c"] := by
  have parent : Reads ((".p " : Text) ++ t) [.delim '.', .ident "p", .blank] t := by
    have point : Reads ((".p " : Text) ++ t) [.delim '.'] (("p " : Text) ++ t) :=
      .of_takeToken rfl (Nat.le_refl _)
    have name : Reads (("p " : Text) ++ t) [.ident "p"] (' ' :: t) :=
      .of_takeToken rfl (Nat.le_refl _)
    have blank : Reads (' ' :: t) [.blank] t := by
      obtain ⟨w, -⟩ := h
      exact .of_takeToken rfl (Nat.le_refl _)
    exact point.trans (name.trans blank)
  obtain ⟨content, after, hreads, rfl | rfl⟩ := h.reads
  · rw [ofSelector, components, (parent.trans hreads).tokens_eq]
    rfl
  · rw [ofSelector, components, (parent.trans hreads).tokens_eq]
    rfl

/-- The classes of the block inside the block of a parent: the class of the parent is among
them unless an ampersand stands in the string. -/
theorem Titled.classNames_eq {t : Text} (h : Titled t) :
    classNames .none [⟨Selector.join [".p"] t⟩] =
      if '&' ∈ t then [⟨"c", "c"⟩] else [⟨"p", "p"⟩, ⟨"c", "c"⟩] := by
  rw [classNames, Stylesheet.selectors, List.flatMap_singleton, h.join_eq, List.flatMap_singleton]
  split
  · rw [h.collapse.withParent.ofSelector_eq]
    rfl
  · rw [h.collapse.ofSelector_descendant]
    rfl

/-! ## The prelude -/

theorem Verbatim.not_quote {q : Text} (h : Verbatim q) : '"' ∉ q := by
  intro quote
  exact absurd (h.unquoted '"' quote) (by decide)

theorem Verbatim.not_feed {q : Text} (h : Verbatim q) : '\n' ∉ q := by
  intro feed
  exact absurd (h.oneLine '\n' feed) (by decide)

/-- The prelude with a content between its quotes. -/
def titled (content : Text) : Text := titleStart ++ (content ++ "\"]")

theorem titled_collapse {q : Text} (h : Verbatim q) : Titled (Text.collapse (titled q)) :=
  Titled.collapse ⟨_, .of_closed h.not_quote h.unescaped h.oneLine⟩

/-- Collapsing opens no interpolation. -/
theorem unopened_collapse {t : Text} (h : ¬ (['@', '\x7b'] : Text) <:+: t) :
    ¬ (['@', '\x7b'] : Text) <:+: Text.collapse t := by
  rintro ⟨before, after, heq⟩
  have suffix : '@' :: '\x7b' :: after <:+ Text.collapse t := ⟨before, by rw [← heq]; simp⟩
  obtain ⟨behind, ⟨front, hfront⟩, hbehind⟩ := Text.suffix_collapse rfl suffix
  obtain ⟨last, rfl⟩ := Text.exists_cons_of_collapseAfter rfl hbehind.symm
  exact h ⟨front, last, by rw [← hfront]; simp⟩

theorem unopened_concat {t : Text} {c : Char} (hc : c ≠ '\x7b')
    (h : ¬ (['@', '\x7b'] : Text) <:+: t) : ¬ (['@', '\x7b'] : Text) <:+: t ++ [c] := by
  intro opened
  rcases List.infix_concat_iff.mp opened with ⟨before, heq⟩ | opened
  · have last : before ++ ['@'] ++ ['\x7b'] = t ++ [c] := by rw [← heq]; simp
    exact hc (List.cons.inj (List.append_inj' last rfl).2).1.symm
  · exact h opened

theorem unopened_titled {q : Text} (h : Verbatim q) :
    ¬ (['@', '\x7b'] : Text) <:+: Text.collapse (titled q) := by
  have closed := unopened_concat (c := ']') (by decide)
    (unopened_concat (c := '"') (by decide) h.unopened)
  rw [List.append_assoc] at closed
  exact unopened_collapse (unopened_append (by decide) closed)

theorem Titled.isParametric_eq {t : Text} (h : Titled t) : Signature.isParametric t = false := by
  obtain ⟨w, -⟩ := h
  refine isParametric_eq_false fun name rest inside hname => ?_
  obtain ⟨c, after, heq, rfl⟩ := takeMixinName?_eq_some hname
  have hafter : after = 'c' :: '[' :: (("title=\"" : Text) ++ w) := (List.cons.inj heq).2.symm
  have part : isNameChar 'c' = true := by decide +kernel
  have stop : isNameChar '[' = false := by decide +kernel
  rw [hafter, List.dropWhile_cons_of_pos part, List.dropWhile_cons_of_neg (by simp [stop])]
  exact fun opening => absurd (List.cons.inj opening).1 (by decide)

/-- What the prelude asks for behind the parent `.p`, where no variable is declared. -/
theorem Titled.blockTask_eq {ι : Type} {s : Scope ι} (undeclared : s.rawValue? = fun _ => none)
    {t : Text} (h : Titled t) (unopened : ¬ (['@', '\x7b'] : Text) <:+: t) (nodes : List (Node ι)) :
    s.blockTask [".p"] t nodes =
      (Scope.guardHolds ([] : Scope ι) (Selector.splitGuard t).2).map fun holds =>
        if holds then
          .ruleset (Selector.join [".p"] (Selector.withoutExtends (Selector.splitGuard t).1)) nodes
        else .none false := by
  have plain : s.interpolate (Selector.splitGuard t).1 = .ok (Selector.splitGuard t).1 :=
    Scope.replaceNames_of_unopened fun opened =>
      unopened (opened.trans (begins_splitGuard t).isInfix)
  have asks : s.blockTask [".p"] t nodes = s.selectorBlockTask [".p"] t nodes := by
    have parametric := h.isParametric_eq
    obtain ⟨w, -⟩ := h
    show (if Signature.isParametric (titleStart ++ w) then .ok (.none false) else
      s.selectorBlockTask [".p"] (titleStart ++ w) nodes) = _
    rw [parametric, if_neg Bool.false_ne_true]
  have same : s.guardHolds (Selector.splitGuard t).2 =
      Scope.guardHolds ([] : Scope ι) (Selector.splitGuard t).2 :=
    Scope.guardHolds_congr undeclared _
  rw [asks]
  simp only [Scope.selectorBlockTask, same, plain]
  rcases Scope.guardHolds ([] : Scope ι) (Selector.splitGuard t).2 with e | _ | _ <;> rfl

/-! ## Reading -/

/-- A style sheet in which a class with a parent has an attribute in quotes. -/
def titledSource (q : Text) : Text := ".p \x7b " ++ (titled q ++ " \x7b d: e; \x7d \x7d")

theorem stripFrom_string {q : Text} (quote : '"' ∉ q) (unescaped : '\\' ∉ q) (feeds : '\n' ∉ q)
    (before : Char) (rest : Text) :
    Comment.stripFrom (.string '"' 1) 1 before (q ++ '"' :: rest) =
      (Comment.stripFrom .plain 1 '"' rest).map (q ++ '"' :: ·) := by
  induction q generalizing before with
  | nil => rfl
  | cons c q ih =>
    rw [List.mem_cons, not_or] at quote unescaped feeds
    rw [List.cons_append, Comment.stripFrom]
    simp only [Comment.Mode.after, if_neg (Ne.symm quote.1), if_neg (Ne.symm unescaped.1),
      decide_eq_false (Ne.symm feeds.1), Bool.false_and, Bool.false_eq_true, if_false,
      ih quote.2 unescaped.2 feeds.2, Comment.written]
    cases Comment.stripFrom .plain 1 '"' rest <;> rfl

theorem titleStart_eq : titleStart = ['.', 'c', '[', 't', 'i', 't', 'l', 'e', '=', '"'] := rfl

/-- The source in three parts: the beginning of the outer block, the inner prelude with its
brace, and the declaration with the braces behind it. -/
theorem titledSource_eq (q : Text) : titledSource q =
    ['.', 'p', ' ', '\x7b'] ++ ((' ' :: (titled q ++ [' ', '\x7b'])) ++
      [' ', 'd', ':', ' ', 'e', ';', ' ', '\x7d', ' ', '\x7d']) := by
  have parent : (".p \x7b " : Text) = ['.', 'p', ' ', '\x7b', ' '] := rfl
  have rest : (" \x7b d: e; \x7d \x7d" : Text) =
      [' ', '\x7b', ' ', 'd', ':', ' ', 'e', ';', ' ', '\x7d', ' ', '\x7d'] := rfl
  rw [titledSource, parent, rest]
  simp

theorem strip_titled {q : Text} (h : Verbatim q) :
    Comment.strip (titledSource q) = .ok (titledSource q) := by
  have whole : titledSource q =
      ['.', 'p', ' ', '\x7b', ' ', '.', 'c', '[', 't', 'i', 't', 'l', 'e', '=', '"'] ++ (q ++ '"' ::
        [']', ' ', '\x7b', ' ', 'd', ':', ' ', 'e', ';', ' ', '\x7d', ' ', '\x7d']) := by
    have closing : ("\"]" : Text) = ['"', ']'] := rfl
    rw [titledSource_eq, titled, titleStart_eq, closing]
    simp
  have start (t : Text) : Comment.strip
      (['.', 'p', ' ', '\x7b', ' ', '.', 'c', '[', 't', 'i', 't', 'l', 'e', '=', '"'] ++ t) =
      ['.', 'p', ' ', '\x7b', ' ', '.', 'c', '[', 't', 'i', 't', 'l', 'e', '=', '"'].foldr
        (fun c r => r.map ([c] ++ ·)) (Comment.stripFrom (.string '"' 1) 1 '"' t) := rfl
  have rest : Comment.stripFrom .plain 1 '"'
      [']', ' ', '\x7b', ' ', 'd', ':', ' ', 'e', ';', ' ', '\x7d', ' ', '\x7d'] =
        .ok [']', ' ', '\x7b', ' ', 'd', ':', ' ', 'e', ';', ' ', '\x7d', ' ', '\x7d'] := rfl
  rw [whole, start, stripFrom_string h.not_quote h.unescaped h.not_feed, rest]
  rfl

/-- A string is passed as it is. -/
theorem foldlM_string {q : Text} (quote : '"' ∉ q) (unescaped : '\\' ∉ q) (parens : Nat)
    (rest : Text) :
    (q ++ '"' :: rest).foldlM Reading.after (.string '"', parens) =
      rest.foldlM Reading.after (.plain, parens) := by
  induction q with
  | nil => rfl
  | cons c q ih =>
    rw [List.mem_cons, not_or] at quote unescaped
    have stays : Reading.after (.string '"', parens) c = some (.string '"', parens) := by
      rw [Reading.after, if_neg (Ne.symm unescaped.1), if_neg (Ne.symm quote.1)]
    rw [List.cons_append, List.foldlM_cons, stays]
    exact ih quote.2 unescaped.2

/-- The prelude as it stands before its brace is one piece. -/
theorem foldl_step_titled {q : Text} (h : Verbatim q) (ps : List Piece) :
    (' ' :: (titled q ++ [' ', '\x7b'])).foldl Reading.Progress.step (Reading.clean ps) =
      Reading.clean (.opening 1 (Text.collapse (titled q)) :: ps) := by
  have runs : Reading.runs (' ' :: (titled q ++ [' '])) = some (.plain, 0) := by
    have start (t : Text) : Reading.runs (' ' :: (titleStart ++ t)) =
        t.foldlM Reading.after (.string '"', 0) := by
      rw [titleStart_eq]
      rfl
    have closing : ("\"]" : Text) ++ [' '] = ['"', ']', ' '] := rfl
    rw [titled, List.append_assoc, start, List.append_assoc, closing,
      foldlM_string h.not_quote h.unescaped]
    rfl
  have oneLine : '\n' ∉ ' ' :: titled q := by
    have start : '\n' ∉ titleStart := by decide
    have closing : '\n' ∉ ("\"]" : Text) := by decide
    have blank : '\n' ≠ ' ' := by decide
    simp only [titled, List.mem_cons, List.mem_append, not_or]
    exact ⟨blank, start, h.not_feed, closing⟩
  have read := Reading.foldl_opening (x := ' ' :: titled q) runs oneLine ps
  rw [Text.collapse_cons_blank rfl] at read
  exact read

theorem parse_titled {q : Text} (h : Verbatim q) : parse (titledSource q) =
    .ok [.block 1 ".p" [.block 1 (Text.collapse (titled q)) [.statement 1 "d: e"]]] := by
  have outer : ['.', 'p', ' ', '\x7b'].foldl Reading.Progress.step .initial =
      Reading.clean [.opening 1 ".p"] := rfl
  have inner (ps : List Piece) :
      [' ', 'd', ':', ' ', 'e', ';', ' ', '\x7d', ' ', '\x7d'].foldl Reading.Progress.step
        (Reading.clean ps) =
      Reading.clean (.closing 1 :: .closing 1 :: .statement 1 "d: e" :: ps) := by
    -- The blanks before the braces are no statements; what stands before the semicolon is.
    have blank : Text.collapse [' '] = [] := rfl
    have text : Text.collapse [' ', 'd', ':', ' ', 'e'] = "d: e" := rfl
    simp [Reading.clean, Reading.Progress.step, Reading.Progress.located,
      Reading.Progress.plainStep, Text.isQuote, Reading.Progress.push, Reading.Progress.flushed,
      blank, text]
  have read : pieces (titledSource q) = ([.opening 1 ".p", .opening 1 (Text.collapse (titled q)),
      .statement 1 "d: e", .closing 1, .closing 1], none) := by
    rw [pieces, titledSource_eq, List.foldl_append, outer, List.foldl_append, foldl_step_titled h,
      inner]
    rfl
  rw [parse, strip_titled h]
  show readNodes (titledSource q) = _
  rw [readNodes, read]
  rfl

theorem loadSource_titled (disk : Disk) (path : Path) {q : Text} (h : Verbatim q) :
    loadSource disk (titledSource q) path =
      .ok [.block 1 ".p" [.block 1 (Text.collapse (titled q)) [.statement 1 "d: e"]]] := by
  rw [loadSource, loadText, parse_titled h]
  rfl

/-! ## Evaluation -/

/-- A body of one node comes to what the node comes to. -/
theorem outcome_singleton (depth : Nat) (s : Scope Nat) (context : List Text) (n : Node Nat) :
    outcome (evalBody (depth + 1) s [n] context true) [] =
      outcome (evalNode (evalBody depth) s context true n) [] := by
  rw [evalBody, outcome_evalNodes_cons]
  exact bothOutcomes_before_nothing _

theorem outcome_declaration (depth : Nat) (s : Scope Nat) (tag : Nat) (context : List Text) :
    outcome (evalBody (depth + 1) s [.statement tag "d: e"] context true) [] = .ok (true, []) := by
  have kind : Statement.ofText "d: e" = .declaration := rfl
  have asks : s.task [] context (.statement tag "d: e") = .ok (.none true) := by
    rw [Scope.task, Scope.statementTask, kind]
  rw [outcome_singleton, outcome_evalNode_ok depth s context true asks]
  rfl

/-- The rule sets of the block inside, where no variable is declared. -/
def titledRulesets (prelude : Text) : Except CompileError Stylesheet :=
  (Scope.guardHolds ([] : Scope Nat) (Selector.splitGuard prelude).2).map fun holds =>
    if holds then
      [⟨Selector.join [".p"] (Selector.withoutExtends (Selector.splitGuard prelude).1)⟩]
    else []

theorem Titled.outcome_eq (depth : Nat) {s : Scope Nat} (undeclared : s.rawValue? = fun _ => none)
    {t : Text} (h : Titled t) (unopened : ¬ (['@', '\x7b'] : Text) <:+: t) (tag tag' : Nat) :
    outcome (evalBody (depth + 2) s [.block tag t [.statement tag' "d: e"]] [".p"] true) [] =
      ((titledRulesets t).mapError Halt.error).map (false, ·) := by
  have asks : s.task [] [".p"] (.block tag t [.statement tag' "d: e"]) = _ :=
    h.blockTask_eq undeclared unopened [.statement tag' "d: e"]
  have list : Titled (Selector.withoutExtends (Selector.splitGuard t).1) :=
    h.splitGuard.dropExtends _
  rw [outcome_singleton, titledRulesets]
  rcases hguard : Scope.guardHolds ([] : Scope Nat) (Selector.splitGuard t).2 with e | _ | _
  · rw [hguard] at asks
    exact outcome_evalNode_error (depth + 1) s [".p"] true asks
  · rw [hguard] at asks
    exact outcome_evalNode_ok (depth + 1) s [".p"] true asks
  · rw [hguard] at asks
    rw [outcome_evalNode_ok (depth + 1) s [".p"] true asks]
    simp only [if_true]
    rw [outcome_evalTask_ruleset, outcome_declaration, list.join_eq]
    rfl

theorem valuesIn_block {ι : Type} (values : Text → Option Text) (tag : ι) (prelude : Text)
    (body : List (Node ι)) : valuesIn values [.block tag prelude body] = values := by
  funext name
  rw [valuesIn, bindingsOf, bindingsOf, List.append_nil, Frame.rawValue?, block_rawValues]
  rfl

theorem evaluateWithin_titled (depth : Nat) {t : Text} (h : Titled t)
    (unopened : ¬ (['@', '\x7b'] : Text) <:+: t) (tag tag' tag'' : Nat) :
    evaluateWithin (depth + 3) [.block tag ".p" [.block tag' t [.statement tag'' "d: e"]]] =
      (titledRulesets t).mapError Halt.error := by
  let inner : Node Nat := .block tag' t [.statement tag'' "d: e"]
  let scope : Scope Nat := Scope.enter [] [.block tag ".p" [inner]]
  have asks : scope.task [] [] (.block tag ".p" [inner]) = .ok (.ruleset [".p"] [inner]) := by
    rfl
  have undeclared : (scope.enter [inner]).rawValue? = fun _ => none := by
    rw [rawValue?_enter, valuesIn_block, rawValue?_enter, valuesIn_block]
    rfl
  rw [evaluateWithin_eq, outcome_singleton, outcome_evalNode_ok (depth + 2) _ _ _ asks,
    outcome_evalTask_ruleset, h.outcome_eq depth undeclared unopened]
  cases titledRulesets t <;> rfl

/-! ## Compilation -/

/-- The classes of a style sheet in which a class with a parent has an attribute in quotes. -/
def titledClasses (disk : Disk) (path : Path) (q : Text) : Except Halt (List ClassName) :=
  (compileSource disk (titledSource q) path).map (classNames .none)

theorem titledClasses_eq (disk : Disk) (path : Path) {q : Text} (h : Verbatim q) :
    titledClasses disk path q =
      ((titledRulesets (Text.collapse (titled q))).mapError Halt.error).map (classNames .none) := by
  rw [titledClasses, compileSource, loadSource_titled disk path h]
  exact congrArg (Except.map (classNames .none))
    (evaluateWithin_titled 9997 (titled_collapse h) (unopened_titled h) 0 1 2)

/-- The classes are those of the parent and of the block inside, in this order, exactly when
the guard holds that the string seems to hold, if it does hold one, and no ampersand is left in
the selector without its guard and extensions. -/
theorem titled_iff (disk : Disk) (path : Path) {q : Text} (h : Verbatim q) :
    titledClasses disk path q = .ok [⟨"p", "p"⟩, ⟨"c", "c"⟩] ↔
      Scope.guardHolds ([] : Scope Nat)
          (Selector.splitGuard (Text.collapse (titled q))).2 = .ok true ∧
        '&' ∉ Selector.withoutExtends (Selector.splitGuard (Text.collapse (titled q))).1 := by
  have list : Titled (Selector.withoutExtends (Selector.splitGuard (Text.collapse (titled q))).1) :=
    (titled_collapse h).splitGuard.dropExtends _
  rw [titledClasses_eq disk path h, titledRulesets]
  rcases Scope.guardHolds ([] : Scope Nat) (Selector.splitGuard (Text.collapse (titled q))).2 with
    e | _ | _
  · exact iff_of_false nofun nofun
  · refine iff_of_false ?_ nofun
    intro same
    cases Except.ok.inj same
  · show Except.ok (classNames .none [⟨Selector.join [".p"] _⟩]) = _ ↔ _
    rw [list.classNames_eq]
    split
    · rename_i ampersand
      refine iff_of_false ?_ (fun both => both.2 ampersand)
      intro same
      cases Except.ok.inj same
    · rename_i none
      exact iff_of_true rfl ⟨rfl, none⟩

/-- A string that looks like a list of selectors with an extension in it, and an ampersand
inside the extension. -/
theorem titled_extension :
    titledClasses ⟨.directory [], []⟩ "m.less" ".x, #y:extend(&.z) > /*w*/ when" =
      .ok [⟨"p", "p"⟩, ⟨"c", "c"⟩] :=
  (titled_iff ⟨.directory [], []⟩ "m.less"
    ⟨Text.forall_eq_false (by decide), by decide, Text.forall_eq_false (by decide), by decide⟩).mpr
    ⟨by rfl, by decide +kernel⟩

/-- Not every string is nothing to the classes: the parent is put in the place of the
ampersand in `a&b`. -/
theorem not_forall_titled :
    ¬ ∀ (disk : Disk) (path : Path) (q : Text), Verbatim q → Text.collapse q = q →
      titledClasses disk path q = .ok [⟨"p", "p"⟩, ⟨"c", "c"⟩] := by
  intro h
  have verbatim : Verbatim "a&b" :=
    ⟨Text.forall_eq_false (by decide), by decide, Text.forall_eq_false (by decide), by decide⟩
  have both := h ⟨.directory [], []⟩ "m.less" "a&b" verbatim (by decide +kernel)
  exact ((titled_iff _ _ verbatim).mp both).2 (by decide +kernel)

end StyleTypings.Less
