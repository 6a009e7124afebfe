/-
Collapsing — a text collapsed one character after the other.

A blank behind a text adds nothing to what the text collapses to.  Any other character is
put behind it as it is if the text ends in a word, and with one space before it if it does
not.  What a text collapses to is tidy, unless nothing is left of it.

From the front, a character that is not blank stays, and what comes after it is collapsed
with one space for the blanks it begins with (`collapseAfter`).
-/
import StyleTypings.Proofs.Words
import StyleTypings.Proofs.Files.Slashes
import Mathlib.Data.List.Induction

namespace StyleTypings.Text

/-! ## The last word -/

/-- Whether a text ends in a word. -/
def endsInWord (t : Text) : Bool := t.getLast?.any (! isBlank ·)

@[simp] theorem endsInWord_append (t : Text) (c : Char) :
    endsInWord (t ++ [c]) = ! isBlank c := by
  rw [endsInWord, List.getLast?_concat]
  rfl

theorem of_mem_words {t w : Text} (h : w ∈ words t) : w ≠ [] ∧ ∀ c ∈ w, isBlank c = false := by
  refine ⟨by simpa using List.of_mem_filter h, ?_⟩
  intro c hc
  have hmem : c ∈ (words t).flatten := List.mem_flatten.mpr ⟨w, h, hc⟩
  rw [flatten_words] at hmem
  simpa using List.of_mem_filter hmem

/-- What follows a text that ends in a word goes on with this word. -/
theorem words_append_word {t : Text} (h : endsInWord t = true) :
    ∃ parts w, ∀ v, (∀ c ∈ v, isBlank c = false) → words (t ++ v) = parts ++ [w ++ v] := by
  induction t using List.reverseRecOn with
  | nil => cases h
  | append_singleton t d ih =>
    have hd : isBlank d = false := by simpa using h
    cases hend : endsInWord t with
    | true =>
      obtain ⟨parts, w, hw⟩ := ih hend
      refine ⟨parts, w ++ [d], ?_⟩
      intro v hv
      rw [List.append_assoc, List.append_assoc]
      exact hw (d :: v) (List.forall_mem_cons.mpr ⟨hd, hv⟩)
    | false =>
      have one (v : Text) (hv : ∀ c ∈ v, isBlank c = false) : words ([d] ++ v) = [[d] ++ v] :=
        words_of_forall (List.cons_ne_nil d v) (List.forall_mem_cons.mpr ⟨hd, hv⟩)
      rcases t.eq_nil_or_concat with rfl | ⟨before, b, rfl⟩
      · exact ⟨[], [d], one⟩
      · rw [List.concat_eq_append, endsInWord_append, Bool.not_eq_false'] at hend
        refine ⟨words before, [d], ?_⟩
        intro v hv
        rw [List.concat_eq_append, List.append_assoc, List.append_assoc, List.singleton_append,
          words_append_blank hend, one v hv]

/-! ## One character more -/

/-- Inside a word nothing is changed. -/
theorem collapse_append_word {t : Text} (h : endsInWord t = true) {c : Char}
    (hc : isBlank c = false) : collapse (t ++ [c]) = collapse t ++ [c] := by
  obtain ⟨parts, w, hw⟩ := words_append_word h
  have before := hw [] (List.forall_mem_nil _)
  rw [List.append_nil, List.append_nil] at before
  rw [collapse, hw [c] (List.forall_mem_singleton.mpr hc), joinWith_append_last, collapse, before]

/-- A new word has one space before it, if there are words before it. -/
theorem collapse_append_new {t : Text} (h : endsInWord t = false) {c : Char}
    (hc : isBlank c = false) :
    collapse (t ++ [c]) = if collapse t = [] then [c] else collapse t ++ [' '] ++ [c] := by
  have one : words [c] = [[c]] :=
    words_of_forall (List.cons_ne_nil c []) (List.forall_mem_singleton.mpr hc)
  rcases t.eq_nil_or_concat with rfl | ⟨before, b, rfl⟩
  · rw [List.nil_append, collapse, one]
    rfl
  · rw [List.concat_eq_append, endsInWord_append, Bool.not_eq_false'] at h
    rw [List.concat_eq_append, collapse_append_blank h, List.append_assoc, List.singleton_append,
      collapse, words_append_blank h, one]
    split
    · rename_i hnil
      have none : words before = [] := by
        by_contra hne
        refine joinWith_ne_nil hne ?_ hnil
        intro w hw
        exact (of_mem_words hw).1
      rw [none]
      rfl
    · rename_i hne
      have some : words before ≠ [] := by
        intro hnil
        exact hne (by rw [collapse, hnil]; rfl)
      rw [joinWith_append _ _ (List.cons_ne_nil _ _), ← joinWith_append_sep _ some]
      rfl

/-! ## From the front -/

theorem collapse_cons_blank {b : Char} (hb : isBlank b = true) (t : Text) :
    collapse (b :: t) = collapse t := by
  have split := words_append_blank hb [] t
  rw [words_nil, List.nil_append, List.nil_append] at split
  rw [collapse, split, collapse]

theorem collapse_append_of_blank {w : Text} (hw : ∀ c ∈ w, isBlank c = true) (t : Text) :
    collapse (w ++ t) = collapse t := by
  induction w with
  | nil => rfl
  | cons c w ih =>
    obtain ⟨hc, later⟩ := List.forall_mem_cons.mp hw
    rw [List.cons_append, collapse_cons_blank hc, ih later]

theorem collapse_of_blank {w : Text} (hw : ∀ c ∈ w, isBlank c = true) : collapse w = [] := by
  rw [← List.append_nil w, collapse_append_of_blank hw]
  rfl

/-- What a text comes to behind a character that is not blank. -/
def collapseAfter (t : Text) : Text :=
  if t.head?.any isBlank && ! (collapse t).isEmpty then ' ' :: collapse t else collapse t

theorem collapseAfter_cons_blank {b : Char} (hb : isBlank b = true) (t : Text) :
    collapseAfter (b :: t) = if collapse t = [] then [] else ' ' :: collapse t := by
  rw [collapseAfter, collapse_cons_blank hb]
  cases collapse t <;> simp [hb]

theorem collapseAfter_eq_collapse {c : Char} (hc : isBlank c = false) (t : Text) :
    collapseAfter (c :: t) = collapse (c :: t) := by
  rw [collapseAfter, List.head?_cons, Option.any_some, hc, Bool.false_and,
    if_neg Bool.false_ne_true]

/-- A character that is not blank begins the first word. -/
theorem words_cons {c d : Char} (hc : isBlank c = false) (hd : isBlank d = false) (t : Text) :
    ∃ w parts, words (d :: t) = w :: parts ∧ words (c :: d :: t) = (c :: w) :: parts := by
  obtain ⟨part, parts, hparts⟩ := List.exists_cons_of_ne_nil (List.splitOnP_ne_nil isBlank t)
  refine ⟨d :: part, parts.filter (! ·.isEmpty), ?_, ?_⟩
  · simp [words, List.splitOnP_cons_eq_if_modifyHead, hd, hparts]
  · simp [words, List.splitOnP_cons_eq_if_modifyHead, hc, hd, hparts]

theorem collapse_cons {c : Char} (hc : isBlank c = false) (t : Text) :
    collapse (c :: t) = c :: collapseAfter t := by
  have one : words [c] = [[c]] :=
    words_of_forall (List.cons_ne_nil c []) (List.forall_mem_singleton.mpr hc)
  cases t with
  | nil =>
    rw [collapse, one]
    rfl
  | cons d t =>
    cases hd : isBlank d with
    | true =>
      have split := words_append_blank hd [c] t
      rw [one] at split
      rw [collapseAfter_cons_blank hd, collapse, collapse]
      show joinWith [' '] (words ([c] ++ d :: t)) = _
      rw [split]
      cases hwords : words t with
      | nil => rfl
      | cons w parts =>
        have some : joinWith [' '] (w :: parts) ≠ [] := by
          refine joinWith_ne_nil (List.cons_ne_nil _ _) ?_
          intro v hv
          exact (of_mem_words (hwords ▸ hv)).1
        rw [if_neg some]
        exact joinWith_cons [' '] [c] (List.cons_ne_nil w parts)
    | false =>
      obtain ⟨w, parts, hd', hcd⟩ := words_cons hc hd t
      rw [collapseAfter_eq_collapse hd, collapse, collapse, hcd, hd']
      cases parts <;> rfl

theorem collapseAfter_cons {c : Char} (hc : isBlank c = false) (t : Text) :
    collapseAfter (c :: t) = c :: collapseAfter t := by
  rw [collapseAfter_eq_collapse hc, collapse_cons hc]

/-- The blanks that a text begins with count for nothing. -/
theorem collapse_eq_dropWhile (t : Text) : collapse t = collapseAfter (t.dropWhile isBlank) := by
  induction t with
  | nil => rfl
  | cons c t ih =>
    cases hc : isBlank c with
    | true => rw [collapse_cons_blank hc, ih, List.dropWhile_cons_of_pos hc]
    | false => rw [List.dropWhile_cons_of_neg (by simp [hc]), collapseAfter_eq_collapse hc]

/-- A text that begins with no blank. -/
def Flush (t : Text) : Prop := ∀ c ∈ t.head?, isBlank c = false

theorem flush_dropWhile (t : Text) : Flush (t.dropWhile isBlank) := by
  intro c hc
  have := List.head?_dropWhile_not isBlank t
  rw [Option.mem_def.mp hc] at this
  simpa using this

/-- Behind another character, the blanks that a text begins with count for a space, if there is
more than blanks. -/
theorem collapseAfter_dropWhile {b : Char} (hb : isBlank b = true) (t : Text) :
    collapseAfter (b :: t) = if t.dropWhile isBlank = [] then []
      else ' ' :: collapseAfter (t.dropWhile isBlank) := by
  rw [collapseAfter_cons_blank hb, collapse_eq_dropWhile]
  cases hrest : t.dropWhile isBlank with
  | nil => rfl
  | cons c rest =>
    have hc : isBlank c = false := flush_dropWhile t c (by rw [hrest]; rfl)
    rw [collapseAfter_cons hc, if_neg (List.cons_ne_nil _ _), if_neg (List.cons_ne_nil _ _)]

/-- A character that is not blank right behind another was there before. -/
theorem exists_cons_of_collapseAfter {c : Char} (hc : isBlank c = false) {t rest : Text}
    (h : collapseAfter t = c :: rest) : ∃ after, t = c :: after := by
  cases t with
  | nil => cases h
  | cons d t =>
    cases hd : isBlank d with
    | true =>
      rw [collapseAfter_cons_blank hd] at h
      split at h
      · cases h
      · rw [← (List.cons.inj h).1] at hc
        exact absurd hc (by decide)
    | false =>
      rw [collapseAfter_cons hd] at h
      exact ⟨t, by rw [(List.cons.inj h).1]⟩

/-- Characters that are not blank stay as they are before everything else. -/
theorem collapseAfter_append_left {w : Text} (hw : ∀ c ∈ w, isBlank c = false) (t : Text) :
    collapseAfter (w ++ t) = w ++ collapseAfter t := by
  induction w with
  | nil => rfl
  | cons c w ih =>
    obtain ⟨hc, later⟩ := List.forall_mem_cons.mp hw
    rw [List.cons_append, collapseAfter_cons hc, ih later, List.cons_append]

theorem collapse_append_left {w : Text} (hw : ∀ c ∈ w, isBlank c = false) (ne : w ≠ []) (t : Text) :
    collapse (w ++ t) = w ++ collapseAfter t := by
  obtain ⟨c, w, rfl⟩ := List.exists_cons_of_ne_nil ne
  rw [← collapseAfter_append_left hw, List.cons_append,
    collapseAfter_eq_collapse (List.forall_mem_cons.mp hw).1]

/-- What stands behind a character in a collapsed text is what stands behind it in the text,
collapsed. -/
theorem suffix_collapse {c : Char} (hc : isBlank c = false) {t rest : Text}
    (h : c :: rest <:+ collapse t) : ∃ after, c :: after <:+ t ∧ rest = collapseAfter after := by
  induction t with
  | nil => exact absurd (List.suffix_nil.mp h) (List.cons_ne_nil c rest)
  | cons d t ih =>
    have later (h : c :: rest <:+ collapse t) :
        ∃ after, c :: after <:+ d :: t ∧ rest = collapseAfter after := by
      obtain ⟨after, suffix, heq⟩ := ih h
      exact ⟨after, suffix.trans (List.suffix_cons d t), heq⟩
    cases hd : isBlank d with
    | true =>
      rw [collapse_cons_blank hd] at h
      exact later h
    | false =>
      rw [collapse_cons hd] at h
      rcases List.suffix_cons_iff.mp h with heq | h
      · obtain ⟨rfl, rfl⟩ := List.cons.inj heq
        exact ⟨t, List.suffix_refl _, rfl⟩
      · refine later ?_
        rw [collapseAfter] at h
        split at h
        · rcases List.suffix_cons_iff.mp h with heq | h
          · rw [(List.cons.inj heq).1] at hc
            exact absurd hc (by decide)
          · exact h
        · exact h

theorem mem_collapse_iff {c : Char} (hc : isBlank c = false) {t : Text} :
    c ∈ collapse t ↔ c ∈ t := by
  have kept (u : Text) : c ∈ u.filter (! isBlank ·) ↔ c ∈ u := by simp [hc]
  rw [← kept, filter_collapse (by simp), kept]

/-! ## Behind a character -/

/-- What a text is behind a character: nothing, or a space with more behind it where a blank
was, or its first character with what the rest is behind that. -/
theorem collapseAfter_cases (s : Text) :
    (s = [] ∧ collapseAfter s = []) ∨
      (∃ b t, s = b :: t ∧ isBlank b = true ∧
        (collapseAfter s = [] ∨ ∃ t', collapseAfter s = ' ' :: t')) ∨
      ∃ c t, s = c :: t ∧ isBlank c = false ∧ collapseAfter s = c :: collapseAfter t := by
  cases s with
  | nil => exact .inl ⟨rfl, rfl⟩
  | cons c t =>
    refine .inr ?_
    cases hc : isBlank c with
    | true =>
      refine .inl ⟨c, t, rfl, hc, ?_⟩
      rw [collapseAfter_cons_blank hc]
      split
      · exact .inl rfl
      · exact .inr ⟨_, rfl⟩
    | false =>
      exact .inr ⟨c, t, rfl, hc, by rw [collapseAfter_cons hc]⟩

/-- What a collapsed text begins with before its first blank, the text began with. -/
theorem prefix_of_collapseAfter {w s : Text} (hw : ∀ c ∈ w, isBlank c = false)
    (h : w <+: collapseAfter s) : w <+: s := by
  induction w generalizing s with
  | nil => exact List.nil_prefix
  | cons c w ih =>
    obtain ⟨hc, later⟩ := List.forall_mem_cons.mp hw
    obtain ⟨rest, hrest⟩ := h
    obtain ⟨after, rfl⟩ := exists_cons_of_collapseAfter hc hrest.symm
    rw [collapseAfter_cons hc] at hrest
    exact (List.prefix_cons_inj c).mpr (ih later ⟨rest, (List.cons.inj hrest).2⟩)

theorem collapseAfter_of_blank {s : Text} (h : ∀ c ∈ s, isBlank c = true) :
    collapseAfter s = [] := by
  cases s with
  | nil => rfl
  | cons b s =>
    obtain ⟨hb, later⟩ := List.forall_mem_cons.mp h
    have nothing : s.dropWhile isBlank = [] := by
      rw [← List.append_nil s, List.dropWhile_append_of_pos later, List.dropWhile_nil]
    rw [collapseAfter_dropWhile hb, nothing, if_pos rfl]

/-- The blanks before something else count for a space. -/
theorem collapseAfter_append {w s : Text} (hw : ∀ c ∈ w, isBlank c = true) (some : w ≠ [])
    (flush : Flush s) (ne : s ≠ []) : collapseAfter (w ++ s) = ' ' :: collapseAfter s := by
  obtain ⟨b, w, rfl⟩ := List.exists_cons_of_ne_nil some
  obtain ⟨c, s, rfl⟩ := List.exists_cons_of_ne_nil ne
  obtain ⟨hb, later⟩ := List.forall_mem_cons.mp hw
  have rest : (w ++ c :: s).dropWhile isBlank = c :: s := by
    rw [List.dropWhile_append_of_pos later, List.dropWhile_cons_of_neg (by simp [flush c rfl])]
  rw [List.cons_append, collapseAfter_dropWhile hb, rest, if_neg (List.cons_ne_nil c s)]

section Runs

variable {p : Char → Bool} (hp : ∀ b, isBlank b = true → p b = false)

include hp

theorem takeWhile_collapseAfter (s : Text) : (collapseAfter s).takeWhile p = s.takeWhile p := by
  induction s with
  | nil => rfl
  | cons c s ih =>
    cases hc : isBlank c with
    | true =>
      rw [List.takeWhile_cons_of_neg (by simp [hp c hc]), collapseAfter_cons_blank hc]
      split
      · rfl
      · rw [List.takeWhile_cons_of_neg (by simp [hp ' ' rfl])]
    | false =>
      rw [collapseAfter_cons hc]
      cases hpc : p c with
      | true => rw [List.takeWhile_cons_of_pos hpc, List.takeWhile_cons_of_pos hpc, ih]
      | false =>
        rw [List.takeWhile_cons_of_neg (by simp [hpc]), List.takeWhile_cons_of_neg (by simp [hpc])]

theorem dropWhile_collapseAfter (s : Text) :
    (collapseAfter s).dropWhile p = collapseAfter (s.dropWhile p) := by
  induction s with
  | nil => rfl
  | cons c s ih =>
    cases hc : isBlank c with
    | true =>
      rw [List.dropWhile_cons_of_neg (by simp [hp c hc]), collapseAfter_cons_blank hc]
      split
      · rfl
      · rw [List.dropWhile_cons_of_neg (by simp [hp ' ' rfl])]
    | false =>
      rw [collapseAfter_cons hc]
      cases hpc : p c with
      | true => rw [List.dropWhile_cons_of_pos hpc, List.dropWhile_cons_of_pos hpc, ih]
      | false =>
        rw [List.dropWhile_cons_of_neg (by simp [hpc]), List.dropWhile_cons_of_neg (by simp [hpc]),
          collapseAfter_cons hc]

end Runs

theorem head?_collapseAfter {p : Char → Bool} (hp : p ' ' = false) {s : Text}
    (h : ∀ c ∈ s.head?, p c = false) : ∀ c ∈ (collapseAfter s).head?, p c = false := by
  obtain ⟨rfl, hs⟩ | ⟨b, t, rfl, -, hs | ⟨t', hs⟩⟩ | ⟨c, t, rfl, -, hs⟩ := collapseAfter_cases s
  · exact nofun
  · rw [hs]
    exact nofun
  · rw [hs]
    rintro _ ⟨⟩
    exact hp
  · rw [hs]
    exact h

theorem Flush.collapseAfter {s : Text} (h : Flush s) : Flush (collapseAfter s) := by
  obtain ⟨rfl, hs⟩ | ⟨b, t, rfl, hb, -⟩ | ⟨c, t, rfl, hc, hs⟩ := collapseAfter_cases s
  · exact nofun
  · exact absurd (hb.symm.trans (h b rfl)) (by decide)
  · rw [hs]
    rintro _ ⟨⟩
    exact hc

/-- A collapsed text begins with no blank. -/
theorem flush_collapse (s : Text) : Flush (collapse s) := by
  rw [collapse_eq_dropWhile]
  exact (flush_dropWhile s).collapseAfter

/-! ## What is left -/

theorem tidy_joinWith : ∀ {parts : List Text}, parts ≠ [] →
    (∀ w ∈ parts, w ≠ [] ∧ ∀ c ∈ w, isBlank c = false) → Tidy (joinWith [' '] parts)
  | [], h, _ => absurd rfl h
  | [w], _, named => by
    obtain ⟨hne, hw⟩ := named w List.mem_cons_self
    exact .word hne hw
  | w :: next :: parts, _, named => by
    obtain ⟨⟨hne, hw⟩, others⟩ := List.forall_mem_cons.mp named
    have rest := tidy_joinWith (List.cons_ne_nil next parts) others
    rw [joinWith_cons _ _ (List.cons_ne_nil next parts), List.append_assoc]
    exact .more hne hw rest

theorem collapse_tidy {t : Text} (h : collapse t ≠ []) : Tidy (collapse t) := by
  refine tidy_joinWith ?_ ?_
  · intro hnil
    exact h (by rw [collapse, hnil]; rfl)
  · intro w hw
    exact of_mem_words hw

/-- What has been collapsed stays as it is. -/
theorem collapse_collapse (t : Text) : collapse (collapse t) = collapse t := by
  by_cases h : collapse t = []
  · rw [h]
    rfl
  · exact (collapse_tidy h).collapse_eq

/-- The only blanks in a tidy text are spaces. -/
theorem Tidy.eq_space {t : Text} (h : Tidy t) {c : Char} (hc : c ∈ t) (blank : isBlank c = true) :
    c = ' ' := by
  induction h with
  | word _ hw =>
    rw [hw c hc] at blank
    cases blank
  | more _ hw _ ih =>
    rcases List.mem_append.mp hc with hc | hc
    · rw [hw c hc] at blank
      cases blank
    · exact (List.mem_cons.mp hc).elim id ih

theorem eq_space_of_mem_collapse {t : Text} {c : Char} (hc : c ∈ collapse t)
    (blank : isBlank c = true) : c = ' ' :=
  (collapse_tidy (List.ne_nil_of_mem hc)).eq_space hc blank

end StyleTypings.Text
