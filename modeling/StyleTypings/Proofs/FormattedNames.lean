/-
Formatted names — a name that has been formatted is not formatted again.

Camel case is built of case forms of letters and numbers, and no case form is a separator, so
nothing in it is taken apart a second time.  That holds of all names, also where one character
becomes several (`isSeparator_of_mem_camelCase`).  Without hyphens there is no warning about
them (`not_mem_warnings`).  Hyphenated case comes apart at its hyphens and nowhere else, since
there are no capitals left in it, and this gives the words back that it was built of
(`nameWords_joinWith`).  It is said of names in ASCII, where the lower case of a word is made of
lower case letters and digits.
-/
import StyleTypings.Proofs.Constants
import StyleTypings.Proofs.Files.Slashes
import StyleTypings.Proofs.Naming

namespace StyleTypings

/-! ## Separators -/

/-- What is no blank separates words only if it is a hyphen or an underscore. -/
theorem isSeparator_eq_false {c : Char} (blank : isBlank c = false) (hyphen : c ≠ '-')
    (underscore : c ≠ '_') : NameFormat.isSeparator c = false := by
  simp [NameFormat.isSeparator, blank, hyphen, underscore]

theorem isSeparator_of_isAlphanumeric {c : Char} (h : isAlphanumeric c = true) :
    NameFormat.isSeparator c = false := by
  have ident : isIdentChar c = true := by
    rw [isIdentChar, h]
    rfl
  have ne {d : Char} (hd : isAlphanumeric d = false) : c ≠ d := by
    rintro rfl
    exact absurd (h.symm.trans hd) (by decide)
  exact isSeparator_eq_false (Less.isBlank_of_isIdentChar ident) (ne (by decide)) (ne (by decide))

theorem isSeparator_of_isWordChar {c : Char} (h : isWordChar c = true) (underscore : c ≠ '_') :
    NameFormat.isSeparator c = false := by
  have name : isNameChar c = true := by
    rw [isNameChar, h]
    rfl
  have hyphen : c ≠ '-' := by
    rintro rfl
    exact absurd h (by decide)
  exact isSeparator_eq_false (Less.isBlank_of_isNameChar name) hyphen underscore

/-! ## Case forms -/

/-- A case form of a letter or a number has no separators, if it has no underscore. -/
theorem CaseForm.isSeparator_eq_false {c : Char} {form : Text} (h : CaseForm c form)
    (hc : isAlphanumeric c = true) (underscore : '_' ∉ form) :
    ∀ e ∈ form, NameFormat.isSeparator e = false := by
  intro e he
  have ne : e ≠ '_' := by
    rintro rfl
    exact underscore he
  cases h with
  | same => rw [List.mem_singleton.mp he]; exact isSeparator_of_isAlphanumeric hc
  | letter hletter hd hmarks =>
    rcases List.mem_cons.mp he with rfl | he
    · exact isSeparator_of_isWordChar (isWordChar_of_isLetter hd) ne
    · exact isSeparator_of_isWordChar (hmarks e he) ne

theorem ofNat_alongRuns_ne_underscore {runs : List (Nat × Nat × Nat × Nat)}
    (h : mapsLetters runs = true) {c : Char} (ne : c ≠ '_') :
    Char.ofNat (alongRuns runs c.toNat) ≠ '_' := by
  rcases alongRuns_cases h c.toNat with ⟨-, hd⟩ | heq
  · intro underscore
    have letter := isLetter_ofNat hd
    rw [underscore] at letter
    exact absurd letter (by decide)
  · rwa [heq, Char.ofNat_toNat]

theorem underscore_not_mem_lowerForm {c : Char} (ne : c ≠ '_') : '_' ∉ lowerForm c := by
  unfold lowerForm
  split
  · rename_i ascii
    rw [List.mem_singleton]
    exact Css.forall_ascii (P := fun c => c ≠ '_' → '_' ≠ c.toLower) (by decide +kernel) ascii ne
  · split
    · decide
    · rw [List.mem_singleton]
      exact (ofNat_alongRuns_ne_underscore lowerRuns_mapsLetters ne).symm

theorem upperExpansions_without_underscore :
    upperExpansions.all (fun (_, images) => images.all (Char.ofNat · != '_')) = true := by
  decide +kernel

theorem underscore_not_mem_upperForm {c : Char} (ne : c ≠ '_') : '_' ∉ upperForm c := by
  unfold upperForm
  split
  · rename_i ascii
    rw [List.mem_singleton]
    exact Css.forall_ascii (P := fun c => c ≠ '_' → '_' ≠ c.toUpper) (by decide +kernel) ascii ne
  · split
    · rename_i n images hfind
      have without := List.all_eq_true.mp upperExpansions_without_underscore _
        (List.mem_of_find?_eq_some hfind)
      intro underscore
      obtain ⟨i, hi, heq⟩ := List.mem_map.mp underscore
      simpa [heq] using List.all_eq_true.mp without i hi
    · rw [List.mem_singleton]
      exact (ofNat_alongRuns_ne_underscore upperRuns_mapsLetters ne).symm

namespace Text

/-! ## Camel case -/

/-- The characters of a word in lower case are case forms of its characters. -/
theorem mem_lowerWord {w : Text} {e : Char} (h : e ∈ lowerWord w) :
    e = 'ς' ∨ ∃ c ∈ w, e ∈ lowerForm c := by
  fun_induction lowerWord w with
  | case1 => cases h
  | case2 => exact .inl (List.mem_singleton.mp h)
  | case3 c => exact .inr ⟨c, List.mem_singleton_self c, h⟩
  | case4 c rest _ ih =>
    rcases List.mem_append.mp h with h | h
    · exact .inr ⟨c, List.mem_cons_self, h⟩
    · exact (ih h).imp id fun ⟨d, hd, he⟩ => ⟨d, .tail c hd, he⟩

theorem mem_capitalWord {w : Text} {e : Char} (h : e ∈ capitalWord w) :
    e = 'ς' ∨ ∃ c ∈ w, e ∈ lowerForm c ∨ e ∈ upperForm c := by
  cases w with
  | nil => cases h
  | cons c rest =>
    rcases List.mem_append.mp h with h | h
    · exact .inr ⟨c, List.mem_cons_self, .inr h⟩
    · exact (mem_lowerWord h).imp id fun ⟨d, hd, he⟩ => ⟨d, .tail c hd, .inl he⟩

theorem isAlphanumeric_of_mem_nameWords {t w : Text} (h : w ∈ nameWords t) :
    ∀ c ∈ w, c ∈ t ∧ isAlphanumeric c = true := by
  intro c hc
  have inside : c ∈ (nameWords t).flatten := List.mem_flatten.mpr ⟨w, h, hc⟩
  rw [flatten_nameWords] at inside
  exact List.mem_filter.mp inside

/-- Nothing in camel case separates words. -/
theorem isSeparator_of_mem_camelCase {t : Text} {e : Char} (h : e ∈ camelCase t) :
    NameFormat.isSeparator e = false := by
  have formed : e = 'ς' ∨ ∃ w ∈ nameWords t, ∃ c ∈ w, e ∈ lowerForm c ∨ e ∈ upperForm c := by
    rw [camelCase] at h
    split at h
    · cases h
    · rename_i first rest hwords
      rw [hwords]
      rcases List.mem_append.mp h with h | h
      · rcases mem_lowerWord h with final | ⟨c, hc, he⟩
        · exact .inl final
        · exact .inr ⟨first, List.mem_cons_self, c, hc, .inl he⟩
      · obtain ⟨w, hw, h⟩ := List.mem_flatMap.mp h
        rcases mem_capitalWord h with final | ⟨c, hc, he⟩
        · exact .inl final
        · exact .inr ⟨w, .tail first hw, c, hc, he⟩
  rcases formed with rfl | ⟨w, hw, c, hc, he⟩
  · decide +kernel
  · have alphanumeric := (isAlphanumeric_of_mem_nameWords hw c hc).2
    have ne : c ≠ '_' := by
      rintro rfl
      exact absurd alphanumeric (by decide)
    rcases he with he | he
    · exact (lowerForm_caseForm c).isSeparator_eq_false alphanumeric
        (underscore_not_mem_lowerForm ne) e he
    · exact (upperForm_caseForm c).isSeparator_eq_false alphanumeric
        (underscore_not_mem_upperForm ne) e he

/-! ## Hyphenated case -/

/-- A character of a word in hyphenated case. -/
def isLowerOrDigit (c : Char) : Bool := c.isLower || c.isDigit

/-- Something made of lower case letters and digits. -/
structure IsLowWord (w : Text) : Prop where
  ne_nil : w ≠ []
  chars : ∀ c ∈ w, isLowerOrDigit c = true

/-- What is known of lower case letters and digits. -/
structure LowFacts (c : Char) : Prop where
  ascii : c.toNat < 128
  alphanumeric : isAlphanumeric c = true
  isUpper : isUpper c = false
  toLower : c.toLower = c

theorem lowFacts {c : Char} (h : isLowerOrDigit c = true) : LowFacts c := by
  have ascii : c.toNat < 128 := by
    delta isLowerOrDigit Char.isLower Char.isDigit at h
    simp only [Bool.or_eq_true, Bool.and_eq_true, decide_eq_true_eq, ge_iff_le,
      UInt32.le_iff_toNat_le, Char.toNat_val, Char.reduceToNat] at h
    omega
  obtain ⟨alphanumeric, isUpper, toLower⟩ := Css.forall_ascii (P := fun c =>
    isLowerOrDigit c = true → isAlphanumeric c = true ∧ StyleTypings.isUpper c = false ∧
      c.toLower = c) (by decide +kernel) ascii h
  exact ⟨ascii, alphanumeric, isUpper, toLower⟩

/-- In ASCII, a word is put into lower case one character after the other. -/
theorem lowerWord_of_ascii {w : Text} (h : ∀ c ∈ w, c.toNat < 128) :
    lowerWord w = w.map Char.toLower := by
  have form {c : Char} (hc : c.toNat < 128) : lowerForm c = [c.toLower] := if_pos hc
  fun_induction lowerWord w with
  | case1 => rfl
  | case2 => exact absurd (h 'Σ' List.mem_cons_self) (by decide)
  | case3 c => exact form (h c List.mem_cons_self)
  | case4 c rest _ ih =>
    obtain ⟨hc, later⟩ := List.forall_mem_cons.mp h
    rw [form hc, ih later]
    rfl

theorem IsLowWord.lowerWord_eq {w : Text} (h : IsLowWord w) : lowerWord w = w := by
  rw [lowerWord_of_ascii fun c hc => (lowFacts (h.chars c hc)).ascii,
    List.map_congr_left fun c hc => (lowFacts (h.chars c hc)).toLower, List.map_id']

/-- Letters and digits of ASCII in lower case. -/
theorem isLowWord_lowerWord {w : Text} (ne : w ≠ [])
    (h : ∀ c ∈ w, c.toNat < 128 ∧ isAlphanumeric c = true) : IsLowWord (lowerWord w) := by
  rw [lowerWord_of_ascii fun c hc => (h c hc).1]
  refine ⟨mt List.map_eq_nil_iff.mp ne, ?_⟩
  intro d hd
  obtain ⟨c, hc, rfl⟩ := List.mem_map.mp hd
  exact Css.forall_ascii (P := fun c => isAlphanumeric c = true → isLowerOrDigit c.toLower = true)
    (by decide +kernel) (h c hc).1 (h c hc).2

/-- Every word has characters: a word that capitals have begun is not cut off before it has
any. -/
theorem ne_nil_of_mem_casedWordsFrom {word : Text} {m : WordCase} {t w : Text}
    (begun : m = .upper → word ≠ []) (h : w ∈ casedWordsFrom word m t) : w ≠ [] := by
  fun_induction casedWordsFrom word m t with
  | case1 => cases h
  | case2 word m c =>
    rw [List.mem_singleton.mp h]
    simp
  | case3 word m c next rest ends ih =>
    rcases List.mem_cons.mp h with rfl | h
    · simp
    · exact ih (by decide) h
  | case4 word m c next rest _ ends ih =>
    rcases List.mem_cons.mp h with rfl | h
    · simp only [Bool.and_eq_true, decide_eq_true_eq] at ends
      simpa using begun ends.1.1
    · exact ih (fun _ => List.cons_ne_nil c []) h
  | case5 word m c next rest _ _ ih => exact ih (fun _ => List.cons_ne_nil c word) h

theorem ne_nil_of_mem_nameWords {t w : Text} (h : w ∈ nameWords t) : w ≠ [] := by
  obtain ⟨part, -, h⟩ := List.mem_flatMap.mp h
  exact ne_nil_of_mem_casedWordsFrom (m := .unseen) nofun h

/-- Without capitals a word is not cut. -/
theorem casedWordsFrom_of_forall {t : Text} (lower : ∀ c ∈ t, isUpper c = false) (ne : t ≠ [])
    (word : Text) (m : WordCase) : casedWordsFrom word m t = [word.reverse ++ t] := by
  fun_induction casedWordsFrom word m t with
  | case1 => exact absurd rfl ne
  | case2 word m c => simp
  | case3 word m c next rest ends =>
    rw [lower next (by simp), Bool.and_false] at ends
    cases ends
  | case4 word m c next rest _ ends =>
    rw [lower c (by simp), Bool.and_false, Bool.false_and] at ends
    cases ends
  | case5 word m c next rest _ _ ih =>
    rw [ih (List.forall_mem_cons.mp lower).2 (List.cons_ne_nil next rest)]
    simp

/-- Words of lower case letters and digits with hyphens between them come apart into these
words. -/
theorem nameWords_joinWith {ws : List Text} (h : ∀ w ∈ ws, IsLowWord w) :
    nameWords (joinWith ['-'] ws) = ws := by
  have single {w : Text} (hw : IsLowWord w) :
      w.splitOnP (! isAlphanumeric ·) = [w] ∧ casedWordsFrom [] .unseen w = [w] := by
    refine ⟨List.splitOnP_eq_singleton fun c hc => ?_, ?_⟩
    · rw [(lowFacts (hw.chars c hc)).alphanumeric]
      rfl
    · exact casedWordsFrom_of_forall (fun c hc => (lowFacts (hw.chars c hc)).isUpper) hw.ne_nil [] _
  induction ws with
  | nil => simp [nameWords, joinWith, casedWordsFrom]
  | cons w ws ih =>
    obtain ⟨hw, later⟩ := List.forall_mem_cons.mp h
    obtain ⟨whole, one⟩ := single hw
    cases ws with
    | nil => rw [joinWith, nameWords, whole, List.flatMap_singleton, one]
    | cons next ws =>
      have rest := ih later
      rw [nameWords] at rest
      rw [joinWith_cons _ _ (List.cons_ne_nil next ws), List.append_assoc, List.singleton_append,
        nameWords, List.splitOnP_append_cons _ _ (by decide), whole, List.flatMap_append, rest,
        List.flatMap_singleton, one, List.singleton_append]

/-- What a name in ASCII is in hyphenated case: its letters and digits in lower case, all of them
and in order, in words. -/
theorem kebabCase_words {t : Text} (ascii : ∀ c ∈ t, c.toNat < 128) :
    ∃ ws, kebabCase t = joinWith ['-'] ws ∧ (∀ w ∈ ws, IsLowWord w) ∧
      ws.flatten = (t.filter isAlphanumeric).map Char.toLower := by
  have plain (w : Text) (hw : w ∈ nameWords t) :
      ∀ c ∈ w, c.toNat < 128 ∧ isAlphanumeric c = true := by
    intro c hc
    obtain ⟨inside, alphanumeric⟩ := isAlphanumeric_of_mem_nameWords hw c hc
    exact ⟨ascii c inside, alphanumeric⟩
  refine ⟨_, rfl, ?_, ?_⟩
  · intro w' hw'
    obtain ⟨w, hw, rfl⟩ := List.mem_map.mp hw'
    exact isLowWord_lowerWord (ne_nil_of_mem_nameWords hw) (plain w hw)
  · rw [List.map_congr_left fun w hw => lowerWord_of_ascii fun c hc => (plain w hw c hc).1,
      ← List.map_flatten, flatten_nameWords]

theorem kebabCase_joinWith {ws : List Text} (h : ∀ w ∈ ws, IsLowWord w) :
    kebabCase (joinWith ['-'] ws) = joinWith ['-'] ws := by
  rw [kebabCase, nameWords_joinWith h, List.map_congr_left fun w hw => (h w hw).lowerWord_eq,
    List.map_id']

end Text

/-! ## Formats -/

namespace NameFormat

/-- The formats that take hyphens out. -/
def IsUnhyphened (f : NameFormat) : Prop := f = camel ∨ f = dashes

theorem any_isSeparator_camelName (t : Text) : (camelName t).any isSeparator = false := by
  rw [camelName]
  split
  · rw [List.any_eq_false]
    intro e he
    rw [Text.isSeparator_of_mem_camelCase he]
    exact Bool.false_ne_true
  · rename_i none
    rwa [Bool.not_eq_true] at none

theorem hyphen_not_mem_camelName (t : Text) : '-' ∉ camelName t := by
  intro hyphen
  exact absurd (Text.forall_eq_false (any_isSeparator_camelName t) '-' hyphen) (by decide)

theorem IsUnhyphened.hyphen_not_mem {f : NameFormat} (h : f.IsUnhyphened) (t : Text) :
    '-' ∉ f.apply t := by
  rcases h with rfl | rfl
  · exact hyphen_not_mem_camelName t
  · rw [apply]
    split
    · exact hyphen_not_mem_camelName t
    · simp_all

theorem IsUnhyphened.apply_apply {f : NameFormat} (h : f.IsUnhyphened) (t : Text) :
    f.apply (f.apply t) = f.apply t := by
  refine apply_of_not_rebuilds ?_
  have hyphen := h.hyphen_not_mem t
  rcases h with rfl | rfl
  · exact any_isSeparator_camelName t
  · simpa [rebuilds] using hyphen

end NameFormat

/-! ## Warnings -/

/-- No warning that a name is reserved reads as one about hyphens: they end differently. -/
theorem Identifier.warning_ne (x y : Text) :
    Refusal.containsDashes.warning x ≠ Refusal.reservedKeyword.warning y := by
  have behind (before a b tail : Text) (h : tail <:+ a ++ b) : tail <:+ before ++ a ++ b := by
    rw [List.append_assoc]
    exact h.trans (List.suffix_append before _)
  have hyphens : ("t or using --export-type default)." : Text) <:+
      Refusal.containsDashes.warning x := by
    exact behind _ _ _ _ (by decide)
  have reserved : ("g or using --export-type default)." : Text) <:+
      Refusal.reservedKeyword.warning y :=
    List.IsSuffix.trans (by decide) (List.suffix_append _ _)
  intro same
  rw [same] at hyphens
  exact absurd (List.suffix_of_suffix_length_le hyphens reserved (by decide)) (by decide)

/-- No warning about hyphens comes of classes whose names have none. -/
theorem Typings.not_mem_warnings {cs : List ClassName} (h : ∀ c ∈ cs, '-' ∉ c.identifier)
    (e : ExportType) (ending : LineEnding) (x : Text) :
    Identifier.Refusal.containsDashes.warning x ∉ (render e ending cs).warnings := by
  intro warned
  by_cases he : e = .default
  · subst he
    cases cs <;> cases warned
  · obtain ⟨c, hc, r, refused, heq⟩ := (mem_warnings he ending).mp warned
    cases r with
    | reservedKeyword => exact Identifier.warning_ne x c.identifier heq.symm
    | containsDashes =>
      have unhyphened := h c hc
      simp [Identifier.refusal?, unhyphened] at refused

namespace NameFormat

/-- A name in camel case, or in the format that takes hyphens out, stays as it is and has no
hyphens, so there are no warnings about them.  A name in ASCII in hyphenated case stays as it
is, too: it is made of words of lower case letters and digits, those of the name, with one
hyphen between neighbours. -/
theorem apply_stable :
    (∀ f : NameFormat, f.IsUnhyphened →
      (∀ t, f.apply (f.apply t) = f.apply t ∧ '-' ∉ f.apply t) ∧
      ∀ (s : Less.Stylesheet) (e : ExportType) (ending : LineEnding) (x : Text),
        Identifier.Refusal.containsDashes.warning x ∉
          (Typings.render e ending (classNames f s)).warnings) ∧
    ∀ t : Text, (∀ c ∈ t, c.toNat < 128) →
      kebab.apply (kebab.apply t) = kebab.apply t ∧ kebab.apply t = param.apply t ∧
      ∃ ws, kebab.apply t = Text.joinWith ['-'] ws ∧ (∀ w ∈ ws, Text.IsLowWord w) ∧
        ws.flatten = (t.filter isAlphanumeric).map Char.toLower := by
  refine ⟨fun f h => ⟨fun t => ⟨h.apply_apply t, h.hyphen_not_mem t⟩, ?_⟩, ?_⟩
  · intro s
    refine Typings.not_mem_warnings ?_
    intro c hc
    rw [(mem_classNames.mp hc).2]
    exact h.hyphen_not_mem c.name
  · intro t ascii
    obtain ⟨ws, heq, low, letters⟩ := Text.kebabCase_words ascii
    refine ⟨?_, rfl, ws, heq, low, letters⟩
    show Text.kebabCase (Text.kebabCase t) = Text.kebabCase t
    rw [heq, Text.kebabCase_joinWith low]

/-- One character becomes two, a run of capitals is cut before its last, and separators stand
at both ends. -/
theorem apply_stable_mixed :
    (IsUnhyphened camel ∧ camel.apply "-İx_ß-" = "i\u0307xSS" ∧
        camel.apply (camel.apply "-İx_ß-") = camel.apply "-İx_ß-" ∧
        '-' ∉ camel.apply "-İx_ß-") ∧
      (∀ c ∈ ("_XMLHttp--a1B-" : Text), c.toNat < 128) ∧
        kebab.apply "_XMLHttp--a1B-" = "xml-http-a1-b" ∧
        kebab.apply (kebab.apply "_XMLHttp--a1B-") = kebab.apply "_XMLHttp--a1B-" := by
  have unhyphened : IsUnhyphened camel := .inl rfl
  have coded : ("_XMLHttp--a1B-" : Text).all (·.toNat < 128) = true := by decide
  have ascii (c : Char) (hc : c ∈ ("_XMLHttp--a1B-" : Text)) : c.toNat < 128 :=
    of_decide_eq_true (List.all_eq_true.mp coded c hc)
  obtain ⟨camels, -⟩ := apply_stable.1 camel unhyphened
  exact ⟨⟨unhyphened, by decide +kernel, camels "-İx_ß-"⟩, ascii, by decide +kernel,
    (apply_stable.2 _ ascii).1⟩

end NameFormat

end StyleTypings
