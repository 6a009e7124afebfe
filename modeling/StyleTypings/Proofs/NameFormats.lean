/-
Name formats — what a format keeps of the name of a class.

A format leaves a name as it is, or it takes the name apart and builds it anew out of
its words.  What is built anew holds the letters and numbers of the name in another
case (`Recased`) and nothing else, so whether it is an identifier shows in the name
itself: it is one exactly when what the format keeps of the name is one
(`isName_apply_iff`).
-/
import StyleTypings.Classes.NameFormat
import StyleTypings.Proofs.Casing
import StyleTypings.Proofs.Words

namespace StyleTypings

/-! ## Identifiers -/

namespace Identifier

/-- A character that can begin an identifier. -/
def isStart (c : Char) : Bool := isLetter c || c == '_' || c == '$'

/-- A character that can stand in an identifier: a letter with its marks, a digit, or one
of the signs. -/
def isPart (c : Char) : Bool := isWordChar c || c == '$'

/-- A text is spelled as the identifiers of scripts are. -/
inductive IsName : Text → Prop where
  | intro {c : Char} {rest : Text} (start : isStart c = true)
    (parts : ∀ d ∈ rest, isPart d = true) : IsName (c :: rest)

theorem isPart_of_isWordChar {c : Char} (h : isWordChar c = true) : isPart c = true := by
  rw [isPart, h]
  rfl

theorem isStart_of_isLetter {c : Char} (h : isLetter c = true) : isStart c = true := by
  rw [isStart, h]
  rfl

theorem isPart_of_isStart {c : Char} (h : isStart c = true) : isPart c = true := by
  simp only [isStart, Bool.or_eq_true, beq_iff_eq] at h
  rcases h with (hletter | rfl) | rfl
  · exact isPart_of_isWordChar (isWordChar_of_isLetter hletter)
  · decide
  · decide

end Identifier

/-! ## Changes of case -/

/-- A text has, for every character of another, one of its case forms. -/
inductive Recased : Text → Text → Prop where
  | nil : Recased [] []
  | cons {c : Char} {form t u : Text} (first : CaseForm c form) (rest : Recased t u) :
    Recased (c :: t) (form ++ u)

namespace Recased

theorem append {t t' u u' : Text} (h : Recased t u) (h' : Recased t' u') :
    Recased (t ++ t') (u ++ u') := by
  induction h with
  | nil => exact h'
  | cons first _ ih =>
    rw [List.append_assoc]
    exact .cons first ih

theorem flatMap {f : Text → Text} (hf : ∀ w, Recased w (f w)) (ws : List Text) :
    Recased ws.flatten (ws.flatMap f) := by
  induction ws with
  | nil => exact .nil
  | cons w ws ih =>
    rw [List.flatten_cons, List.flatMap_cons]
    exact (hf w).append ih

theorem lowerWord (w : Text) : Recased w (Text.lowerWord w) := by
  induction w with
  | nil => exact .nil
  | cons c rest ih =>
    cases rest with
    | nil =>
      rw [Text.lowerWord]
      split
      · rename_i hc
        subst hc
        exact .cons (.single (by decide +kernel) (by decide +kernel)) .nil
      · rw [← List.append_nil (lowerForm c)]
        exact .cons (lowerForm_caseForm c) .nil
    | cons d rest => exact .cons (lowerForm_caseForm c) ih

theorem capitalWord (w : Text) : Recased w (Text.capitalWord w) := by
  cases w with
  | nil => exact .nil
  | cons c rest => exact .cons (upperForm_caseForm c) (lowerWord rest)

open Identifier

/-- A change of case keeps the characters of identifiers apart from the others. -/
theorem parts_iff {t u : Text} (h : Recased t u) :
    (∀ c ∈ u, isPart c = true) ↔ ∀ c ∈ t, isPart c = true := by
  induction h with
  | nil => rfl
  | @cons c form t u first rest ih =>
    rw [List.forall_mem_append, List.forall_mem_cons, ih]
    refine and_congr_left fun _ => ?_
    cases first with
    | same => simp
    | letter hc hd hmarks =>
      refine iff_of_true ?_ (isPart_of_isStart (isStart_of_isLetter hc))
      rintro e (_ | ⟨_, he⟩)
      · exact isPart_of_isStart (isStart_of_isLetter hd)
      · exact isPart_of_isWordChar (hmarks e he)

/-- A change of case makes no identifier of what is none, and spoils none. -/
theorem isName_iff {t u : Text} (h : Recased t u) : IsName u ↔ IsName t := by
  cases h with
  | nil => rfl
  | @cons c form t u first rest =>
    have hparts := rest.parts_iff
    cases first with
    | same =>
      constructor
      · rintro ⟨start, parts⟩
        exact ⟨start, hparts.mp parts⟩
      · rintro ⟨start, parts⟩
        exact ⟨start, hparts.mpr parts⟩
    | @letter d marks hc hd hmarks =>
      constructor
      · rintro ⟨_, parts⟩
        refine ⟨isStart_of_isLetter hc, hparts.mp fun e he => parts e ?_⟩
        exact List.mem_append_right marks he
      · rintro ⟨_, parts⟩
        refine ⟨isStart_of_isLetter hd, fun e he => ?_⟩
        rcases List.mem_append.mp he with he | he
        · exact isPart_of_isWordChar (hmarks e he)
        · exact hparts.mpr parts e he

end Recased

/-! ## Words -/

namespace Text

/-- Cutting a run of letters and numbers into words loses nothing. -/
theorem flatten_casedWordsFrom (word : Text) (m : WordCase) {t : Text} (ht : t ≠ []) :
    (casedWordsFrom word m t).flatten = word.reverse ++ t := by
  fun_induction casedWordsFrom word m t with
  | case1 => exact absurd rfl ht
  | case2 word m c => simp
  | case3 word m c next rest h ih => simp [ih]
  | case4 word m c next rest h h' ih => simp [ih]
  | case5 word m c next rest h h' ih => simp [ih]

/-- The words of a name are made of its letters and numbers, all of them and in order. -/
theorem flatten_nameWords (t : Text) : (nameWords t).flatten = t.filter isAlphanumeric := by
  have runs := flatten_splitOnP (! isAlphanumeric ·) t
  simp only [Bool.not_not] at runs
  rw [nameWords, ← runs]
  generalize t.splitOnP (! isAlphanumeric ·) = parts
  induction parts with
  | nil => rfl
  | cons part parts ih =>
    rw [List.flatMap_cons, List.flatten_append, ih, List.flatten_cons]
    cases part with
    | nil => rfl
    | cons c part => rw [flatten_casedWordsFrom [] .unseen (List.cons_ne_nil c part)]; rfl

theorem camelCase_recased (t : Text) : Recased (t.filter isAlphanumeric) (camelCase t) := by
  rw [← flatten_nameWords, camelCase]
  cases nameWords t with
  | nil => exact .nil
  | cons first rest =>
    rw [List.flatten_cons]
    exact (Recased.lowerWord first).append (.flatMap .capitalWord rest)

/-- What is in lower case and has no hyphen has at most one word. -/
theorem kebabCase_recased {t : Text} (h : '-' ∉ kebabCase t) :
    Recased (t.filter isAlphanumeric) (kebabCase t) := by
  rw [← flatten_nameWords]
  rw [kebabCase] at h ⊢
  cases hwords : nameWords t with
  | nil => exact .nil
  | cons first rest =>
    rw [hwords] at h
    cases rest with
    | nil =>
      rw [List.flatten_singleton]
      exact .lowerWord first
    | cons next rest =>
      refine absurd ?_ h
      simp [joinWith]

end Text

/-! ## Formats -/

namespace NameFormat

/-- Whether a format takes a name apart. -/
def rebuilds : NameFormat → Text → Bool
  | camel, t => t.any isSeparator
  | kebab, _ => true
  | param, _ => true
  | dashes, t => t.contains '-'
  | none, _ => false

/-- What a format keeps of a name: the letters and numbers of one that it takes apart,
and everything of another. -/
def kept (f : NameFormat) (t : Text) : Text :=
  if f.rebuilds t then t.filter isAlphanumeric else t

theorem apply_of_not_rebuilds {f : NameFormat} {t : Text} (h : f.rebuilds t = false) :
    f.apply t = t := by
  cases f with
  | camel => exact if_neg (by simpa [rebuilds] using h)
  | kebab => cases h
  | param => cases h
  | dashes => exact if_neg (by simpa [rebuilds] using h)
  | none => rfl

/-- A format that takes a name apart puts its words together in one of two ways. -/
theorem apply_of_rebuilds {f : NameFormat} {t : Text} (h : f.rebuilds t = true) :
    f.apply t = Text.camelCase t ∨ f.apply t = Text.kebabCase t := by
  cases f with
  | camel => exact .inl (if_pos h)
  | kebab => exact .inr rfl
  | param => exact .inr rfl
  | dashes =>
    have separated : t.any isSeparator = true :=
      List.any_eq_true.mpr ⟨'-', by simpa [rebuilds] using h, rfl⟩
    exact .inl ((if_pos h).trans (if_pos separated))
  | none => cases h

theorem apply_recased {f : NameFormat} {t : Text} (h : f.rebuilds t = true)
    (hyphen : '-' ∉ f.apply t) : Recased (t.filter isAlphanumeric) (f.apply t) := by
  rcases apply_of_rebuilds h with heq | heq
  · rw [heq]
    exact Text.camelCase_recased t
  · rw [heq] at hyphen ⊢
    exact Text.kebabCase_recased hyphen

/-- The identifier that a format gives a class, if it has no hyphen, is spelled as it
has to be exactly when what the format keeps of the class is. -/
theorem isName_apply_iff {f : NameFormat} {t : Text} (hyphen : '-' ∉ f.apply t) :
    Identifier.IsName (f.apply t) ↔ Identifier.IsName (f.kept t) := by
  rw [kept]
  split
  · rename_i h
    exact (apply_recased h hyphen).isName_iff
  · rename_i h
    rw [apply_of_not_rebuilds (by simpa using h)]

end NameFormat

end StyleTypings
