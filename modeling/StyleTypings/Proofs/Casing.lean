/-
Casing — what a change of case makes of a character.

A letter becomes a letter, perhaps with marks behind it, and a character that is no
letter stays as it is (`lowerForm_caseForm`, `upperForm_caseForm`).  Above ASCII the
changes are tables, and a table is checked run by run: most runs lie inside one span
of letters, and the few that do not are checked code point by code point.
-/
import StyleTypings.Text.Casing
import StyleTypings.Text.Letter
import StyleTypings.Proofs.Css.Spelling

namespace StyleTypings

/-! ## Letters -/

/-- Whether a code point is that of a letter. -/
def isLetterCode (n : Nat) : Bool :=
  if n < 128 then (Char.ofNat n).isAlpha else inSpans alphabeticSpans n

/-- Whether a character is a letter: one with the Unicode property Alphabetic. -/
def isLetter (c : Char) : Bool := isLetterCode c.toNat

theorem isLetter_of_ascii {c : Char} (hc : c.toNat < 128) : isLetter c = c.isAlpha := by
  rw [isLetter, isLetterCode, if_pos hc, Char.ofNat_toNat]

theorem isWordChar_of_isLetter {c : Char} (h : isLetter c = true) : isWordChar c = true := by
  by_cases hc : c.toNat < 128
  · rw [isLetter_of_ascii hc] at h
    rw [isWordChar, if_pos hc, Char.isAlphanum, h]
    rfl
  · rw [isLetter, isLetterCode, if_neg hc] at h
    rw [isWordChar, if_neg hc, h]
    rfl

/-- No letter is a surrogate, so every code of a letter is the code of a character. -/
theorem isLetter_ofNat {n : Nat} (h : isLetterCode n = true) : isLetter (Char.ofNat n) = true := by
  have spans : alphabeticSpans.all (fun span =>
      span.2 < 0xD800 || (0xDFFF < span.1 && span.2 < 0x110000)) = true := by decide +kernel
  have valid : n.isValidChar := by
    unfold isLetterCode at h
    split at h
    · exact .inl (by omega)
    · obtain ⟨⟨first, last⟩, hmem, hn⟩ := List.any_eq_true.mp h
      have := List.all_eq_true.mp spans _ hmem
      simp only [Bool.or_eq_true, Bool.and_eq_true, decide_eq_true_eq] at this hn
      rcases this with hlt | hgt
      · exact .inl (by omega)
      · exact .inr (by omega)
  have hcode : (Char.ofNat n).toNat = n := by
    rw [Char.ofNat, dif_pos valid]
    rfl
  rw [isLetter, hcode, h]

/-! ## Runs -/

/-- Whether all code points of a run are those of letters.  The comparisons are the
ones on naturals that are computed at once, for there are many. -/
def areLetters (first last step : Nat) : Bool :=
  (Nat.ble 128 first && alphabeticSpans.any fun s => Nat.ble s.1 first && Nat.ble last s.2) ||
    (List.range (last - first + 1)).all fun k => k % step != 0 || isLetterCode (first + k)

theorem isLetterCode_of_areLetters {first last step k : Nat}
    (h : areLetters first last step = true) (hk : first + k ≤ last) (hstep : k % step = 0) :
    isLetterCode (first + k) = true := by
  rcases Bool.or_eq_true_iff.mp h with hspan | hall
  · rw [Bool.and_eq_true, List.any_eq_true] at hspan
    obtain ⟨hfirst, s, hs, hin⟩ := hspan
    rw [Bool.and_eq_true, Nat.ble_eq, Nat.ble_eq] at hin
    have hlarge := Nat.ble_eq.mp hfirst
    rw [isLetterCode, if_neg (by omega), inSpans, List.any_eq_true]
    refine ⟨s, hs, ?_⟩
    simp only [Bool.and_eq_true, decide_eq_true_eq]
    omega
  · have := List.all_eq_true.mp hall k (List.mem_range.mpr (by omega))
    simpa [hstep] using this

/-- Whether the runs of a mapping lead from letters to letters. -/
def mapsLetters (runs : List (Nat × Nat × Nat × Nat)) : Bool :=
  runs.all fun (first, last, step, image) =>
    areLetters first last step && areLetters image (image + (last - first)) step

theorem lowerRuns_mapsLetters : mapsLetters lowerRuns = true := by decide +kernel

theorem upperRuns_mapsLetters : mapsLetters upperRuns = true := by decide +kernel

/-- A code point is moved from one letter to another, or stays where it is. -/
theorem alongRuns_cases {runs : List (Nat × Nat × Nat × Nat)} (h : mapsLetters runs = true)
    (n : Nat) :
    (isLetterCode n = true ∧ isLetterCode (alongRuns runs n) = true) ∨ alongRuns runs n = n := by
  unfold alongRuns
  cases hrun : runs.find? fun (first, last, step, _) =>
      first ≤ n && n ≤ last && (n - first) % step == 0 with
  | none => exact .inr rfl
  | some run =>
    obtain ⟨first, last, step, image⟩ := run
    have hletters := List.all_eq_true.mp h _ (List.mem_of_find?_eq_some hrun)
    have hn := List.find?_some hrun
    simp only [Bool.and_eq_true, decide_eq_true_eq, beq_iff_eq] at hletters hn
    obtain ⟨hkeys, himages⟩ := hletters
    obtain ⟨⟨hfirst, hlast⟩, hstep⟩ := hn
    have hkey := isLetterCode_of_areLetters (k := n - first) hkeys (by omega) hstep
    rw [Nat.add_sub_cancel' hfirst] at hkey
    exact .inl ⟨hkey, isLetterCode_of_areLetters himages (by omega) hstep⟩

/-! ## Case forms -/

/-- A text stands for a character in another case, or in the same one. -/
inductive CaseForm (c : Char) : Text → Prop where
  /-- A letter becomes a letter and perhaps marks. -/
  | letter {d : Char} {marks : Text} (hc : isLetter c = true) (hd : isLetter d = true)
    (hmarks : ∀ e ∈ marks, isWordChar e = true) : CaseForm c (d :: marks)
  | same : CaseForm c [c]

/-- A letter that becomes a letter. -/
theorem CaseForm.single {c d : Char} (hc : isLetter c = true) (hd : isLetter d = true) :
    CaseForm c [d] :=
  .letter hc hd nofun

theorem CaseForm.along {runs : List (Nat × Nat × Nat × Nat)} (h : mapsLetters runs = true)
    (c : Char) : CaseForm c [Char.ofNat (alongRuns runs c.toNat)] := by
  rcases alongRuns_cases h c.toNat with ⟨hc, hd⟩ | heq
  · exact .single hc (isLetter_ofNat hd)
  · rw [heq, Char.ofNat_toNat]
    exact .same

theorem CaseForm.ascii {c d : Char} (hc : c.toNat < 128) (h : (c.isAlpha ∧ isLetter d) ∨ d = c) :
    CaseForm c [d] := by
  rcases h with ⟨halpha, hd⟩ | rfl
  · exact .single (by rw [isLetter_of_ascii hc, halpha]) hd
  · exact .same

theorem lowerForm_caseForm (c : Char) : CaseForm c (lowerForm c) := by
  unfold lowerForm
  split
  · rename_i hc
    exact .ascii hc (Css.forall_ascii
      (P := fun c => (c.isAlpha ∧ isLetter c.toLower) ∨ c.toLower = c) (by decide) hc)
  · split
    · rename_i hc
      refine .letter (d := 'i') ?_ (by decide) (List.all_eq_true.mp (by decide +kernel))
      rw [isLetter, hc]
      decide +kernel
    · exact .along lowerRuns_mapsLetters c

/-- What becomes of a letter that has an upper case of several characters. -/
theorem upperExpansions_letters : upperExpansions.all (fun (n, images) =>
    areLetters n n 1 && (images.head?.any fun i => areLetters i i 1) &&
      images.tail.all fun i => isWordChar (Char.ofNat i)) = true := by decide +kernel

theorem upperForm_caseForm (c : Char) : CaseForm c (upperForm c) := by
  unfold upperForm
  split
  · rename_i hc
    exact .ascii hc (Css.forall_ascii
      (P := fun c => (c.isAlpha ∧ isLetter c.toUpper) ∨ c.toUpper = c) (by decide) hc)
  · split
    · rename_i n images hfind
      have hcode := List.find?_some hfind
      have hmem := List.mem_of_find?_eq_some hfind
      have hletters := List.all_eq_true.mp upperExpansions_letters _ hmem
      simp only [beq_iff_eq, Bool.and_eq_true] at hcode hletters
      obtain ⟨⟨hn, hhead⟩, htail⟩ := hletters
      cases images with
      | nil => cases hhead
      | cons image images =>
        have hc := isLetterCode_of_areLetters (k := 0) hn (Nat.le_refl n) rfl
        have hd := isLetterCode_of_areLetters (k := 0) hhead (Nat.le_refl image) rfl
        refine .letter (by rwa [isLetter, ← hcode]) (isLetter_ofNat hd) fun e he => ?_
        obtain ⟨i, hi, rfl⟩ := List.mem_map.mp he
        exact List.all_eq_true.mp htail i hi
    · exact .along upperRuns_mapsLetters c

end StyleTypings
