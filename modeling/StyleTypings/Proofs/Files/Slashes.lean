/-
Slashes — texts cut at slashes and put together again.

A path and its spelling say the same if no segment has a slash in it, and the segments of a
path that is read off a text have none.  So a relative path is known from its text
(`splitOn_text`): a text that begins with some names and a slash after each is that of a
path that begins with these names (`segments_of_text`).
-/
import StyleTypings.Proofs.Files.Steps

namespace StyleTypings

namespace Text

theorem joinWith_eq_intercalate (sep : Text) (parts : List Text) :
    joinWith sep parts = sep.intercalate parts := by
  fun_induction joinWith sep parts with
  | case1 => rfl
  | case2 t => exact List.intercalate_singleton.symm
  | case3 t rest nonempty ih => rw [List.intercalate_cons_of_ne_nil nonempty, ih]

theorem joinWith_cons (sep t : Text) {rest : List Text} (h : rest ≠ []) :
    joinWith sep (t :: rest) = t ++ sep ++ joinWith sep rest := by
  obtain ⟨u, rest, rfl⟩ := List.exists_cons_of_ne_nil h
  rw [joinWith]
  exact List.cons_ne_nil u rest

theorem joinWith_append (sep : Text) (parts : List Text) {rest : List Text} (h : rest ≠ []) :
    joinWith sep (parts ++ rest) = parts.flatMap (· ++ sep) ++ joinWith sep rest := by
  induction parts with
  | nil => rfl
  | cons part parts ih =>
    rw [List.cons_append, joinWith_cons sep part (by simp [h]), ih, List.flatMap_cons,
      List.append_assoc (part ++ sep)]

/-- Parts with a separator behind each are the parts joined, and one separator more. -/
theorem joinWith_append_sep (sep : Text) {parts : List Text} (h : parts ≠ []) :
    joinWith sep parts ++ sep = parts.flatMap (· ++ sep) := by
  rcases parts.eq_nil_or_concat with rfl | ⟨before, last, rfl⟩
  · exact absurd rfl h
  · rw [List.concat_eq_append, joinWith_append sep before (List.cons_ne_nil last []),
      List.flatMap_append, List.append_assoc]
    simp [joinWith]

/-- What is put behind the last part is put behind the whole. -/
theorem joinWith_append_last (sep : Text) (parts : List Text) (part more : Text) :
    joinWith sep (parts ++ [part ++ more]) = joinWith sep (parts ++ [part]) ++ more := by
  rw [joinWith_append sep parts (List.cons_ne_nil _ _),
    joinWith_append sep parts (List.cons_ne_nil _ _)]
  simp [joinWith]

theorem joinWith_prefix (sep : Text) (parts rest : List Text) :
    joinWith sep parts <+: joinWith sep (parts ++ rest) := by
  rcases parts.eq_nil_or_concat with rfl | ⟨before, last, rfl⟩
  · exact List.nil_prefix
  · rw [List.concat_eq_append, List.append_assoc, joinWith_append _ _ (List.cons_ne_nil _ _),
      joinWith_append _ _ (by simp), List.prefix_append_right_inj, joinWith, List.singleton_append]
    cases rest with
    | nil => exact List.prefix_rfl
    | cons next rest =>
      rw [joinWith_cons _ _ (List.cons_ne_nil _ _), List.append_assoc]
      exact List.prefix_append _ _

theorem joinWith_suffix (sep : Text) (parts : List Text) {rest : List Text} (h : rest ≠ []) :
    joinWith sep rest <:+ joinWith sep (parts ++ rest) := by
  rw [joinWith_append sep parts h]
  exact List.suffix_append _ _

/-- Parts that are left out leave a text out of the whole, and separators with them. -/
theorem joinWith_sublist (sep : Text) {parts all : List Text} (h : parts.Sublist all) :
    (joinWith sep parts).Sublist (joinWith sep all) := by
  induction h with
  | slnil => exact List.Sublist.slnil
  | @cons parts all part _ ih =>
    refine ih.trans ?_
    rcases all with _ | ⟨next, rest⟩
    · exact List.nil_sublist _
    · exact (joinWith_suffix sep [part] (List.cons_ne_nil next rest)).sublist
  | @cons_cons parts all part h ih =>
    rcases parts with _ | ⟨next, rest⟩
    · have begins := joinWith_prefix sep [part] all
      exact begins.sublist
    · rw [joinWith_cons sep part (List.cons_ne_nil next rest),
        joinWith_cons sep part (List.ne_nil_of_mem (h.subset List.mem_cons_self))]
      exact (List.Sublist.refl _).append ih

theorem joinWith_ne_nil {sep : Text} {parts : List Text} (h : parts ≠ [])
    (named : ∀ part ∈ parts, part ≠ []) : joinWith sep parts ≠ [] := by
  obtain ⟨first, rest, rfl⟩ := List.exists_cons_of_ne_nil h
  obtain ⟨after, begins⟩ := joinWith_prefix sep [first] rest
  rw [List.singleton_append] at begins
  rw [← begins]
  exact List.append_ne_nil_of_left_ne_nil (named first List.mem_cons_self) after

theorem exists_mem_of_mem_joinWith {sep : Text} {parts : List Text} {c : Char}
    (h : c ∈ joinWith sep parts) : c ∈ sep ∨ ∃ part ∈ parts, c ∈ part := by
  fun_induction joinWith sep parts with
  | case1 => cases h
  | case2 t => exact .inr ⟨t, List.mem_singleton_self t, h⟩
  | case3 t rest nonempty ih =>
    rw [List.append_assoc, List.mem_append, List.mem_append] at h
    rcases h with h | h | h
    · exact .inr ⟨t, List.mem_cons_self, h⟩
    · exact .inl h
    · exact (ih h).imp id fun ⟨part, hpart, h⟩ => ⟨part, .tail _ hpart, h⟩

theorem joinWith_splitOn (sep : Char) (t : Text) : joinWith [sep] (t.splitOn sep) = t := by
  rw [joinWith_eq_intercalate, List.intercalate_splitOn]

theorem splitOn_joinWith {sep : Char} {parts : List Text} (without : ∀ part ∈ parts, sep ∉ part)
    (h : parts ≠ []) : (joinWith [sep] parts).splitOn sep = parts := by
  rw [joinWith_eq_intercalate, List.splitOn_intercalate sep without h]

theorem splitOn_flatMap {sep : Char} {parts : List Text} (without : ∀ part ∈ parts, sep ∉ part)
    (t : Text) : (parts.flatMap (· ++ [sep]) ++ t).splitOn sep = parts ++ t.splitOn sep := by
  induction parts with
  | nil => rfl
  | cons part parts ih =>
    obtain ⟨first, others⟩ := List.forall_mem_cons.mp without
    rw [List.flatMap_cons, List.append_assoc, List.append_assoc, List.singleton_append,
      List.splitOn_append_cons_self_of_not_mem first, ih others, List.cons_append]

/-- There is one part more than there are separators. -/
theorem length_splitOn (sep : Char) (t : Text) : (t.splitOn sep).length = t.count sep + 1 := by
  induction t with
  | nil => rfl
  | cons c t ih =>
    rw [List.splitOn_cons_eq_if_modifyHead]
    split
    · rename_i same
      rw [List.length_cons, ih, beq_iff_eq.mp same, List.count_cons_self]
    · rename_i other
      rw [List.length_modifyHead, ih, List.count_cons_of_ne (fun same => other (by simp [same]))]

/-- What stands between separators has none in it. -/
theorem not_mem_of_mem_splitOn {sep : Char} {t part : Text} (h : part ∈ t.splitOn sep) :
    sep ∉ part := by
  induction t generalizing part with
  | nil =>
    rw [List.splitOn_nil, List.mem_singleton] at h
    rw [h]
    exact List.not_mem_nil
  | cons c t ih =>
    rw [List.splitOn_cons_eq_if_modifyHead] at h
    split at h
    · rcases List.mem_cons.mp h with rfl | h
      · exact List.not_mem_nil
      · exact ih h
    · rename_i other
      obtain ⟨first, parts, hparts⟩ := List.exists_cons_of_ne_nil (List.splitOn_ne_nil sep t)
      rw [hparts, List.modifyHead_cons] at h
      rw [hparts] at ih
      rcases List.mem_cons.mp h with rfl | h
      · rw [List.mem_cons, not_or]
        exact ⟨fun same => other (by simp [same]), ih List.mem_cons_self⟩
      · exact ih (.tail _ h)

/-- Where two texts are put together, the last part of the first and the first part of the
second become one. -/
theorem splitOn_append {sep : Char} {s t last first : Text} {before after : List Text}
    (hs : s.splitOn sep = before ++ [last]) (ht : t.splitOn sep = first :: after) :
    (s ++ t).splitOn sep = before ++ (last ++ first) :: after := by
  have whole : s ++ t = joinWith [sep] (before ++ (last ++ first) :: after) := by
    rw [← joinWith_splitOn sep s, ← joinWith_splitOn sep t, hs, ht,
      joinWith_append _ _ (List.cons_ne_nil _ _), joinWith_append _ _ (List.cons_ne_nil _ _)]
    cases after <;> simp [joinWith]
  have without (part : Text) (h : part ∈ before ++ (last ++ first) :: after) : sep ∉ part := by
    have parts (part : Text) (h : part ∈ before ++ [last]) : sep ∉ part :=
      not_mem_of_mem_splitOn (hs ▸ h)
    have parts' (part : Text) (h : part ∈ first :: after) : sep ∉ part :=
      not_mem_of_mem_splitOn (ht ▸ h)
    rcases List.mem_append.mp h with h | h
    · exact parts part (List.mem_append_left _ h)
    · rcases List.mem_cons.mp h with rfl | h
      · rw [List.mem_append, not_or]
        exact ⟨parts last (by simp), parts' first List.mem_cons_self⟩
      · exact parts' part (.tail _ h)
  rw [whole, splitOn_joinWith without (by simp)]

end Text

namespace Path

/-- A path that is read off a text, so that no slash stands in its segments. -/
def IsSpelled (p : Path) : Prop := ofText p.text = p

instance (p : Path) : Decidable p.IsSpelled := inferInstanceAs (Decidable (_ = _))

theorem ofText_of_head? {t : Text} (h : t.head? ≠ some '/') :
    ofText t = ⟨false, t.splitOn '/'⟩ := by
  rw [ofText]
  rintro rest rfl
  exact h rfl

/-- A relative path that is read off a text has the segments of the text. -/
theorem IsSpelled.segments_eq {p : Path} (h : p.IsSpelled) (relative : p.absolute = false) :
    p.segments = p.text.splitOn '/' ∧ p.text.head? ≠ some '/' := by
  rw [IsSpelled] at h
  generalize p.text = t at h ⊢
  subst h
  have begins : t.head? ≠ some '/' := by
    intro slash
    obtain ⟨rest, rfl⟩ := List.head?_eq_some_iff.mp slash
    cases relative
  exact ⟨by rw [ofText_of_head? begins], begins⟩

/-- A path whose text begins with some names and a slash after each begins with them. -/
theorem IsSpelled.segments_of_text {p : Path} (h : p.IsSpelled) (relative : p.absolute = false)
    {names : List Text} (without : ∀ n ∈ names, '/' ∉ n) {rest : Text}
    (text : p.text = names.flatMap (· ++ ['/']) ++ rest) :
    p.segments = names ++ rest.splitOn '/' := by
  rw [(h.segments_eq relative).1, text, Text.splitOn_flatMap without]

end Path

end StyleTypings
