/-
Addresses — a string as the argument of `url(...)`.

An address is copied up to the first closing parenthesis, with no regard to quotes.  So
`url("a//b")` is copied as it is, and `url("a)//b")` is not: the address ends behind the `a`, and
a comment begins in the middle of the string.  Where the reader has left the address, the quote
that should end the string begins one.  What saves the string is another `url(` in it, if that
one is still open at the quote (`EndsInAddress`).  These are the strings that are copied whatever
follows them (`strip_quotedUrl_iff`).
-/
import StyleTypings.Proofs.Comments.Runs
import StyleTypings.Proofs.QuotedValues

namespace StyleTypings.Less.Comment

/-- A text in double quotes as the argument of `url(...)`. -/
def quotedUrl (q : Text) : Text := "url(" ++ inQuotes '"' q ++ [')']

/-- The reader goes over a text inside an address or in plain text.  Every address that is closed
is followed by another one, no comment begins between them, and the last one is not closed. -/
inductive EndsInAddress : Mode → Char → Text → Prop where
  | nil {before : Char} : EndsInAddress .address before []
  | inside {before c : Char} {t : Text} (open' : c ≠ ')') (rest : EndsInAddress .address c t) :
    EndsInAddress .address before (c :: t)
  | closing {before : Char} {t : Text} (rest : EndsInAddress .plain ')' t) :
    EndsInAddress .address before (')' :: t)
  | opening {before c : Char} {t : Text} (starts : startsAddress before (c :: t) = true)
    (rest : EndsInAddress .address c t) : EndsInAddress .plain before (c :: t)
  | outside {before c : Char} {t : Text} (starts : startsAddress before (c :: t) = false)
    (slash : c = '/' → t.head? ≠ some '*' ∧ t.head? ≠ some '/') (rest : EndsInAddress .plain c t) :
    EndsInAddress .plain before (c :: t)

/-- What is never closed ends inside. -/
theorem endsInAddress_of_not_mem {q : Text} (h : ')' ∉ q) (before : Char) :
    EndsInAddress .address before q := by
  induction q generalizing before with
  | nil => exact .nil
  | cons c q ih =>
    rw [List.mem_cons, not_or] at h
    exact .inside (Ne.symm h.1) (ih h.2 c)

/-! ## Characters -/

/-- A character that is no quote and no backslash begins a comment, an address or nothing. -/
theorem afterPlain_of_unquoted {c : Char} (quote : Text.isQuote c = false) (backslash : c ≠ '\\')
    (line : Nat) (before : Char) (t : Text) :
    Mode.afterPlain line before c t =
      if c = '/' && t.head? == some '*' then .opening line
      else if c = '/' && t.head? == some '/' then .line
      else if startsAddress before (c :: t) then .address
      else .plain := by
  rw [Mode.afterPlain, quote, if_neg Bool.false_ne_true, if_neg backslash]

/-- A quote behind a text belongs to no mark that begins in it. -/
theorem afterPlain_append_quote (line : Nat) (before c : Char) (t r : Text) :
    Mode.afterPlain line before c (t ++ '"' :: r) = Mode.afterPlain line before c t := by
  have apart : ∀ d ∈ ('"' :: r).head?, d.toLower ≠ 'r' ∧ d.toLower ≠ 'l' ∧ d ≠ '(' := by
    rintro d ⟨⟩
    decide
  refine afterPlain_congr rfl (fun _ => ?_) fun _ => endsAddressMark_append_iff apart t
  cases t with
  | nil => simp
  | cons d t => exact ⟨.rfl, .rfl⟩

/-! ## Strings -/

section

variable {m : Mode} {before : Char} {q : Text} (quote : ∀ c ∈ q, Text.isQuote c = false)
  (unescaped : '\\' ∉ q)

include quote unescaped

/-- A text that ends in an address is kept as it is, up to a quote. -/
theorem EndsInAddress.exists_goes (h : EndsInAddress m before q) (line : Nat) (r : Text) :
    ∃ p, Goes ⟨m, line, before, q ++ '"' :: r⟩ q q p ∧ p.mode = .address := by
  induction h generalizing line with
  | nil => exact ⟨_, .stop _, rfl⟩
  | @inside before c t open' _ ih =>
    obtain ⟨-, later⟩ := List.forall_mem_cons.mp quote
    exact Goes.kept (if_neg open') rfl (ih later (List.not_mem_of_not_mem_cons unescaped))
  | @closing before t _ ih =>
    obtain ⟨-, later⟩ := List.forall_mem_cons.mp quote
    have next : Mode.after line before ')' (t ++ '"' :: r) .address = .plain := rfl
    exact Goes.kept next rfl (ih later (List.not_mem_of_not_mem_cons unescaped))
  | @opening before c t starts _ ih =>
    obtain ⟨unquoted, later⟩ := List.forall_mem_cons.mp quote
    have backslash : c ≠ '\\' := Ne.symm (List.ne_of_not_mem_cons unescaped)
    have slash : c ≠ '/' := by
      rintro rfl
      rw [startsAddress_cons] at starts
      simp at starts
    have next : Mode.afterPlain line before c (t ++ '"' :: r) = .address := by
      rw [afterPlain_append_quote, afterPlain_of_unquoted unquoted backslash, starts]
      simp [slash]
    exact Goes.kept next rfl (ih later (List.not_mem_of_not_mem_cons unescaped))
  | @outside before c t starts slash _ ih =>
    obtain ⟨unquoted, later⟩ := List.forall_mem_cons.mp quote
    have backslash : c ≠ '\\' := Ne.symm (List.ne_of_not_mem_cons unescaped)
    have next : Mode.afterPlain line before c (t ++ '"' :: r) = .plain := by
      rw [afterPlain_append_quote, afterPlain_of_unquoted unquoted backslash, starts]
      by_cases hc : c = '/'
      · simp [slash hc]
      · simp [hc]
    exact Goes.kept next rfl (ih later (List.not_mem_of_not_mem_cons unescaped))

/-- Only such a text is kept with the quote and the parenthesis behind it. -/
theorem endsInAddress_of_stripFrom (copies : m = .plain ∨ m = .address) {line : Nat}
    (h : stripFrom m line before (q ++ ['"', ')']) = .ok (q ++ ['"', ')'])) :
    EndsInAddress m before q := by
  induction q generalizing m line before with
  | nil =>
    rcases copies with rfl | rfl
    · cases h
    · exact .nil
  | cons c q ih =>
    obtain ⟨unquoted, later⟩ := List.forall_mem_cons.mp quote
    have unescaped' := List.not_mem_of_not_mem_cons unescaped
    rw [List.cons_append] at h
    obtain ⟨line', v, rest, whole⟩ := stripFrom_cons_eq_ok h
    rcases copies with rfl | rfl
    · have backslash : c ≠ '\\' := Ne.symm (List.ne_of_not_mem_cons unescaped)
      rw [Mode.after, afterPlain_append_quote, afterPlain_of_unquoted unquoted backslash]
        at rest whole
      -- A comment would leave something else in the place of its slash.
      have kept (removes : Mode) (hm : removes.Removes) (slash : c = '/')
          (rest : stripFrom removes line' c (q ++ ['"', ')']) = .ok (c :: (q ++ ['"', ')']))) :
          False := by
        rcases head?_of_removes hm rest with h | h <;> cases slash.symm.trans h
      split_ifs at rest whole with star slash address
      · rw [Bool.and_eq_true, decide_eq_true_eq] at star
        obtain rfl : c :: (q ++ ['"', ')']) = v := whole
        exact (kept (.opening line) trivial star.1 rest).elim
      · rw [Bool.and_eq_true, decide_eq_true_eq] at slash
        obtain rfl : c :: (q ++ ['"', ')']) = v := whole
        exact (kept .line trivial slash.1 rest).elim
      · obtain rfl := (List.cons.inj whole).2
        exact .opening address (ih later unescaped' (.inr rfl) rest)
      · obtain rfl := (List.cons.inj whole).2
        refine .outside (by simpa using address) ?_ (ih later unescaped' (.inl rfl) rest)
        rintro rfl
        exact ⟨by simpa using star, by simpa using slash⟩
    · obtain rfl := (List.cons.inj whole).2
      rw [Mode.after] at rest
      by_cases closing : c = ')'
      · rw [if_pos closing] at rest
        subst closing
        exact .closing (ih later unescaped' (.inl rfl) rest)
      · rw [if_neg closing] at rest
        exact .inside closing (ih later unescaped' (.inr rfl) rest)

end

/-! ## The address -/

/-- The reader gets into the string through the address. -/
theorem strip_quotedUrl (q r : Text) : strip (quotedUrl q ++ r) =
    (stripFrom .address 1 '"' (q ++ '"' :: ')' :: r)).map (['u', 'r', 'l', '(', '"'] ++ ·) := by
  have whole : quotedUrl q ++ r = 'u' :: 'r' :: 'l' :: '(' :: '"' :: (q ++ '"' :: ')' :: r) := by
    simp [quotedUrl, inQuotes]
  rw [strip, whole]
  iterate 5 rw [stripFrom]
  show (((((stripFrom .address 1 '"' (q ++ '"' :: ')' :: r)).map _).map _).map _).map _).map _ = _
  cases stripFrom .address 1 '"' (q ++ '"' :: ')' :: r) <;> rfl

/-- Behind a string that ends in an address, the parenthesis ends the address. -/
theorem EndsInAddress.strip_eq {q : Text} (quote : ∀ c ∈ q, Text.isQuote c = false)
    (unescaped : '\\' ∉ q) (h : EndsInAddress .address '"' q) (r : Text) :
    ∃ line, strip (quotedUrl q ++ r) = (stripFrom .plain line ')' r).map (quotedUrl q ++ ·) := by
  obtain ⟨⟨m, line, before, rest⟩, goes, inside⟩ := h.exists_goes quote unescaped 1 (')' :: r)
  obtain rfl : m = .address := inside
  obtain rfl : '"' :: ')' :: r = rest := List.append_cancel_left goes.rest_eq
  have ends : stripFrom .address line before ('"' :: ')' :: r) =
      (stripFrom .plain line ')' r).map ('"' :: ')' :: ·) := by
    rw [stripFrom, stripFrom]
    show ((stripFrom .plain line ')' r).map _).map _ = _
    cases stripFrom .plain line ')' r <;> rfl
  have string : stripFrom .address 1 '"' (q ++ '"' :: ')' :: r) =
      (stripFrom .address line before ('"' :: ')' :: r)).map (q ++ ·) := goes.strip_eq
  refine ⟨line, ?_⟩
  rw [strip_quotedUrl, string, ends]
  cases stripFrom .plain line ')' r <;> simp [Except.map, quotedUrl, inQuotes]

/-- A string without quotes and backslashes is copied as the argument of an address, whatever
follows, exactly when the reader is inside an address at its end. -/
theorem strip_quotedUrl_iff {q : Text} (quote : ∀ c ∈ q, Text.isQuote c = false)
    (unescaped : '\\' ∉ q) :
    (∀ r u, strip (quotedUrl q ++ r) = .ok u ↔ ∃ v, strip r = .ok v ∧ u = quotedUrl q ++ v) ↔
      EndsInAddress .address '"' q := by
  constructor
  · intro copied
    have alone : strip (quotedUrl q ++ []) = .ok (quotedUrl q) :=
      (copied [] (quotedUrl q)).mpr ⟨[], rfl, (List.append_nil _).symm⟩
    rw [strip_quotedUrl] at alone
    obtain ⟨w, left, whole⟩ := ok_of_map alone
    obtain rfl : q ++ ['"', ')'] = w := by
      simpa [quotedUrl, inQuotes] using whole
    exact endsInAddress_of_stripFrom quote unescaped (.inr rfl) left
  · intro ends r u
    obtain ⟨line, whole⟩ := ends.strip_eq quote unescaped r
    have ident : isIdentChar ')' = isIdentChar ' ' := by decide
    rw [whole, stripFrom_plain_congr ident]
    constructor
    · intro h
      obtain ⟨v, left, rfl⟩ := ok_of_map h
      exact ⟨v, stripFrom_of_alike (.same _) 1 left, rfl⟩
    · rintro ⟨v, left, rfl⟩
      rw [stripFrom_of_alike (.same _) line left]
      rfl

/-- Comment marks in an address are copied, also where the address is the second in the string,
and so is what follows. -/
theorem strip_quotedUrl_twice :
    (∀ c ∈ ("/*a) url(//b" : Text), Text.isQuote c = false) ∧ '\\' ∉ ("/*a) url(//b" : Text) ∧
      EndsInAddress .address '"' "/*a) url(//b" ∧
      strip (quotedUrl "/*a) url(//b" ++ "c//d") = .ok (quotedUrl "/*a) url(//b" ++ "c") := by
  have quote : ∀ c ∈ ("/*a) url(//b" : Text), Text.isQuote c = false :=
    Text.forall_eq_false (by decide)
  have unescaped : '\\' ∉ ("/*a) url(//b" : Text) := by decide
  have second : EndsInAddress .address 'u' "rl(//b" := endsInAddress_of_not_mem (by decide) 'u'
  have ends : EndsInAddress .address '"' "/*a) url(//b" :=
    .inside (by decide) (.inside (by decide) (.inside (by decide)
      (.closing (.outside (by decide) (by decide) (.opening (by decide) second)))))
  refine ⟨quote, unescaped, ends, ?_⟩
  exact ((strip_quotedUrl_iff quote unescaped).mpr ends "c//d" _).mpr ⟨"c", rfl, rfl⟩

/-- A parenthesis in the string ends the address, and the quote behind it begins a string. -/
theorem not_forall_strip_quotedUrl :
    ¬ ∀ q r u : Text, (∀ c ∈ q, Text.isQuote c = false) → '\\' ∉ q →
      (∀ c ∈ q, Css.isNewline c = false) →
        (strip (quotedUrl q ++ r) = .ok u ↔ ∃ v, strip r = .ok v ∧ u = quotedUrl q ++ v) := by
  intro h
  have copied := (h ")" [] (quotedUrl ")") (Text.forall_eq_false (by decide)) (by decide)
    (Text.forall_eq_false (by decide))).mpr ⟨[], rfl, rfl⟩
  cases copied

end StyleTypings.Less.Comment
