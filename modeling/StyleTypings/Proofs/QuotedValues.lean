/-
Quoted values — strings that variables are declared as.

A variable may be declared as a string, perhaps with a tilde before it.  Its value is the
string, and the string holds what stands between the quotes; but its text is what this
means without the quotes, so a content that reads as a variable is followed, and one that
reads as something to compute is computed.  The content comes out as it is exactly when it
is neither, or comes to itself (`quoted_iff`).

The one character that a string does not keep is NUL, which no token can show.
-/
import StyleTypings.Proofs.Arguments
import StyleTypings.Proofs.Css.Reading

namespace StyleTypings.Less

open Css

/-! ## Strings -/

/-- A text in quotes. -/
def inQuotes (q : Char) (content : Text) : Text := q :: (content ++ [q])

/-- A content that quotes can be put around as it is: there are no quotes, escapes, ends of
lines and interpolations in it. -/
structure Verbatim (t : Text) : Prop where
  unquoted : ∀ c ∈ t, Text.isQuote c = false
  unescaped : '\\' ∉ t
  oneLine : ∀ c ∈ t, isNewline c = false
  unopened : ¬ (['@', '\x7b'] : Text) <:+: t

/-- A string is read to its closing quote, with nothing in it changed but NUL. -/
theorem takeString_verbatim {q : Char} {t : Text} (quote : q ∉ t) (unescaped : '\\' ∉ t)
    (oneLine : ∀ c ∈ t, isNewline c = false) (after : Text) :
    takeString q 0 (t ++ q :: after) = (some (shown t), after) := by
  induction t with
  | nil => simp [takeString, shown]
  | cons c t ih =>
    rw [List.mem_cons, not_or] at quote unescaped
    obtain ⟨line, later⟩ := List.forall_mem_cons.mp oneLine
    rw [List.cons_append, takeString, if_neg (Ne.symm quote.1), line, if_neg Bool.false_ne_true,
      if_neg (Ne.symm unescaped.1), ih quote.2 unescaped.2 later]
    rfl

theorem Verbatim.isString {content : Text} (h : Verbatim content) {q : Char}
    (quote : Text.isQuote q = true) : IsString (inQuotes q content) (shown content) := by
  refine ⟨q, content ++ [q], quote, rfl, takeString_verbatim ?_ h.unescaped h.oneLine []⟩
  intro hq
  rw [h.unquoted q hq] at quote
  cases quote

theorem shown_eq_iff {t : Text} : shown t = t ↔ '\x00' ∉ t := by
  induction t with
  | nil => simp [shown]
  | cons c t ih =>
    have head : (if c = '\x00' then replacementChar else c) = c ↔ '\x00' ≠ c := by
      by_cases nul : c = '\x00'
      · rw [if_pos nul, nul]
        decide
      · rw [if_neg nul]
        exact iff_of_true rfl (Ne.symm nul)
    rw [shown, List.map_cons, List.cons.injEq, head, List.mem_cons, not_or]
    exact and_congr_right fun _ => ih

namespace Scope

/-! ## Contents -/

variable {ι : Type}

/-- A content comes to itself, with so many variables followed: also where it reads as a
variable, and where it reads as something to compute. -/
structure Keeps (s : Scope ι) (depth : Nat) (t : Text) : Prop where
  followed : ∀ other, variableName? t = some other → s.textWithin depth other = .ok t
  computed : variableName? t = none → ∀ e, Expression.read? t = some e → e.isLiteral = false →
    (e.evaluate (s.valueWithin depth) none).map Value.text = .ok t

theorem meaning_eq_self_iff {s : Scope ι} {depth : Nat} {t : Text}
    (h : ¬ (['@', '\x7b'] : Text) <:+: t) :
    meaning (s.textWithin depth) (s.valueWithin depth) t = .ok t ↔ s.Keeps depth t := by
  unfold meaning
  cases hname : variableName? t with
  | some other =>
    refine ⟨fun same => ⟨?_, ?_⟩, fun keeps => keeps.followed other hname⟩
    · rintro other' hother
      obtain rfl := Option.some.inj (hname.symm.trans hother)
      exact same
    · intro none
      rw [hname] at none
      cases none
  | none =>
    cases hread : Expression.read? t with
    | none =>
      refine iff_of_true (replaceNames_of_unopened h) ⟨?_, ?_⟩
      · simp [hname]
      · simp [hread]
    | some e =>
      cases literal : e.isLiteral with
      | true =>
        refine iff_of_true ?_ ⟨?_, ?_⟩
        · simpa [literal] using replaceNames_of_unopened h
        · simp [hname]
        · simp [hread, literal]
      | false =>
        refine ⟨fun same => ⟨?_, ?_⟩, fun keeps => ?_⟩
        · simp [hname]
        · intro _ e' hread' _
          obtain rfl := Option.some.inj (hread.symm.trans hread')
          simpa [literal] using same
        · simpa [literal] using keeps.computed hname e hread literal

/-! ## Variables -/

variable {s : Scope ι} {name written content : Text} {q : Char}

theorem bare_inQuotes (quote : Text.isQuote q = true)
    (h : written = inQuotes q content ∨ written = '~' :: inQuotes q content) :
    bare written = content := by
  obtain rfl | rfl := h
  · exact bare_quotes quote content
  · rw [bare_tilde]
    exact bare_quotes quote content

/-- The value of a variable that is declared as a string is the string.  Where no variable is
followed any more, it is the content as it is written. -/
theorem valueWithin_inQuotes (depth : Nat) (verbatim : Verbatim content)
    (quote : Text.isQuote q = true) (declared : s.rawValue? name = some (inQuotes q content)) :
    (s.valueWithin depth name).map Value.text =
      .ok (if depth = 0 then content else shown content) := by
  have hwritten : s.written name = .ok (inQuotes q content) := by rw [Scope.written, declared]
  cases depth with
  | zero =>
    rw [valueWithin, hwritten]
    exact congrArg Except.ok (bare_inQuotes quote (.inl rfl))
  | succ depth =>
    rw [valueWithin, hwritten]
    simp only [bind, Except.bind, (verbatim.isString quote).read?]
    rfl

/-- The text of a variable that is declared as a string, with a tilde or without, is the
content of the string exactly when the content comes to itself; and the text of its value is
the content, unless there is a NUL in it. -/
theorem quoted_iff (depth : Nat) (verbatim : Verbatim content) (quote : Text.isQuote q = true)
    (declared : s.rawValue? name = some written)
    (h : written = inQuotes q content ∨ written = '~' :: inQuotes q content) :
    (s.textWithin depth name = .ok content ↔ ∀ left, depth = left + 1 → s.Keeps left content) ∧
      (written = inQuotes q content →
        ((s.valueWithin depth name).map Value.text = .ok content ↔
          depth = 0 ∨ '\x00' ∉ content)) := by
  have hbare := bare_inQuotes quote h
  refine ⟨?_, ?_⟩
  · have hwritten : s.written name = .ok written := by rw [Scope.written, declared]
    cases depth with
    | zero =>
      refine iff_of_true ?_ fun left hleft => absurd hleft (Nat.succ_ne_zero left).symm
      rw [textWithin, hwritten]
      exact congrArg Except.ok hbare
    | succ depth =>
      have text : s.textWithin (depth + 1) name =
          meaning (s.textWithin depth) (s.valueWithin depth) content := by
        rw [textWithin, hwritten, ← hbare]
        rfl
      rw [text, meaning_eq_self_iff verbatim.unopened]
      simp
  · rintro rfl
    rw [valueWithin_inQuotes depth verbatim quote declared]
    cases depth with
    | zero => simp
    | succ depth => simp [shown_eq_iff]

/-! ### Contents that are followed and contents that are not -/

/-- A scope with `@v` declared as the string `"@b"`, `@w` as the string `"@ b"`, and `@b` as
`c`. -/
def quotedReferences : Scope Nat :=
  [[.variable "v" "\"@b\"", .variable "w" "\"@ b\"", .variable "b" "c"]]

/-- What only begins like a variable stays as it is. -/
theorem quoted_blankReference :
    quotedReferences.text "w" = .ok "@ b" ∧
      (quotedReferences.value "w").map Value.text = .ok "@ b" := by
  have unread : (Expression.read? "@ b").isNone = true := by decide +kernel
  have keeps : quotedReferences.Keeps 31 "@ b" := by
    refine ⟨by decide +kernel, ?_⟩
    intro _ e hread
    rw [hread] at unread
    cases unread
  have verbatim : Verbatim "@ b" :=
    ⟨Text.forall_eq_false (by decide), by decide, Text.forall_eq_false (by decide), by decide⟩
  have declared : quotedReferences.rawValue? "w" = some (inQuotes '"' "@ b") := rfl
  have both := quoted_iff maxDepth verbatim rfl declared (.inl rfl)
  refine ⟨both.1.mpr ?_, (both.2 rfl).mpr (.inr (by decide))⟩
  intro left hleft
  obtain rfl : 31 = left := Nat.succ.inj hleft
  exact keeps

/-- Not every string is its content as a text: `"@b"` is what `@b` is. -/
theorem not_forall_quoted :
    ¬ ∀ (s : Scope Nat) (name written content : Text) (q : Char),
      Verbatim content → '\x00' ∉ content → Text.isQuote q = true →
        s.rawValue? name = some written →
          written = inQuotes q content ∨ written = '~' :: inQuotes q content →
            s.text name = .ok content ∧
              (written = inQuotes q content → (s.value name).map Value.text = .ok content) := by
  intro h
  have verbatim : Verbatim "@b" :=
    ⟨Text.forall_eq_false (by decide), by decide, Text.forall_eq_false (by decide), by decide⟩
  have same := (h quotedReferences "v" _ "@b" '"' verbatim (by decide) rfl rfl (.inl rfl)).1
  exact absurd same (by decide +kernel)

end Scope

end StyleTypings.Less
