/-
Reading — what a JSON reader takes off a text.

Where a reader succeeds, the position that it keeps for messages does not matter, so a reader
is known by the value that it takes off a text and by the rest that it leaves (`Takes`).  What
is written for a value is read back in any place: behind white space, and before whatever
follows (`Reads`).

A string is read back character by character.  Each is written as itself, as a backslash with
a letter, or by its number (`quoteChar_cases`), and each of the three brings reading to the
next character with this one read (`readStringFrom_quoteChar`).
-/
import StyleTypings.Json.Values
import StyleTypings.Proofs.Css.Spelling
import Mathlib.Data.List.Induction

namespace StyleTypings.Json

namespace Reader

/-! ## Values and rests -/

/-- A reader takes a value off a text and leaves a rest, wherever the text stands. -/
def Takes {α : Type} (r : Reader α) (t : Text) (a : α) (rest : Text) : Prop :=
  ∀ p, ∃ p', r.run ⟨t, p⟩ = .ok (a, ⟨rest, p'⟩)

/-- A reader reads what is written for a value, behind white space and before anything. -/
def Reads {α : Type} (r : Reader α) (written : Text) (a : α) : Prop :=
  ∀ spaces after : Text, (∀ c ∈ spaces, Cursor.isSpace c = true) →
    Takes r (spaces ++ written ++ after) a after

section Takes

variable {α β : Type} {r : Reader α} {t rest : Text} {a : α}

theorem Takes.pure (a : α) (t : Text) : Takes (pure a) t a t := fun p => ⟨p, rfl⟩

theorem Takes.bind {f : α → Reader β} {b : β} {rest' : Text} (h : Takes r t a rest)
    (next : Takes (f a) rest b rest') : Takes (r >>= f) t b rest' := by
  intro p
  obtain ⟨p', first⟩ := h p
  obtain ⟨p'', second⟩ := next p'
  exact ⟨p'', by rw [StateT.run_bind, first]; exact second⟩

/-- A value is read where it stands. -/
theorem Reads.here {written : Text} (h : Reads r written a) (after : Text) :
    Takes r (written ++ after) a after := h [] after nofun

theorem Reads.map {written : Text} (h : Reads r written a) (f : α → β) :
    Reads (do return f (← r)) written (f a) :=
  fun spaces after white => .bind (h spaces after white) (.pure (f a) after)

theorem takes_skip (c : Char) (t : Text) : Takes skip (c :: t) () t := fun p => ⟨p.next c, rfl⟩

theorem takes_bound (t : Text) : Takes bound t (2 * t.length + 2) t := fun p => ⟨p, rfl⟩

/-! ## What holds of what is read -/

/-- Something holds of every value that a reader takes off any text. -/
def Ensures (r : Reader α) (P : α → Prop) : Prop := ∀ c a c', r.run c = .ok (a, c') → P a

section Ensures

variable {P : α → Prop} {Q : β → Prop}

theorem Ensures.any (r : Reader α) : Ensures r fun _ => True := fun _ _ _ _ => trivial

theorem Ensures.pure (h : P a) : Ensures (pure a) P := by
  intro c b c' run
  cases run
  exact h

theorem Ensures.bind {f : α → Reader β} (first : Ensures r P)
    (next : ∀ a, P a → Ensures (f a) Q) : Ensures (r >>= f) Q := by
  intro c b c'' run
  rw [StateT.run_bind] at run
  cases h : r.run c with
  | error e =>
    rw [h] at run
    cases run
  | ok x =>
    rw [h] at run
    exact next x.1 (first c x.1 x.2 h) x.2 b c'' run

theorem Ensures.failHere (f : Fault) : Ensures (failHere f) P := nofun

/-- A value of the wrong kind is not read. -/
theorem Ensures.mismatch (expected : Text) (c : Char) : Ensures (mismatch expected c) P := by
  have unfit (found : Text) : Ensures (unfit found expected) P := nofun
  rw [Reader.mismatch]
  split
  · exact (Ensures.any _).bind fun _ _ => unfit _
  split
  · exact (Ensures.any _).bind fun _ _ => unfit _
  split
  · exact (Ensures.any _).bind fun _ _ => unfit _
  split
  · exact (Ensures.any _).bind fun _ _ => (Ensures.any _).bind fun _ _ => unfit _
  split
  · exact (Ensures.any _).bind fun _ _ => unfit _
  split
  · exact (Ensures.any _).bind fun _ _ => unfit _
  split
  · exact unfit _
  split
  · exact unfit _
  · exact nofun

end Ensures

/-! ## White space -/

theorem rest_advance (n : ℕ) (c : Cursor) : (c.advance n).rest = c.rest.drop n := by
  induction n generalizing c with
  | zero => rfl
  | succ n ih =>
    obtain ⟨t, p⟩ := c
    cases t with
    | nil => rfl
    | cons d t => exact ih ⟨t, p.next d⟩

theorem rest_skipSpace (c : Cursor) :
    c.skipSpace.rest = c.rest.dropWhile Cursor.isSpace := by
  have split : c.rest = c.rest.takeWhile Cursor.isSpace ++ c.rest.dropWhile Cursor.isSpace :=
    List.takeWhile_append_dropWhile.symm
  rw [Cursor.skipSpace, rest_advance]
  exact (congrArg (List.drop _) split).trans List.drop_left

theorem takes_peek (t : Text) :
    Takes peek t (t.dropWhile Cursor.isSpace).head? (t.dropWhile Cursor.isSpace) := by
  intro p
  refine ⟨(Cursor.skipSpace ⟨t, p⟩).position, ?_⟩
  rw [← rest_skipSpace ⟨t, p⟩]
  rfl

/-- White space is passed before a character is looked at. -/
theorem takes_peek_cons {spaces : Text} (white : ∀ c ∈ spaces, Cursor.isSpace c = true) {c : Char}
    (black : Cursor.isSpace c = false) (t : Text) :
    Takes peek (spaces ++ c :: t) (some c) (c :: t) := by
  have peeked := takes_peek (spaces ++ c :: t)
  rwa [List.dropWhile_append_of_pos white, List.dropWhile_cons_of_neg (by simp [black])] at peeked

theorem takes_begin {spaces : Text} (white : ∀ c ∈ spaces, Cursor.isSpace c = true) {c : Char}
    (black : Cursor.isSpace c = false) (t : Text) :
    Takes begin (spaces ++ c :: t) c (c :: t) :=
  .bind (takes_peek_cons white black t) (.pure c _)

theorem takes_colon (t : Text) : Takes colon (':' :: t) () t :=
  .bind (takes_peek_cons (List.forall_mem_nil _) rfl t) (takes_skip ':' t)

theorem takes_endList (t : Text) : Takes endList (']' :: t) () t :=
  .bind (takes_peek_cons (List.forall_mem_nil _) rfl t) (takes_skip ']' t)

theorem takes_endObject (t : Text) : Takes endObject ('\x7d' :: t) () t :=
  .bind (takes_peek_cons (List.forall_mem_nil _) rfl t) (takes_skip '\x7d' t)

theorem takes_finish : Takes finish [] () [] := .bind (takes_peek []) (.pure () [])

end Takes

end Reader

/-! ## Strings -/

/-- A character between quotes is written as a backslash with a letter, by its number, or as
itself. -/
theorem quoteChar_cases (c : Char) :
    (∃ letter, quoteChar c = ['\\', letter] ∧ escaped? letter = some c) ∨
      (∃ digits, quoteChar c = '\\' :: 'u' :: digits ∧ digits.length = 4 ∧
        hexNumber? digits = some c.toNat ∧ c.toNat < 32) ∨
      (quoteChar c = [c] ∧ c ≠ '"' ∧ c ≠ '\\' ∧ 32 ≤ c.toNat) := by
  by_cases small : c.toNat < 32
  -- Of the control characters, some have a letter and the others have only their number.
  · have one := Css.forall_ascii (P := fun c => c.toNat < 32 →
        (quoteChar c = ['\\', (quoteChar c).getLastD c] ∧
            escaped? ((quoteChar c).getLastD c) = some c) ∨
          (quoteChar c = '\\' :: 'u' :: (quoteChar c).drop 2 ∧ ((quoteChar c).drop 2).length = 4 ∧
            hexNumber? ((quoteChar c).drop 2) = some c.toNat)) (by decide +kernel) (by omega) small
    rcases one with h | ⟨written, length, number⟩
    · exact .inl ⟨_, h⟩
    · exact .inr (.inl ⟨_, written, length, number, small⟩)
  by_cases quote : c = '"'
  · exact .inl ⟨'"', by rw [quoteChar, if_pos quote], by rw [quote]; rfl⟩
  by_cases backslash : c = '\\'
  · exact .inl ⟨'\\', by rw [quoteChar, if_neg quote, if_pos backslash], by rw [backslash]; rfl⟩
  have other {d : Char} (hd : d.toNat < 32) : c ≠ d := by
    rintro rfl
    exact small hd
  refine .inr (.inr ⟨?_, quote, backslash, by omega⟩)
  rw [quoteChar, if_neg quote, if_neg backslash, if_neg (other (by decide)),
    if_neg (other (by decide)), if_neg (other (by decide)), if_neg (other (by decide)),
    if_neg (other (by decide)), if_neg (by omega), if_neg small]

theorem length_le_utf8Size (t : Text) : t.length ≤ Text.utf8Size t := by
  induction t using List.reverseRecOn with
  | nil => exact Nat.le_refl 0
  | append_singleton t c ih =>
    have size : Text.utf8Size (t ++ [c]) = Text.utf8Size t + c.utf8Size := List.foldl_concat ..
    have := c.utf8Size_pos
    rw [size, List.length_append, List.length_singleton]
    omega

/-- Characters that an escape has taken are passed. -/
theorem readStringFrom_skip (content rest : Text) : ∀ (taken : Text) (p : Position),
    readStringFrom p taken.length content (taken ++ rest) =
      readStringFrom (p.after taken) 0 content rest
  | [], _ => rfl
  | c :: taken, p => readStringFrom_skip content rest taken (p.next c)

theorem readEscape_letter {letter c : Char} (h : escaped? letter = some c) (p : Position)
    (rest : Text) : readEscape p (letter :: rest) = .ok (c, 1) := by
  have other : letter ≠ 'u' := by
    rintro rfl
    cases h
  rw [readEscape, if_neg other, h]

theorem readEscape_number {digits : Text} {c : Char} (length : digits.length = 4)
    (number : hexNumber? digits = some c.toNat) (small : c.toNat < 32) (p : Position)
    (rest : Text) : readEscape p ('u' :: digits ++ rest) = .ok (c, 5) := by
  have long : ¬ Text.utf8Size (digits ++ rest) < 4 := by
    have := length_le_utf8Size (digits ++ rest)
    rw [List.length_append] at this
    omega
  have unit (p : Position) : readUnit p (digits ++ rest) = .ok c.toNat := by
    rw [readUnit, if_neg long, List.take_left' length, number]
  have whole : isTrailing c.toNat = false ∧ isLeading c.toNat = false := by
    simp only [isTrailing, isLeading, Bool.and_eq_false_iff, decide_eq_false_iff_not]
    omega
  rw [List.cons_append, readEscape, if_pos rfl, readNumbered, unit]
  simp [whole, bind, Except.bind, Except.map, Char.ofNat_toNat]

theorem readStringFrom_quoteChar (p : Position) (content rest : Text) (c : Char) :
    ∃ p', readStringFrom p 0 content (quoteChar c ++ rest) =
      readStringFrom p' 0 (c :: content) rest := by
  rcases quoteChar_cases c with ⟨letter, written, h⟩ | ⟨digits, written, length, number, small⟩ |
    ⟨written, quote, backslash, printed⟩
  · refine ⟨((p.next '\\').next letter), ?_⟩
    rw [written, List.cons_append, List.singleton_append, readStringFrom, if_neg (by decide),
      if_pos rfl, readEscape_letter h]
    rfl
  · refine ⟨(p.next '\\').after ('u' :: digits), ?_⟩
    rw [written, List.cons_append, readStringFrom, if_neg (by decide), if_pos rfl,
      readEscape_number length number small]
    have taken : ('u' :: digits).length = 5 := by rw [List.length_cons, length]
    show readStringFrom _ 5 _ _ = _
    rw [← taken, readStringFrom_skip]
  · refine ⟨p.next c, ?_⟩
    rw [written, List.singleton_append, readStringFrom, if_neg quote, if_neg backslash,
      if_neg (by omega)]

/-- What is written between quotes is read back. -/
theorem readStringFrom_quoted (t content rest : Text) (p : Position) :
    ∃ p', readStringFrom p 0 content (t.flatMap quoteChar ++ '"' :: rest) =
      .ok (content.reverse ++ t, ⟨rest, p'⟩) := by
  induction t generalizing content p with
  | nil => exact ⟨p.next '"', by simp [readStringFrom]⟩
  | cons c t ih =>
    obtain ⟨p', first⟩ := readStringFrom_quoteChar p content (t.flatMap quoteChar ++ '"' :: rest) c
    obtain ⟨p'', others⟩ := ih (c :: content) p'
    refine ⟨p'', ?_⟩
    rw [List.flatMap_cons, List.append_assoc, first, others, List.reverse_cons, List.append_assoc,
      List.singleton_append]

namespace Reader

theorem takes_string (t after : Text) : Takes string (quoted t ++ after) t after := by
  intro p
  obtain ⟨p', read⟩ := readStringFrom_quoted t [] after (p.next '"')
  refine ⟨p', ?_⟩
  have text : quoted t ++ after = '"' :: (t.flatMap quoteChar ++ '"' :: after) := by
    simp [quoted]
  rw [text]
  have started : Cursor.advance 1 ⟨'"' :: (t.flatMap quoteChar ++ '"' :: after), p⟩ =
      ⟨t.flatMap quoteChar ++ '"' :: after, p.next '"'⟩ := rfl
  simp [string, skip, started, read]

theorem reads_text (expected t : Text) : Reads (text expected) (quoted t) t := by
  intro spaces after white
  have begins : Takes begin (spaces ++ quoted t ++ after) '"' (quoted t ++ after) := by
    rw [List.append_assoc]
    exact takes_begin white rfl _
  exact .bind begins (takes_string t after)

end Reader

end StyleTypings.Json
