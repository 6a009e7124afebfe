/-
Reading — the tokens of a pattern, character by character.

At a character that is not yet passed, a token begins that takes this character and perhaps
some after it (`Begins`), or `**` gives the token for any number of directories; nothing else
leads on to tokens (`readFrom_cons`).  What begins at a character does not depend on what
stands far behind it, so the tokens of a part stay the same when more is written after it.

Characters that are no wildcards stand for themselves (`readFrom_front`).
-/
import StyleTypings.Proofs.Failures
import StyleTypings.Proofs.Files.Slashes
import StyleTypings.Proofs.Globs.Matching

namespace StyleTypings

theorem Text.breakAt?_append {sep : Char} {t before after : Text}
    (h : breakAt? sep t = some (before, after)) (rest : Text) :
    breakAt? sep (t ++ rest) = some (before, after ++ rest) := by
  induction t generalizing before with
  | nil => cases h
  | cons c t ih =>
    rw [breakAt?] at h
    rw [List.cons_append, breakAt?]
    split
    · rename_i hc
      rw [if_pos hc] at h
      cases h
      rfl
    · rename_i hc
      rw [if_neg hc] at h
      obtain ⟨⟨inside, after'⟩, hinside, heq⟩ := Option.map_eq_some_iff.mp h
      cases heq
      rw [ih hinside]
      rfl

namespace Glob

/-! ## Classes -/

/-- A class is read off the characters up to its closing bracket. -/
theorem readClass_append {t : Text} {token : Token} {taken : Nat}
    (h : readClass t = some (token, taken)) (rest : Text) :
    readClass (t ++ rest) = some (token, taken) ∧ taken ≤ t.length ∧
      token ≠ .anyDirectories := by
  have length {t before after : Text} (h : Text.breakAt? ']' t = some (before, after)) :
      before.length < t.length := by
    rw [Text.eq_of_breakAt? h]
    simp
  rw [readClass.eq_def] at h
  split at h
  · rename_i c inside
    obtain ⟨⟨content, after⟩, broken, heq⟩ := Option.map_eq_some_iff.mp h
    cases heq
    refine ⟨?_, ?_, nofun⟩
    · simp [readClass, Text.breakAt?_append broken]
    · have := length broken
      simp only [List.length_cons]
      omega
  · cases h
  · rename_i c inside two one
    have plain : c ≠ '!' := by
      rintro rfl
      cases inside with
      | nil => exact one rfl rfl
      | cons d rest => exact two d rest rfl rfl
    obtain ⟨⟨content, after⟩, broken, heq⟩ := Option.map_eq_some_iff.mp h
    cases heq
    refine ⟨?_, ?_, nofun⟩
    · rw [List.cons_append, readClass, Text.breakAt?_append broken]
      · rfl
      · exact fun _ _ h => absurd h plain
      · exact fun h => absurd h plain
    · have := length broken
      simp only [List.length_cons]
      omega
  · cases h

/-! ## Steps -/

/-- A token for characters begins at a character, and passes so many of those after it. -/
inductive Begins (c : Char) (after : Text) : Token → Nat → Prop where
  | anyChar (h : c = '?') : Begins c after .anyChar 0
  | anySequence (h : c = '*') (single : after.head? ≠ some '*') : Begins c after .anySequence 0
  | class (h : c = '[') {token : Token} {taken : Nat}
      (inside : readClass after = some (token, taken)) : Begins c after token taken
  | char (h : c ∉ ("?*[" : Text)) : Begins c after (.char c) 0

namespace Begins

variable {c : Char} {after : Text} {token : Token} {taken : Nat}

/-- It does so whatever is written behind, except that a second star would make another
token of a first one. -/
theorem append (h : Begins c after token taken) {rest : Text} (other : rest.head? ≠ some '*') :
    Begins c (after ++ rest) token taken := by
  cases h with
  | anyChar h => exact .anyChar h
  | anySequence h single =>
    refine .anySequence h ?_
    cases after with
    | nil => exact other
    | cons d after => exact single
  | «class» h inside => exact .class h (readClass_append inside rest).1
  | char h => exact .char h

theorem taken_le (h : Begins c after token taken) : taken ≤ after.length := by
  cases h with
  | «class» h inside => exact (readClass_append inside []).2.1
  | _ => exact Nat.zero_le _

theorem ne_anyDirectories (h : Begins c after token taken) : token ≠ .anyDirectories := by
  cases h with
  | «class» h inside => exact (readClass_append inside []).2.2
  | _ => nofun

/-- The token that begins is read. -/
theorem readFrom (h : Begins c after token taken) (position : Nat) (before : Option Char)
    (reversed : List Token) : readFrom position before 0 reversed (c :: after) =
      Glob.readFrom (position + 1) (some c) taken (token :: reversed) after := by
  cases h with
  | anyChar h =>
    subst h
    rfl
  | anySequence h single =>
    subst h
    have none : (after.takeWhile (· == '*')).length = 0 := by
      cases after with
      | nil => rfl
      | cons d after =>
        have other : (d == '*') = false := by simpa using single
        rw [List.takeWhile_cons, if_neg (by simp [other]), List.length_nil]
    simp [Glob.readFrom, none]
  | «class» h inside =>
    subst h
    simp [Glob.readFrom, inside]
  | char h =>
    have other : ¬ c = '?' ∧ ¬ c = '*' ∧ ¬ c = '[' := by simpa using h
    simp [Glob.readFrom, other]

end Begins

/-- `**` stands where it may, and passes so many characters after its first star. -/
inductive BeginsDirectories (before : Option Char) : Char → Text → Nat → Prop where
  | last (place : before = none ∨ before = some '/') : BeginsDirectories before '*' ['*'] 1
  | inside (place : before = none ∨ before = some '/') (rest : Text) :
      BeginsDirectories before '*' ('*' :: '/' :: rest) 2

theorem BeginsDirectories.readFrom {before : Option Char} {c : Char} {after : Text} {taken : Nat}
    (h : BeginsDirectories before c after taken) (position : Nat) (reversed : List Token) :
    Glob.readFrom position before 0 reversed (c :: after) =
      Glob.readFrom (position + 1) (some c) taken (addDirectories reversed) after := by
  cases h with
  | last place => rcases place with rfl | rfl <;> rfl
  | inside place rest => rcases place with rfl | rfl <;> rfl

theorem readDirectories_eq_ok {position : Nat} {before : Option Char} {after : Text} {taken : Nat}
    (h : readDirectories position before after = .ok taken) :
    (before = none ∨ before = some '/') ∧ (after = [] ∨ after.head? = some '/') := by
  have closed {after : Text} {taken : Nat}
      (h : readDirectories.closing position after = .ok taken) :
      after = [] ∨ after.head? = some '/' := by
    rw [readDirectories.closing.eq_def] at h
    split at h
    · exact .inl rfl
    · split at h
      · rename_i slash
        exact .inr (congrArg some slash)
      · cases h
  rw [readDirectories.eq_def] at h
  split at h
  · split at h
    · rename_i slash
      exact ⟨.inr (congrArg some slash), closed h⟩
    · cases h
  · exact ⟨.inl rfl, closed h⟩

/-- Two stars are `**`, and three are nothing. -/
theorem beginsDirectories_of_stars {position : Nat} {before : Option Char}
    {reversed ts : List Token} {after : Text}
    (h : readFrom position before 0 reversed ('*' :: '*' :: after) = .ok ts) :
    ∃ taken, BeginsDirectories before '*' ('*' :: after) taken := by
  rw [readFrom.eq_def] at h
  simp only [Char.reduceEq, if_false, if_true, List.takeWhile_cons, beq_self_eq_true,
    List.length_cons] at h
  split at h
  · omega
  · split at h
    · rename_i taken read
      obtain ⟨place, rfl | slash⟩ := readDirectories_eq_ok read
      · exact ⟨_, .last place⟩
      · obtain ⟨rest, same⟩ := List.head?_eq_some_iff.mp slash
        rw [List.drop_one, List.tail_cons] at same
        rw [same]
        exact ⟨_, .inside place rest⟩
    · cases h
  · cases h

/-- Where a text is read to the end, a token begins at each character that is not passed. -/
theorem readFrom_cons {position : Nat} {before : Option Char} {reversed ts : List Token} {c : Char}
    {after : Text} (h : readFrom position before 0 reversed (c :: after) = .ok ts) :
    (∃ token taken, Begins c after token taken) ∨
      ∃ taken, BeginsDirectories before c after taken := by
  by_cases star : c = '*'
  · subst star
    by_cases second : after.head? = some '*'
    · obtain ⟨rest, rfl⟩ := List.head?_eq_some_iff.mp second
      exact .inr (beginsDirectories_of_stars h)
    · exact .inl ⟨_, _, .anySequence rfl second⟩
  · refine .inl ?_
    by_cases bracket : c = '['
    · subst bracket
      cases inside : readClass after with
      | none => simp [readFrom, inside] at h
      | some found => exact ⟨_, _, .class rfl inside⟩
    by_cases mark : c = '?'
    · exact ⟨_, _, .anyChar mark⟩
    · exact ⟨_, _, .char (by simp [star, bracket, mark])⟩

/-! ## Beginnings -/

theorem exists_addDirectories (reversed : List Token) :
    ∃ new, addDirectories reversed = new ++ reversed := by
  rw [addDirectories]
  split
  · exact ⟨[], rfl⟩
  · exact ⟨[.anyDirectories], rfl⟩

/-- The tokens of a text begin with those that have been read. -/
theorem prefix_of_readFrom {position : Nat} {before : Option Char} {skip : Nat}
    {reversed ts : List Token} {t : Text}
    (h : readFrom position before skip reversed t = .ok ts) : reversed.reverse <+: ts := by
  induction t generalizing position before skip reversed with
  | nil =>
    obtain rfl := Except.ok.inj h
    exact List.prefix_rfl
  | cons c after ih =>
    cases skip with
    | succ skip => exact ih h
    | zero =>
      rcases readFrom_cons h with ⟨token, taken, begins⟩ | ⟨taken, begins⟩
      · rw [begins.readFrom] at h
        have extended := ih h
        rw [List.reverse_cons] at extended
        exact (List.prefix_append _ _).trans extended
      · rw [begins.readFrom] at h
        obtain ⟨new, added⟩ := exists_addDirectories reversed
        have extended := ih h
        rw [added, List.reverse_append] at extended
        exact (List.prefix_append _ _).trans extended

/-- Characters that are no wildcards stand for themselves at the beginning of a pattern. -/
theorem readFrom_front {front t : Text} (plain : ∀ c ∈ front, c ∉ ("?*[" : Text)) {position : Nat}
    {before : Option Char} {reversed ts : List Token}
    (h : readFrom position before 0 reversed (front ++ t) = .ok ts) :
    reversed.reverse ++ front.map .char <+: ts := by
  induction front generalizing position before reversed with
  | nil =>
    rw [List.map_nil, List.append_nil]
    exact prefix_of_readFrom h
  | cons c front ih =>
    obtain ⟨first, others⟩ := List.forall_mem_cons.mp plain
    rw [List.cons_append, (Begins.char first).readFrom] at h
    have extended := ih others h
    rwa [List.reverse_cons, List.append_assoc] at extended

theorem tokensOf_of_read {t : Text} {g : Glob} (h : read t = .ok g) :
    t = g.text ∧ tokensOf t = .ok g.tokens := by
  rw [read] at h
  obtain ⟨ts, hts, rfl⟩ := ok_of_map h
  exact ⟨rfl, hts⟩

/-- So what a pattern stands for begins with them. -/
theorem prefix_of_admitsText {front t : Text} (plain : ∀ c ∈ front, c ∉ ("?*[" : Text)) {g : Glob}
    (h : read (front ++ t) = .ok g) {u : Text} (admitted : g.admitsText u = true) :
    front <+: u := by
  obtain ⟨rest, tokens⟩ := readFrom_front plain (tokensOf_of_read h).2
  rw [admitsText, admits, beq_iff_eq, ← tokens] at admitted
  obtain ⟨v, rfl, _⟩ := eq_of_matches_map_char (matches_of_attempt admitted)
  exact List.prefix_append front v

end Glob

/-- A source pattern that is a glob is read off the text that it keeps. -/
theorem SourcePattern.glob_of_read {d : Disk} {t : Text} {g : Glob} (h : read d t = .ok (.glob g)) :
    Glob.read g.text = .ok g ∧ hasWildcard g.text = true := by
  rw [read] at h
  split at h
  · rename_i wild
    obtain ⟨found, hg, same⟩ := ok_of_map h
    cases same
    rw [← (Glob.tokensOf_of_read hg).1]
    exact ⟨hg, wild⟩
  · simp only [Except.ok.injEq] at h
    split at h <;> cases h

end StyleTypings
