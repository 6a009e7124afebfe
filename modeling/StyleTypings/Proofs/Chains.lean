/-
Chains — variables declared as variables.

A variable that is declared as another is followed, and so is that one, through 32 of them
and no further.  So a chain that ends in a keyword comes to the keyword if it has at most 32
links, and else to the declaration that is reached then, as it is written (`text_chain`).

A variable is followed in one of two ways: its name as such, if it is made of letters,
digits, hyphens and underscores, or as an expression, if CSS takes it for a name.  Each
costs one step, so a chain may change from one way to the other at any link
(`Chain.within`).  The ways differ in what they make of escapes: a keyword that a name leads
to stays as it is written, and one that an expression comes to is decoded (`Given`).
-/
import StyleTypings.Proofs.Css.Brackets
import StyleTypings.Proofs.Css.Readers
import StyleTypings.Proofs.Css.Steps
import StyleTypings.Proofs.Naming
import StyleTypings.Proofs.Variables
import Mathlib.Data.List.TakeWhile

namespace StyleTypings.Less

open Css

/-! ## Keywords -/

/-- A text that is an identifier of CSS from its beginning to its end, with the name that it
stands for when its escapes are decoded. -/
structure Keyword (t name : Text) : Prop where
  begins : startsName t = true
  whole : takeName 0 t = (name, [])
  trimmed : Text.trim t = t

/-- An escape is a single character, or a code and a blank. -/
theorem escape_cases (r : Text) :
    (∃ c s, r = c :: s ∧ (escape r).2 = 1) ∨ '@' ∉ r.take (escape r).2 := by
  cases r with
  | nil => exact .inr List.not_mem_nil
  | cons c s =>
    rw [escape]
    split
    · refine .inr ?_
      have front : ((c :: s).take 6).takeWhile isHexDigit <+: c :: s :=
        (List.takeWhile_prefix _).trans (List.take_prefix _ _)
      rw [List.take_add, List.prefix_iff_eq_take.mp front |>.symm, List.mem_append, not_or]
      refine ⟨fun code => ?_, fun blank => ?_⟩
      · exact absurd (List.mem_takeWhile_imp code) (by decide)
      · exact absurd (mem_take_blankLength _ blank) (by decide)
    · refine .inl ⟨c, s, rfl, ?_⟩
      split <;> rfl

/-- Behind an escape a name does not go on with a brace, so an escaped `@` opens no
interpolation. -/
theorem unopened_escape {r : Text} (whole : (takeName 0 (r.drop (escape r).2)).2 = [])
    (later : ¬ (['@', '\x7b'] : Text) <:+: r.drop (escape r).2) :
    ¬ (['@', '\x7b'] : Text) <:+: r := by
  obtain ⟨c, s, rfl, one⟩ | unsigned := escape_cases r
  · rw [one, List.drop_succ_cons, List.drop_zero] at whole later
    intro opened
    rcases List.infix_cons_iff.mp opened with begins | opened
    · obtain ⟨after, rfl⟩ := (List.cons_prefix_cons.mp begins).2
      exact absurd whole (List.cons_ne_nil _ _)
    · exact later opened
  · have := unopened_append unsigned later
    rwa [List.take_append_drop] at this

/-- Nothing in a name opens an interpolation. -/
theorem unopened_of_takeName {t : Text} (whole : (takeName 0 t).2 = []) :
    ¬ (['@', '\x7b'] : Text) <:+: t := by
  -- By the length of the text: an escape is passed as a whole.
  induction hn : t.length using Nat.strong_induction_on generalizing t with
  | _ n ih =>
    subst hn
    cases t with
    | nil => decide
    | cons c rest =>
      by_cases part : isNamePart c = true
      · rw [takeName_part part] at whole
        refine unopened_append (s := [c]) ?_ (ih rest.length (Nat.lt_succ_self _) whole rfl)
        rw [List.mem_singleton]
        rintro rfl
        exact absurd part (by decide)
      by_cases escaped : c = '\\'
      · subst escaped
        cases line : atNewline rest with
        | true =>
          rw [takeName, if_pos rfl, line, if_pos rfl] at whole
          cases whole
        | false =>
          rw [takeName_escape line] at whole
          have shorter := Nat.lt_succ_of_le (List.drop_suffix (escape rest).2 rest).length_le
          exact unopened_append (s := ['\\']) (by decide)
            (unopened_escape whole (ih _ shorter whole rfl))
      · rw [takeName_of_endsName (.cons ⟨Bool.eq_false_iff.mpr part, escaped⟩ rest)] at whole
        cases whole

namespace Keyword

variable {t name : Text}

/-- A keyword does not begin with a character that begins no name. -/
theorem exists_cons (h : Keyword t name) : ∃ c rest, t = c :: rest ∧
    ∀ d, startsName (d :: rest) = false → c ≠ d := by
  obtain ⟨c, rest, rfl⟩ := List.exists_cons_of_ne_nil (l := t) (by
    rintro rfl
    exact absurd h.begins (by decide))
  refine ⟨c, rest, rfl, ?_⟩
  rintro d hd rfl
  rw [h.begins] at hd
  cases hd

theorem tokens_eq (h : Keyword t name) : tokens t = [.ident name] := by
  obtain ⟨c, rest, rfl, -⟩ := h.exists_cons
  have first : takeToken c rest = (some (.ident name), []) := by
    rw [takeToken_of_startsName h.begins, takeIdentLike, h.whole]
    rintro rfl after rfl
    exact absurd (congrArg Prod.snd h.whole) (List.cons_ne_nil _ _)
  rw [tokens_cons, first]
  rfl

/-- Read as an expression, a keyword is its name. -/
theorem read?_eq (h : Keyword t name) : Expression.read? t = some (.value (.keyword name)) := by
  have lexemes : Lexeme.read? t = some [.keyword name] := by
    rw [Lexeme.read?, components, h.tokens_eq]
    rfl
  rw [Expression.read?, lexemes]
  rfl

/-- A keyword means itself, as it is written. -/
theorem meaning_eq (h : Keyword t name) (resolve : Text → Except CompileError Text)
    (lookup : Text → Except CompileError Value) : Scope.meaning resolve lookup t = .ok t := by
  have unsigned : variableName? t = none := by
    obtain ⟨c, rest, rfl, begins⟩ := h.exists_cons
    unfold variableName?
    split
    · rename_i heq
      exact absurd (List.cons.inj heq).1 (begins '@' rfl)
    · rfl
  rw [Scope.meaning, unsigned, h.read?_eq]
  exact Scope.replaceNames_of_unopened (unopened_of_takeName (congrArg Prod.snd h.whole))

end Keyword

/-! ## Names behind an `@` -/

/-- A text that is a name of CSS as it is written, without escapes and blanks. -/
structure PlainName (t : Text) : Prop where
  begins : startsName t = true
  part : ∀ c ∈ t, isNamePart c = true
  real : '\x00' ∉ t
  solid : ∀ c ∈ t, isBlank c = false

namespace PlainName

variable {t : Text}

theorem ne_nil (h : PlainName t) : t ≠ [] := by
  rintro rfl
  exact absurd h.begins (by decide)

theorem not_mem (h : PlainName t) {c : Char} (hc : isNamePart c = false) : c ∉ t := by
  intro hmem
  rw [h.part c hmem] at hc
  cases hc

theorem spells (h : PlainName t) : Spells t t := by
  have part := h.part
  have real := h.real
  clear h
  induction t with
  | nil => exact .nil
  | cons c t ih =>
    rw [List.mem_cons, not_or] at real
    obtain ⟨hc, later⟩ := List.forall_mem_cons.mp part
    exact .plain hc (Ne.symm real.1) (ih later real.2)

/-- Behind an `@` it is a variable. -/
theorem read?_variable (h : PlainName t) : Expression.read? ('@' :: t) = some (.variable t) := by
  have token : takeToken '@' t = (some (.atKeyword t), []) := by
    have named : takeAtKeyword t = (.atKeyword t, []) := by
      rw [takeAtKeyword, if_pos h.begins, takeName_of_spells h.spells]
    show (some (takeAtKeyword t).1, (takeAtKeyword t).2) = _
    rw [named]
  have lexemes : Lexeme.read? ('@' :: t) = some [.variable t] := by
    rw [Lexeme.read?, components, tokens_cons, token]
    rfl
  rw [Expression.read?, lexemes]
  rfl

end PlainName

/-- Behind an `@` that no name follows there is nothing to compute. -/
theorem read?_sign {t : Text} (h : startsName t = false) : Expression.read? ('@' :: t) = none := by
  have token : takeToken '@' t = (some (.delim '@'), t) := by
    have alone : takeAtKeyword t = (.delim '@', t) := by
      rw [takeAtKeyword, if_neg (Bool.eq_false_iff.mp h)]
    show (some (takeAtKeyword t).1, (takeAtKeyword t).2) = _
    rw [alone]
  have listed : components ('@' :: t) = .token (.delim '@') :: components t := by
    have plain : Token.Plain (.delim '@') := ⟨rfl, fun o => by cases o <;> rfl⟩
    rw [components, components, tokens_cons, token]
    exact componentsOf_cons plain _
  have lexemes : Lexeme.read? ('@' :: t) = none := by
    rw [Lexeme.read?, listed]
    rfl
  rw [Expression.read?, lexemes]
  rfl

/-! ## Names that are followed -/

/-- A name behind an `@` that is followed to its declaration. -/
inductive Followed (name : Text) : Prop where
  | ident (ne : name ≠ []) (h : ∀ c ∈ name, isIdentChar c = true)
  | plain (h : PlainName name)

theorem isNamePart_of_isIdentChar {c : Char} (h : isIdentChar c = true) : isNamePart c = true := by
  by_cases ascii : c.toNat < 128
  · exact forall_ascii (P := fun c => isIdentChar c = true → isNamePart c = true)
      (by decide +kernel) ascii h
  · simp [isNamePart, isNameStart, Nat.le_of_not_lt ascii]

namespace Followed

variable {name : Text}

theorem solid (h : Followed name) : ∀ c ∈ name, isBlank c = false := by
  cases h with
  | ident _ h => exact fun c hc => isBlank_of_isIdentChar (h c hc)
  | plain h => exact h.solid

/-- If CSS takes it for a name, it is one as it is written. -/
theorem plainName (h : Followed name) (begins : startsName name = true) : PlainName name := by
  cases h with
  | ident _ ident =>
    refine ⟨begins, fun c hc => isNamePart_of_isIdentChar (ident c hc), ?_, fun c hc =>
      isBlank_of_isIdentChar (ident c hc)⟩
    intro nul
    exact absurd (ident _ nul) (by decide +kernel)
  | plain h => exact h

theorem not_brace (h : Followed name) : '\x7d' ∉ name := by
  cases h with
  | ident _ h =>
    intro hbrace
    exact absurd (h _ hbrace) (by decide +kernel)
  | plain h => exact h.not_mem (by decide)

end Followed

namespace Scope

/-- A text that is trimmed and begins with neither a tilde nor a quote is bare. -/
theorem bare_of_trimmed {c : Char} {t : Text} (trimmed : Text.trim (c :: t) = c :: t)
    (tilde : c ≠ '~') (quote : Text.isQuote c = false) : bare (c :: t) = c :: t := by
  have untilded : (c :: t).dropWhile (· == '~') = c :: t :=
    List.dropWhile_cons_of_neg (by simpa using tilde)
  rw [bare, untilded, trimmed, Text.unquote, quote, Bool.false_and, if_neg Bool.false_ne_true]

/-- Without blanks there is nothing to trim. -/
theorem trim_of_solid {t : Text} (solid : ∀ d ∈ t, isBlank d = false) : Text.trim t = t := by
  have kept {t : Text} (solid : ∀ d ∈ t, isBlank d = false) : t.dropWhile isBlank = t := by
    rw [List.dropWhile_eq_self_iff]
    intro hlength
    rw [solid _ (List.getElem_mem hlength)]
    exact Bool.false_ne_true
  rw [Text.trim, Text.trimLeft, kept solid, Text.trimRight,
    kept fun d hd => solid d (List.mem_reverse.mp hd), List.reverse_reverse]

theorem bare_keyword {k name : Text} (h : Keyword k name) : bare k = k := by
  obtain ⟨c, rest, rfl, begins⟩ := h.exists_cons
  refine bare_of_trimmed h.trimmed (begins '~' rfl) ?_
  rw [Text.isQuote, beq_eq_false_iff_ne.mpr (begins '"' rfl),
    beq_eq_false_iff_ne.mpr (begins '\'' rfl)]
  rfl

variable {ι : Type} {s : Scope ι} {n : Nat} {v : Nat → Text} {k name : Text}

/-! ## Chains -/

/-- Variables of which each but the last is declared as the next, and the last as a keyword
with a name.  No variable can come twice among them, for then there would be no last. -/
structure Chain (s : Scope ι) (n : Nat) (v : Nat → Text) (k name : Text) : Prop where
  followed : ∀ i ≤ n, Followed (v i)
  links : ∀ i < n, s.rawValue? (v i) = some ('@' :: v (i + 1))
  last : s.rawValue? (v n) = some k
  keyword : Keyword k name

/-- What a chain gives for the keyword at its end: the keyword as it is written or, if the
name of a variable on the way is one to expressions alone, the keyword with its escapes
decoded. -/
inductive Given (n : Nat) (v : Nat → Text) (k name : Text) : Text → Prop where
  | written : Given n v k name k
  | named {i : Nat} (le : i ≤ n) (h : ¬ ∀ c ∈ v i, isIdentChar c = true) : Given n v k name name

theorem Given.eq_or_eq {t : Text} (h : Given n v k name t) : t = k ∨ t = name := by
  cases h with
  | written => exact .inl rfl
  | named => exact .inr rfl

/-- What a chain comes to after so many steps from a place: what is given for the keyword, if
it is as near as that, or the declaration that is reached. -/
def reached (n : Nat) (v : Nat → Text) (t : Text) (place steps : Nat) : Text :=
  if n ≤ place + steps then t else '@' :: v (place + steps + 1)

theorem reached_succ {t : Text} (place steps : Nat) :
    reached n v t (place + 1) steps = reached n v t place (steps + 1) := by
  rw [reached, reached, Nat.add_right_comm, Nat.add_assoc place steps 1]

namespace Chain

theorem written_link (h : Chain s n v k name) {i : Nat} (hi : i < n) :
    s.written (v i) = .ok ('@' :: v (i + 1)) := by
  rw [written, h.links i hi]

theorem written_last (h : Chain s n v k name) : s.written (v n) = .ok k := by
  rw [written, h.last]

theorem bare_link (h : Chain s n v k name) {i : Nat} (hi : i < n) :
    bare ('@' :: v (i + 1)) = '@' :: v (i + 1) :=
  bare_of_trimmed
    (trim_of_solid (List.forall_mem_cons.mpr ⟨rfl, (h.followed (i + 1) hi).solid⟩))
    (by decide) rfl

/-- Read as an expression, a link is the variable that it leads to. -/
theorem read?_link (h : Chain s n v k name) {i : Nat} (hi : i < n) {e : Expression}
    (hread : Expression.read? ('@' :: v (i + 1)) = some e) : e = .variable (v (i + 1)) := by
  have begins : startsName (v (i + 1)) = true := by
    by_contra none
    rw [read?_sign (Bool.eq_false_iff.mpr none)] at hread
    cases hread
  rw [((h.followed (i + 1) hi).plainName begins).read?_variable] at hread
  exact (Option.some.inj hread).symm

/-- A link means the text of the variable that it leads to, if this is followed as a name, and
else the text of its value. -/
theorem meaning_link (h : Chain s n v k name) {i : Nat} (hi : i < n)
    {resolve : Text → Except CompileError Text} {lookup : Text → Except CompileError Value}
    {t u : Text} (text : resolve (v (i + 1)) = .ok t)
    (value : lookup (v (i + 1)) = .ok (.keyword u)) :
    meaning resolve lookup ('@' :: v (i + 1)) = .ok t ∨
      meaning resolve lookup ('@' :: v (i + 1)) = .ok u ∧
        ¬ ∀ c ∈ v (i + 1), isIdentChar c = true := by
  unfold meaning
  split
  · rename_i name hname
    obtain ⟨same, _⟩ := variableName?_eq_some_iff.mp hname
    cases same
    exact .inl text
  · rename_i none
    cases h.followed (i + 1) hi with
    | ident ne ident =>
      rw [variableName?_eq_some_iff.mpr ⟨rfl, ne, ident⟩] at none
      cases none
    | plain plain =>
      refine .inr ⟨?_, fun ident => ?_⟩
      · rw [plain.read?_variable]
        show (lookup (v (i + 1))).map Value.text = _
        rw [value]
        rfl
      · rw [variableName?_eq_some_iff.mpr ⟨rfl, plain.ne_nil, ident⟩] at none
        cases none

/-- After some steps from any of its places, a chain is where that many links lead, whether
the names are followed as names or as expressions.  Only what is given for the keyword may
differ between its text and its value. -/
theorem within (h : Chain s n v k name) (steps : Nat) : ∀ place ≤ n,
    ∃ t u, Given n v k name t ∧ (u = k ∨ u = name) ∧
      s.textWithin steps (v place) = .ok (reached n v t place steps) ∧
      s.valueWithin steps (v place) = .ok (.keyword (reached n v u place steps)) := by
  induction steps with
  | zero =>
    intro place hplace
    refine ⟨k, k, .written, .inl rfl, ?_⟩
    rw [textWithin, valueWithin, reached]
    rcases Nat.lt_or_eq_of_le hplace with hlt | rfl
    · rw [h.written_link hlt, if_neg (by omega)]
      exact ⟨congrArg Except.ok (h.bare_link hlt),
        congrArg (fun t => Except.ok (Value.keyword t)) (h.bare_link hlt)⟩
    · rw [h.written_last, if_pos (Nat.le_add_right _ _)]
      exact ⟨congrArg Except.ok (bare_keyword h.keyword),
        congrArg (fun t => Except.ok (Value.keyword t)) (bare_keyword h.keyword)⟩
  | succ steps ih =>
    intro place hplace
    rw [textWithin, valueWithin]
    rcases Nat.lt_or_eq_of_le hplace with hlt | rfl
    · obtain ⟨t, u, given, either, text, value⟩ := ih (place + 1) hlt
      have step := h.meaning_link hlt text value
      simp only [reached_succ] at text value step
      obtain ⟨w, given', meant⟩ : ∃ w, Given n v k name w ∧
          meaning (s.textWithin steps) (s.valueWithin steps) ('@' :: v (place + 1)) =
            .ok (reached n v w place (steps + 1)) := by
        rcases step with meant | ⟨meant, unnamed⟩
        · exact ⟨t, given, meant⟩
        · rcases either with rfl | rfl
          · exact ⟨_, .written, meant⟩
          · exact ⟨_, .named hlt unnamed, meant⟩
      rw [h.written_link hlt]
      simp only [bind, Except.bind]
      rw [h.bare_link hlt, meant]
      cases hread : Expression.read? ('@' :: v (place + 1)) with
      | none => exact ⟨w, w, given', given'.eq_or_eq, rfl, rfl⟩
      | some e =>
        rw [h.read?_link hlt hread]
        exact ⟨w, u, given', either, rfl, value⟩
    · refine ⟨k, name, .written, .inr rfl, ?_⟩
      rw [h.written_last, reached, reached, if_pos (Nat.le_add_right _ _),
        if_pos (Nat.le_add_right _ _)]
      simp only [bind, Except.bind]
      rw [bare_keyword h.keyword, h.keyword.meaning_eq, h.keyword.read?_eq]
      exact ⟨rfl, rfl⟩

end Chain

/-- The text of the first variable of a chain, and what its name is replaced by anywhere in a
selector, is what is given for the keyword at the end if there are at most 32 links, and else
the declaration that the 32nd link leads to. -/
theorem text_chain (h : Chain s n v k name) : ∃ t, Given n v k name t ∧
    s.text (v 0) = .ok (if n ≤ maxDepth then t else '@' :: v (maxDepth + 1)) ∧
      ∀ before after, '@' ∉ before → s.interpolate (before ++ reference (v 0) ++ after) =
        (s.interpolate after).map
          (before ++ (if n ≤ maxDepth then t else '@' :: v (maxDepth + 1)) ++ ·) := by
  obtain ⟨t, -, given, -, htext, -⟩ := h.within maxDepth 0 (Nat.zero_le n)
  rw [← Scope.text, reached, Nat.zero_add] at htext
  refine ⟨t, given, htext, ?_⟩
  intro before after unsigned
  rw [interpolate, List.append_assoc, replaceNames_append unsigned,
    replaceNames_reference (h.followed 0 (Nat.zero_le n)).not_brace, htext, interpolate]
  cases replaceNames s.text 0 after with
  | error e => rfl
  | ok rest => exact congrArg Except.ok (List.append_assoc _ _ _).symm

/-! ## Chains of any length -/

/-- The names `v`, `vv`, `vvv` and so on. -/
def lengthened (i : Nat) : Text := List.replicate (i + 1) 'v'

/-- A scope in which each of so many names is declared as the next, and the last as `red`. -/
def lengthening (n : Nat) : Scope Nat :=
  [(List.range n).map (fun i => .variable (lengthened i) ('@' :: lengthened (i + 1))) ++
    [.variable (lengthened n) "red"]]

theorem chain_lengthening {n : Nat} (links : ∀ i < n,
    (lengthening n).rawValue? (lengthened i) = some ('@' :: lengthened (i + 1)))
    (last : (lengthening n).rawValue? (lengthened n) = some "red") :
    Chain (lengthening n) n lengthened "red" "red" := by
  refine ⟨fun i _ => .ident (List.cons_ne_nil _ _) ?_, links, last, ⟨rfl, rfl, rfl⟩⟩
  intro c hc
  rw [List.eq_of_mem_replicate hc]
  decide +kernel

/-- The longest chain that is followed to its end. -/
theorem text_chain_lengthening :
    (lengthening 32).text "v" = .ok "red" ∧
      (lengthening 32).interpolate ".a-@\x7bv\x7d:hover" = .ok ".a-red:hover" := by
  obtain ⟨t, given, text, interpolated⟩ :=
    text_chain (chain_lengthening (n := 32) (by decide +kernel) (by decide +kernel))
  obtain rfl : t = "red" := by cases given <;> rfl
  exact ⟨text, (interpolated ".a-" ":hover" (by decide)).trans rfl⟩

/-- Not every chain is followed to its end: one of 33 links is not. -/
theorem not_forall_chain :
    ¬ ∀ (s : Scope Nat) (n : Nat) (v : Nat → Text) (k : Text),
      (∀ i ≤ n, ∀ j ≤ n, v i = v j → i = j) → Chain s n v k k → s.text (v 0) = .ok k := by
  intro h
  have chain : Chain (lengthening 33) 33 lengthened "red" "red" :=
    chain_lengthening (by decide +kernel) (by decide +kernel)
  have distinct : ∀ i ≤ 33, ∀ j ≤ 33, lengthened i = lengthened j → i = j := by
    intro i _ j _ same
    simpa [lengthened] using congrArg List.length same
  obtain ⟨t, -, -, -, stops, -⟩ := chain.within maxDepth 0 (Nat.zero_le 33)
  rw [← Scope.text, h _ _ _ _ distinct chain, reached, if_neg (by decide)] at stops
  exact absurd stops (by decide +kernel)

end Scope

end StyleTypings.Less
