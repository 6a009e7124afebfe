/-
Literals — what the string literals of declarations say in a script.

A literal of a script ends at the first of its quotes that is not escaped, and it cannot
hold the end of a line.  Its value is a list of units of UTF-16, since an escape by number
may stand for half a character (`readLiteral`).

The literals of declarations have only quotes and backslashes escaped.  That is enough for
every text on one line (`denotes_iff`); a line feed or a carriage return is put in as it is,
and then the text is no literal at all.  So the literals of constants say the names of their
classes as far as these are on one line, and the keys of an interface say their identifiers
also where the name format takes the name apart, since nothing that ends a line is left of
it then (`literals_denote_iff`).
-/
import StyleTypings.Proofs.Rendering
import StyleTypings.Proofs.Constants
import StyleTypings.Json.Strings

namespace StyleTypings

/-! ## Literals of scripts -/

namespace Script

/-- The units of UTF-16 that a code point takes. -/
def unitsOfCode (n : Nat) : List Nat :=
  if n < 0x10000 then [n] else [0xD800 + (n - 0x10000) / 0x400, 0xDC00 + (n - 0x10000) % 0x400]

/-- A text in units of UTF-16. -/
def units (t : Text) : List Nat := t.flatMap fun c => unitsOfCode c.toNat

/-- Whether a character ends a line inside no literal. -/
def isBreak (c : Char) : Bool := c == '\n' || c == '\r'

/-- Whether a character ends a line.  The two separators of Unicode do, but they may stand
in a literal. -/
def isLineEnd (c : Char) : Bool := isBreak c || c.toNat == 0x2028 || c.toNat == 0x2029

/-- The control character that a letter after a backslash stands for. -/
def control? : Char → Option Nat
  | 'b' => some 0x8
  | 't' => some 0x9
  | 'n' => some 0xA
  | 'v' => some 0xB
  | 'f' => some 0xC
  | 'r' => some 0xD
  | _ => none

/-- The units of an escape by number, given the text after its `u`, and how many characters
it takes: four digits for one unit, or a code point in braces. -/
def numbered? : Text → Option (List Nat × Nat)
  | '\x7b' :: rest =>
    let digits := rest.takeWhile (· != '\x7d')
    match Json.hexNumber? digits with
    | some n =>
      if digits.isEmpty || digits.length = rest.length || 0x10FFFF < n then none
      else some (unitsOfCode n, digits.length + 2)
    | none => none
  | t => if t.length < 4 then none else (Json.hexNumber? (t.take 4)).map fun n => ([n], 4)

/-- The units of an escape, given the text after its backslash, and how many characters it
takes.  The end of a line after a backslash stands for nothing.  In the code of modules no
digits can be escaped, but for a zero that stands alone. -/
def escape? : Text → Option (List Nat × Nat)
  | [] => none
  | c :: rest =>
    if c = 'u' then (numbered? rest).map fun (us, n) => (us, n + 1)
    else if c = 'x' then
      if rest.length < 2 then none else (Json.hexNumber? (rest.take 2)).map fun n => ([n], 3)
    else if c.isDigit then
      if c = '0' && ! rest.head?.any Char.isDigit then some ([0], 1) else none
    else if isLineEnd c then some ([], if c = '\r' && rest.head? = some '\n' then 2 else 1)
    else
      match control? c with
      | some n => some ([n], 1)
      | none => some (unitsOfCode c.toNat, 1)

/-- The value of a literal up to its closing quote, and the text after it.  `skip` counts
the characters of an escape that are still to be passed. -/
def takeLiteral (quote : Char) : Nat → Text → Option (List Nat × Text)
  | _, [] => none
  | skip + 1, _ :: rest => takeLiteral quote skip rest
  | 0, c :: rest =>
    if c = quote then some ([], rest)
    else if c = '\\' then
      match escape? rest with
      | some (us, n) => (takeLiteral quote n rest).map fun (vs, after) => (us ++ vs, after)
      | none => none
    else if isBreak c then none
    else (takeLiteral quote 0 rest).map fun (vs, after) => (unitsOfCode c.toNat ++ vs, after)

/-- The value of the literal that a text begins with, and the text after it. -/
def readLiteral : Text → Option (List Nat × Text)
  | [] => none
  | c :: rest => if Text.isQuote c then takeLiteral c 0 rest else none

/-- A text is a literal, in some quotes and on one line, for another text: whatever stands
behind it, it is read up to its end, and its value is the other text. -/
def Denotes (quote : Char) (l t : Text) : Prop :=
  l.head? = some quote ∧ (∀ c ∈ l, isBreak c = false) ∧
    ∀ after, readLiteral (l ++ after) = some (units t, after)

end Script

open Script

/-- A text without the end of a line. -/
def SingleLine (t : Text) : Prop := ∀ c ∈ t, isBreak c = false

/-! ## Literals of declarations -/

namespace Typings

theorem escapeChar_of_isBreak {quote c : Char} (hq : Text.isQuote quote = true)
    (h : isBreak c = true) : escapeChar quote c = [c] := by
  refine if_neg ?_
  simp only [Text.isQuote, isBreak, Bool.or_eq_true, beq_iff_eq] at hq h
  rcases hq with rfl | rfl <;> rcases h with rfl | rfl <;> decide

/-- An escaped character is read as the character itself. -/
theorem takeLiteral_escapeChar {quote c : Char} (hq : Text.isQuote quote = true)
    (h : isBreak c = false) (t : Text) :
    takeLiteral quote 0 (escapeChar quote c ++ t) =
      (takeLiteral quote 0 t).map fun (vs, after) => (unitsOfCode c.toNat ++ vs, after) := by
  have hslash : ¬ '\\' = quote := by
    rintro rfl
    exact absurd hq (by decide)
  rw [escapeChar]
  split
  · rename_i hc
    -- The quotes and the backslash stand for themselves after a backslash.
    have self : escape? (c :: t) = some (unitsOfCode c.toNat, 1) := by
      simp only [Text.isQuote, Bool.or_eq_true, beq_iff_eq, decide_eq_true_eq] at hq hc
      rcases hc with rfl | rfl
      · rfl
      · rcases hq with rfl | rfl <;> rfl
    rw [List.cons_append, List.cons_append, List.nil_append, takeLiteral, if_neg hslash,
      if_pos rfl, self]
    rfl
  · rename_i hc
    simp only [Bool.or_eq_true, decide_eq_true_eq, not_or] at hc
    rw [List.singleton_append, takeLiteral, if_neg hc.2, if_neg hc.1, h]
    rfl

theorem takeLiteral_escaped {quote : Char} (hq : Text.isQuote quote = true) {t : Text}
    (h : SingleLine t) (after : Text) :
    takeLiteral quote 0 (t.flatMap (escapeChar quote) ++ quote :: after) =
      some (units t, after) := by
  induction t with
  | nil => exact if_pos rfl
  | cons c t ih =>
    rw [List.flatMap_cons, List.append_assoc, takeLiteral_escapeChar hq (h c List.mem_cons_self),
      ih (List.forall_mem_of_forall_mem_cons h)]
    rfl

/-- The end of a line stands in the literal as it is, and nothing is read from there on. -/
theorem takeLiteral_eq_none {quote : Char} (hq : Text.isQuote quote = true) {t : Text}
    (h : ¬ SingleLine t) (after : Text) :
    takeLiteral quote 0 (t.flatMap (escapeChar quote) ++ after) = none := by
  induction t with
  | nil => exact absurd (List.forall_mem_nil _) h
  | cons c t ih =>
    rw [List.flatMap_cons, List.append_assoc]
    cases hc : isBreak c with
    | true =>
      have hplain : ¬ c = quote ∧ ¬ c = '\\' := by
        simp only [Text.isQuote, isBreak, Bool.or_eq_true, beq_iff_eq] at hq hc
        rcases hq with rfl | rfl <;> rcases hc with rfl | rfl <;> decide
      rw [escapeChar_of_isBreak hq hc, List.singleton_append, takeLiteral, if_neg hplain.1,
        if_neg hplain.2, if_pos hc]
    | false =>
      rw [takeLiteral_escapeChar hq hc, ih]
      · rfl
      · intro rest
        exact h (List.forall_mem_cons.mpr ⟨hc, rest⟩)

/-- A literal in a declaration says its text exactly when the text is on one line. -/
theorem denotes_iff {quote : Char} (hq : Text.isQuote quote = true) (t : Text) :
    Denotes quote (literal quote t) t ↔ SingleLine t := by
  have read (after : Text) : readLiteral (literal quote t ++ after) =
      takeLiteral quote 0 (t.flatMap (escapeChar quote) ++ quote :: after) := by
    simp [literal, readLiteral, hq]
  constructor
  · rintro ⟨_, _, value⟩
    by_contra h
    have value := value []
    rw [read, takeLiteral_eq_none hq h] at value
    cases value
  · intro h
    refine ⟨rfl, ?_, ?_⟩
    · intro c hc
      have hquote : isBreak quote = false := by
        simp only [Text.isQuote, Bool.or_eq_true, beq_iff_eq] at hq
        rcases hq with rfl | rfl <;> rfl
      simp only [literal, List.mem_append, List.mem_singleton, List.mem_flatMap] at hc
      rcases hc with (rfl | ⟨d, hd, hc⟩) | rfl
      · exact hquote
      · unfold escapeChar at hc
        split at hc
        · rcases List.mem_cons.mp hc with rfl | hc
          · rfl
          · rw [List.mem_singleton.mp hc]
            exact h d hd
        · rw [List.mem_singleton.mp hc]
          exact h d hd
      · exact hquote
    · intro after
      rw [read, takeLiteral_escaped hq h]

end Typings

/-! ## Identifiers on one line -/

theorem isBreak_of_isWordChar {c : Char} (h : isWordChar c = true) : isBreak c = false := by
  rw [isBreak, Bool.or_eq_false_iff, beq_eq_false_iff_ne, beq_eq_false_iff_ne]
  constructor <;> rintro rfl <;> exact absurd h (by decide)

theorem singleLine_alphanumerics (t : Text) : SingleLine (t.filter isAlphanumeric) := by
  intro c hc
  have h := List.of_mem_filter hc
  rw [isBreak, Bool.or_eq_false_iff, beq_eq_false_iff_ne, beq_eq_false_iff_ne]
  constructor <;> rintro rfl <;> exact absurd h (by decide)

/-- A change of case brings in letters and their marks, so it breaks no line. -/
theorem Recased.singleLine {t u : Text} (h : Recased t u) (ht : SingleLine t) : SingleLine u := by
  induction h with
  | nil => exact ht
  | @cons c form t u first _ ih =>
    obtain ⟨hc, ht⟩ := List.forall_mem_cons.mp ht
    refine List.forall_mem_append.mpr ⟨?_, ih ht⟩
    cases first with
    | same => exact List.forall_mem_singleton.mpr hc
    | letter _ hd hmarks =>
      refine List.forall_mem_cons.mpr ⟨isBreak_of_isWordChar (isWordChar_of_isLetter hd), ?_⟩
      intro d hd
      exact isBreak_of_isWordChar (hmarks d hd)

theorem singleLine_camelCase (t : Text) : SingleLine (Text.camelCase t) :=
  (Text.camelCase_recased t).singleLine (singleLine_alphanumerics t)

theorem singleLine_kebabCase (t : Text) : SingleLine (Text.kebabCase t) := by
  intro c hc
  rcases Text.exists_mem_of_mem_joinWith hc with hc | ⟨word, hword, hc⟩
  · rw [List.mem_singleton.mp hc]
    rfl
  · obtain ⟨w, hw, rfl⟩ := List.mem_map.mp hword
    refine (Recased.lowerWord w).singleLine ?_ c hc
    intro d hd
    refine singleLine_alphanumerics t d ?_
    rw [← Text.flatten_nameWords]
    exact List.mem_flatten.mpr ⟨w, hw, hd⟩

/-- An identifier is on one line exactly when the format takes the name of the class apart,
or the name is on one line itself. -/
theorem NameFormat.singleLine_apply_iff (f : NameFormat) (t : Text) :
    SingleLine (f.apply t) ↔ f.rebuilds t = true ∨ SingleLine t := by
  cases h : f.rebuilds t with
  | false =>
    rw [apply_of_not_rebuilds h]
    simp
  | true =>
    refine iff_of_true ?_ (.inl rfl)
    rcases apply_of_rebuilds h with heq | heq
    · rw [heq]
      exact singleLine_camelCase t
    · rw [heq]
      exact singleLine_kebabCase t

/-! ## Declarations -/

namespace Typings

/-- In the declarations for a style sheet the line of a class holds one literal.  That of a
constant says the name of the class exactly when the name is on one line; that of a member
says the identifier exactly when the format takes the name apart or the name is on one
line. -/
theorem literals_denote_iff (ending : LineEnding) (f : NameFormat) (s : Less.Stylesheet)
    {c : ClassName} (hc : c ∈ classNames f s) :
    ((render .values ending (classNames f s)).definitions = some (textOfLines ending.text
        (((classNames f s).filter isBindable).map valueLine)) ∧
      ∃ l, valueLine c = ("export const " : Text) ++ c.identifier ++ (" = " : Text) ++ l ++ [';'] ∧
        (Denotes '"' l c.name ↔ SingleLine c.name)) ∧
    ((render .default ending (classNames f s)).definitions = some (interfaceHead ending.text ++
        ((classNames f s).map memberLine).flatMap (· ++ ending.text) ++
        interfaceTail ending.text) ∧
      ∃ l, memberLine c = [' ', ' '] ++ l ++ (": string;" : Text) ∧
        (Denotes '\'' l c.identifier ↔ f.rebuilds c.name = true ∨ SingleLine c.name)) := by
  have nonempty : classNames f s ≠ [] := List.ne_nil_of_mem hc
  refine ⟨⟨?_, literal '"' c.name, rfl, denotes_iff rfl c.name⟩,
    ?_, literal '\'' c.identifier, rfl, ?_⟩
  · rw [render_constants (by decide) ending nonempty]
    rfl
  · rw [render_default ending nonempty]
  · rw [denotes_iff rfl, (mem_classNames.mp hc).2]
    exact f.singleLine_apply_iff c.name

/-- A quote and a backslash in the name of a class are escaped in its constant. -/
theorem literals_denote_quoted :
    (⟨"aB", "a-\"b\\"⟩ : ClassName) ∈ classNames .camel [⟨[".a-\\\"b\\\\"]⟩] ∧
      ∃ l, valueLine ⟨"aB", "a-\"b\\"⟩ =
          ("export const " : Text) ++ ("aB" : Text) ++ (" = " : Text) ++ l ++ [';'] ∧
        Denotes '"' l "a-\"b\\" := by
  have hc : (⟨"aB", "a-\"b\\"⟩ : ClassName) ∈ classNames .camel [⟨[".a-\\\"b\\\\"]⟩] := by
    decide +kernel
  obtain ⟨l, hline, hl⟩ := (literals_denote_iff .lf .camel [⟨[".a-\\\"b\\\\"]⟩] hc).1.2
  refine ⟨hc, l, hline, hl.mpr ?_⟩
  have line : ("a-\"b\\" : Text).all (! isBreak ·) = true := by decide
  intro c hc
  simpa using List.all_eq_true.mp line c hc

/-- A line feed comes into a name by an escape, as in `.a\a b`, and from there into the
literal of its constant. -/
theorem not_forall_literals_denote :
    ¬ ∀ (f : NameFormat) (s : Less.Stylesheet), ∀ c ∈ (classNames f s).filter isBindable,
      ∃ l, valueLine c = ("export const " : Text) ++ c.identifier ++ (" = " : Text) ++ l ++ [';'] ∧
        Denotes '"' l c.name := by
  intro h
  have hc : (⟨"aB", "a\nb"⟩ : ClassName) ∈
      (classNames .camel [⟨[".a\\a b"]⟩]).filter isBindable := by decide +kernel
  obtain ⟨l, hline, hl⟩ := h .camel [⟨[".a\\a b"]⟩] _ hc
  have heq : l = literal '"' "a\nb" :=
    (List.append_cancel_left (List.append_cancel_right hline)).symm
  rw [heq, denotes_iff rfl] at hl
  exact absurd (hl '\n' (by decide)) (by decide)

end Typings

end StyleTypings
