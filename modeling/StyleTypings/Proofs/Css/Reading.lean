/-
Reading — tokens that have a text after them.

A token ends where the next one begins, so what a text is cut into can be said piece by
piece: `Reads t ts after` means that the tokenizer takes the tokens `ts` from `t` and leaves
`after`.  Names and strings are read back to their last character, whatever follows the
quote of a string, and if what follows a name cannot be a part of it (`EndsName`).
-/
import StyleTypings.Proofs.Css.ClassSelectors

namespace StyleTypings.Css

/-! ## Pieces of a text -/

/-- The tokenizer takes some tokens from a text and leaves the rest to be read.  It has as
many steps left as the rest has characters, or more. -/
def Reads (t : Text) (ts : List Token) (after : Text) : Prop :=
  ∀ steps, t.length ≤ steps → ∃ left, after.length ≤ left ∧
    tokensWithin steps t = ts ++ tokensWithin left after

namespace Reads

variable {t u v : Text} {ts us : List Token}

theorem refl (t : Text) : Reads t [] t := fun steps enough => ⟨steps, enough, rfl⟩

theorem trans (h : Reads t ts u) (h' : Reads u us v) : Reads t (ts ++ us) v := by
  intro steps enough
  obtain ⟨left, enough', first⟩ := h steps enough
  obtain ⟨left', enough'', second⟩ := h' left enough'
  exact ⟨left', enough'', by rw [first, second, List.append_assoc]⟩

/-- The token at the beginning of a text is taken first. -/
theorem of_takeToken {c : Char} {rest after : Text} {token : Token}
    (h : takeToken c rest = (some token, after)) (shorter : after.length ≤ rest.length) :
    Reads (c :: rest) [token] after := by
  intro steps enough
  cases steps with
  | zero => cases enough
  | succ steps =>
    refine ⟨steps, shorter.trans (Nat.le_of_succ_le_succ enough), ?_⟩
    rw [tokensWithin, h]
    rfl

/-- What is read to the end is all tokens. -/
theorem tokens_eq (h : Reads t ts []) : tokens t = ts := by
  obtain ⟨left, _, read⟩ := h t.length (Nat.le_refl _)
  have nothing : tokensWithin left [] = [] := by cases left <;> rfl
  rw [tokens, read, nothing, List.append_nil]

end Reads

/-! ## Names -/

/-- A text that no name before it goes on into. -/
def EndsName (after : Text) : Prop :=
  ∀ c ∈ after.head?, isNamePart c = false ∧ c ≠ '\\'

theorem EndsName.nil : EndsName [] := nofun

theorem EndsName.cons {c : Char} (h : isNamePart c = false ∧ c ≠ '\\') (after : Text) :
    EndsName (c :: after) := by
  rintro _ ⟨⟩
  exact h

theorem takeName_of_endsName {after : Text} (h : EndsName after) :
    takeName 0 after = ([], after) := by
  cases after with
  | nil => rfl
  | cons c rest =>
    obtain ⟨part, backslash⟩ := h c rfl
    rw [takeName, if_neg backslash, part, if_neg Bool.false_ne_true]

theorem takeName_spellCode {c : Char} (code : isCoded c = true) (after : Text) :
    takeName 0 (spellCode c ++ after) = (c :: (takeName 0 after).1, (takeName 0 after).2) := by
  have h := (codeFacts code).takeName_eq (' ' :: after) (by simp; decide)
  simpa [spellCode, blankLength, isCssBlank] using h

theorem takeName_spellChar {c : Char} (real : c ≠ '\x00') (after : Text) :
    takeName 0 (spellChar c ++ after) = (c :: (takeName 0 after).1, (takeName 0 after).2) := by
  unfold spellChar
  by_cases control : isControl c = true
  · rw [if_pos control]
    exact takeName_spellCode (by simp [isCoded, control]) after
  rw [if_neg control]
  by_cases part : isNamePart c = true
  · rw [if_pos part, List.singleton_append, takeName, if_neg (ne_backslash_of_isNamePart part),
      if_pos part, if_neg real]
  · rw [if_neg part]
    rw [Bool.not_eq_true] at control part
    have line : atNewline (c :: after) = false := isNewline_of_isControl control
    have hescape : escape (c :: after) = (c, 1) := by
      simp [escape, isHexDigit_of_isNamePart part, real]
    show takeName 0 ('\\' :: c :: after) = _
    rw [takeName, if_pos rfl, line, if_neg Bool.false_ne_true, hescape]
    simp only
    rw [takeName_eq_drop, List.drop_one, List.tail_cons]

theorem takeName_spellFirst {c : Char} (real : c ≠ '\x00') (after : Text) :
    takeName 0 (spellFirst c ++ after) = (c :: (takeName 0 after).1, (takeName 0 after).2) := by
  unfold spellFirst
  split
  · exact takeName_spellCode (by simp [isCoded, *]) after
  · exact takeName_spellChar real after

theorem takeName_flatMap {n : Text} (real : ∀ c ∈ n, c ≠ '\x00') (after : Text) :
    takeName 0 (n.flatMap spellChar ++ after) =
      (n ++ (takeName 0 after).1, (takeName 0 after).2) := by
  induction n with
  | nil => rfl
  | cons c n ih =>
    obtain ⟨hc, hn⟩ := List.forall_mem_cons.mp real
    rw [List.flatMap_cons, List.append_assoc, takeName_spellChar hc, ih hn]
    rfl

/-- A name is read back to its end, with what comes after it left over. -/
theorem takeName_spellName {n after : Text} (real : ∀ c ∈ n, c ≠ '\x00') (h : EndsName after) :
    takeName 0 (spellName n ++ after) = (n, after) := by
  have rest {m : Text} (hm : ∀ c ∈ m, c ≠ '\x00') :
      takeName 0 (m.flatMap spellChar ++ after) = (m, after) := by
    rw [takeName_flatMap hm, takeName_of_endsName h, List.append_nil]
  fun_cases spellName n with
  | case1 => exact takeName_of_endsName h
  | case2 =>
    have hyphen := takeName_of_endsName h
    simp [takeName, escape, atNewline, isNewline, isHexDigit, hyphen]
  | case3 c m =>
    obtain ⟨_, hreal⟩ := List.forall_mem_cons.mp real
    obtain ⟨hc, hm⟩ := List.forall_mem_cons.mp hreal
    rw [List.cons_append, List.cons_append, takeName, if_neg (by decide), if_pos (by decide),
      List.append_assoc, takeName_spellFirst hc, rest hm]
    rfl
  | case4 c m =>
    obtain ⟨hc, hm⟩ := List.forall_mem_cons.mp real
    rw [List.append_assoc, takeName_spellFirst hc, rest hm]

section Names

variable {n after : Text} (ne : n ≠ []) (real : ∀ c ∈ n, c ≠ '\x00') (ends : EndsName after)

include ne real ends

/-- The spelling of a name is taken as an identifier or a function, unless an arrow follows
two hyphens. -/
theorem reads_spellName (arrow : after.head? ≠ some '>') {token : Token} {later : Text}
    (identLike : takeIdentLike (spellName n ++ after) = (token, later))
    (shorter : later.length ≤ after.length) : Reads (spellName n ++ after) [token] later := by
  have begins := startsName_spellName_append ne after
  have read := takeName_spellName real ends
  have spelled : spellName n ≠ [] := by
    intro h
    have nothing := startsName_spellName_append ne []
    rw [h] at nothing
    cases nothing
  obtain ⟨c, rest, hspell⟩ := List.exists_cons_of_ne_nil spelled
  rw [hspell, List.cons_append] at begins read identLike ⊢
  refine .of_takeToken ?_ (by simp; omega)
  rw [takeToken_of_startsName begins, identLike]
  rintro rfl rest' hrest
  rw [hrest, takeName, if_neg (by decide), if_pos (by decide), takeName, if_neg (by decide),
    if_pos (by decide), takeName_of_endsName (.cons (by decide) rest')] at read
  rw [← (Prod.mk.inj read).2] at arrow
  exact arrow rfl

/-- An identifier is read back. -/
theorem reads_ident (arrow : after.head? ≠ some '>') (call : after.head? ≠ some '(') :
    Reads (spellName n ++ after) [.ident n] after := by
  refine reads_spellName ne real ends arrow ?_ (Nat.le_refl _)
  rw [takeIdentLike, takeName_spellName real ends]
  simp only
  split
  · exact absurd rfl call
  · rfl

/-- A name after a `#` is read back. -/
theorem reads_hash : Reads ('#' :: (spellName n ++ after)) [.hash n] after := by
  have hash : takeHash (spellName n ++ after) = (.hash n, after) := by
    simp only [takeHash, startsName_spellName_append ne after, Bool.true_or, if_true,
      takeName_spellName real ends]
  refine .of_takeToken (c := '#') ?_ (by simp)
  show (some (takeHash _).1, (takeHash _).2) = _
  rw [hash]

end Names

/-- A point before a name is a sign of its own. -/
theorem reads_point {n : Text} (ne : n ≠ []) (after : Text) :
    Reads ('.' :: (spellName n ++ after)) [.delim '.'] (spellName n ++ after) := by
  have numeral : startsNumeral ('.' :: (spellName n ++ after)) = false :=
    atDigit_of_startsName (startsName_spellName_append ne after)
  refine .of_takeToken (c := '.') ?_ (Nat.le_refl _)
  simp [takeToken, numeral]

/-- A function is read back, unless it has the name of an address. -/
theorem reads_function {n : Text} (ne : n ≠ []) (real : ∀ c ∈ n, c ≠ '\x00')
    (notAddress : n.sameAscii "url" = false) (after : Text) :
    Reads (spellName n ++ '(' :: after) [.function n] after := by
  have ends : EndsName ('(' :: after) := .cons (by decide) after
  refine reads_spellName ne real ends nofun ?_ (by simp)
  rw [takeIdentLike, takeName_spellName real ends]
  simp only [notAddress]
  rfl

/-! ## Strings -/

/-- A character inside a quoted string. -/
def spellInString (c : Char) : Text :=
  if c = '\x00' then [replacementChar]
  else if isControl c then spellCode c
  else if c = '"' ∨ c = '\\' then ['\\', c]
  else [c]

/-- A quoted string with everything in it escaped that has to be. -/
def spellString (t : Text) : Text := '"' :: t.flatMap spellInString ++ ['"']

/-- What a string holds when it is read: the NUL character cannot be shown. -/
def shown (t : Text) : Text := t.map fun c => if c = '\x00' then replacementChar else c

theorem takeString_eq_drop (quote : Char) (skip : Nat) (t : Text) :
    takeString quote skip t = takeString quote 0 (t.drop skip) := by
  induction t generalizing skip with
  | nil => cases skip <;> rfl
  | cons c rest ih =>
    cases skip with
    | zero => rfl
    | succ skip => exact ih skip

/-- An escape in a string stands for its character. -/
theorem takeString_escape {t after : Text} {c : Char} {taken : Nat} (ne : t ≠ [])
    (line : atNewline t = false) (h : escape t = (c, taken)) (hdrop : t.drop taken = after) :
    takeString '"' 0 ('\\' :: t) =
      ((takeString '"' 0 after).1.map (c :: ·), (takeString '"' 0 after).2) := by
  rw [takeString, if_neg (by decide), if_neg (by decide), if_pos rfl,
    List.isEmpty_eq_false_iff.mpr ne, if_neg Bool.false_ne_true, line, if_neg Bool.false_ne_true, h]
  simp only
  rw [takeString_eq_drop, hdrop]

theorem takeString_spellInString (c : Char) (after : Text) :
    takeString '"' 0 (spellInString c ++ after) =
      ((takeString '"' 0 after).1.map ((if c = '\x00' then replacementChar else c) :: ·),
        (takeString '"' 0 after).2) := by
  unfold spellInString
  by_cases nul : c = '\x00'
  · rw [if_pos nul, if_pos nul, List.singleton_append, takeString, if_neg (by decide),
      if_neg (by decide), if_neg (by decide)]
    rfl
  rw [if_neg nul, if_neg nul]
  by_cases control : isControl c = true
  · have code : isCoded c = true := by simp [isCoded, control]
    have facts := codeFacts code
    have hescape := escape_digits (t := ' ' :: after) facts.digits facts.ne_nil facts.length_le
      (by simp; decide)
    obtain ⟨d, rest, hdigits⟩ := List.exists_cons_of_ne_nil facts.ne_nil
    have hd := facts.digits d (hdigits ▸ List.mem_cons_self)
    rw [if_pos control, spellCode, List.append_assoc, List.cons_append]
    refine takeString_escape (by simp) ?_ (facts.charOfCode ▸ hescape) ?_
    · rw [hdigits]
      exact atNewline_of_isHexDigit hd _
    · rw [List.singleton_append, List.drop_length_add_append]
      rfl
  rw [if_neg control]
  rw [Bool.not_eq_true] at control
  have line : isNewline c = false := isNewline_of_isControl control
  by_cases special : c = '"' ∨ c = '\\'
  · have hescape : escape (c :: after) = (c, 1) := by
      rcases special with rfl | rfl <;> simp [escape, isHexDigit]
    rw [if_pos special]
    exact takeString_escape (by simp) line hescape rfl
  · rw [not_or] at special
    rw [if_neg (by simp [special]), List.singleton_append, takeString, if_neg special.1, line,
      if_neg Bool.false_ne_true, if_neg special.2, if_neg nul]

/-- A string is read back, with what comes after its quote left over. -/
theorem reads_string (t after : Text) :
    Reads (spellString t ++ after) [.string (shown t)] after := by
  have content : takeString '"' 0 (t.flatMap spellInString ++ '"' :: after) =
      (some (shown t), after) := by
    induction t with
    | nil => simp [takeString, shown]
    | cons c t ih =>
      rw [List.flatMap_cons, List.append_assoc, takeString_spellInString, ih]
      rfl
  have quoted : takeQuoted '"' (t.flatMap spellInString ++ '"' :: after) =
      (.string (shown t), after) := by rw [takeQuoted, content]
  rw [spellString, List.cons_append, List.cons_append, List.append_assoc, List.singleton_append]
  refine .of_takeToken ?_ (by simp; omega)
  show (some (takeQuoted '"' _).1, (takeQuoted '"' _).2) = _
  rw [quoted]

end StyleTypings.Css
