/-
Guards — guards written as lexemes, and read again.

A guard can be written in several ways: a comparison with two signs in either order, `not`
as a word or as the name of a function, commas or words between the alternatives, and words
in any case of letters.  Each of them is a way of writing the same guard (`Guard.Writes`),
and every guard that has an alternative, none of them empty, can be written.

However a guard is written, it is read as itself (`writes_read`).  Its expressions stand in
parentheses, so a slash divides in them, and what ends an expression there, a sign of
comparison or a closing parenthesis, goes on with no operation.
-/
import StyleTypings.Less.Guard
import StyleTypings.Proofs.Expressions

namespace StyleTypings.Less

/-! ## Comparisons -/

namespace Comparison

/-- The signs that write a comparison. -/
def spellings : Comparison → List Text
  | .equal => [['=']]
  | .less => [['<']]
  | .lessOrEqual => [['<', '='], ['=', '<']]
  | .greater => [['>']]
  | .greaterOrEqual => [['>', '='], ['=', '>']]

theorem spellings_ne_nil (c : Comparison) : c.spellings ≠ [] := by
  cases c <;> exact List.cons_ne_nil _ _

variable {c : Comparison} {signs : Text} {t : List Lexeme}

/-- The signs of a comparison begin one, and no operation goes on with them. -/
theorem begins_signs (h : signs ∈ c.spellings) :
    begins (signs.map .sign ++ t) = true ∧
      Expression.EndsProduct true (signs.map .sign ++ t) ∧
      Expression.EndsSum (signs.map .sign ++ t) := by
  cases c <;> simp only [spellings, List.mem_cons, List.not_mem_nil, or_false] at h
  case equal => subst h; exact ⟨rfl, rfl, rfl⟩
  case less => subst h; exact ⟨rfl, rfl, rfl⟩
  case lessOrEqual => rcases h with rfl | rfl <;> exact ⟨rfl, rfl, rfl⟩
  case greater => subst h; exact ⟨rfl, rfl, rfl⟩
  case greaterOrEqual => rcases h with rfl | rfl <;> exact ⟨rfl, rfl, rfl⟩

/-- One sign is read as far as it goes, if none follows. -/
theorem read_sign {s : Char} (ht : begins t = false) :
    read (.sign s :: t) = (ofSigns? s none).map (·, t) := by
  cases t with
  | nil => rfl
  | cons l t =>
    cases l with
    | sign d =>
      have hd : isSign d = false := ht
      rw [read, hd]
      rfl
    | _ => rfl

theorem read_signs (h : signs ∈ c.spellings) (ht : begins t = false) :
    read (signs.map .sign ++ t) = some (c, t) := by
  cases c <;> simp only [spellings, List.mem_cons, List.not_mem_nil, or_false] at h
  case equal => subst h; exact read_sign ht
  case less => subst h; exact read_sign ht
  case lessOrEqual => rcases h with rfl | rfl <;> rfl
  case greater => subst h; exact read_sign ht
  case greaterOrEqual => rcases h with rfl | rfl <;> rfl

/-- No expression begins with the sign of a comparison. -/
theorem begins_write (inner : Bool) (level : Nat) (e : Expression) :
    begins (e.write inner level ++ t) = false := by
  obtain ⟨l, rest, heq, hl⟩ := Expression.write_eq_cons inner level e
  rw [heq]
  cases l with
  | sign s =>
    have hs : s = '-' := by simpa [Expression.isBeginning] using hl
    subst hs
    rfl
  | _ => rfl

end Comparison

/-! ## Conditions -/

namespace Condition

/-- What can stand inside the parentheses of a condition. -/
inductive WritesBody : Expression → Option (Comparison × Expression) → List Lexeme → Prop where
  | alone (e : Expression) : WritesBody e none (e.write true 0)
  | compared (left right : Expression) {c : Comparison} {signs : Text}
    (h : signs ∈ c.spellings) :
    WritesBody left (some (c, right))
      (left.write true 0 ++ (signs.map .sign ++ right.write true 0))

/-- The ways to write a condition. -/
inductive Writes : Condition → List Lexeme → Prop where
  | plain {e : Expression} {c : Option (Comparison × Expression)} {ls : List Lexeme}
    (body : WritesBody e c ls) : Writes ⟨false, e, c⟩ (.opening :: ls ++ [.closing])
  | negated {e : Expression} {c : Option (Comparison × Expression)} {ls : List Lexeme}
    {word : Text} (hword : Text.sameAscii word "not" = true) (body : WritesBody e c ls) :
    Writes ⟨true, e, c⟩ (.keyword word :: .opening :: ls ++ [.closing])
  /-- Right before its parenthesis `not` is the name of a function. -/
  | called {e : Expression} {c : Option (Comparison × Expression)} {ls : List Lexeme}
    (body : WritesBody e c ls) : Writes ⟨true, e, c⟩ (.function "not" :: ls ++ [.closing])

theorem exists_writesBody (e : Expression) (c : Option (Comparison × Expression)) :
    ∃ ls, WritesBody e c ls := by
  cases c with
  | none => exact ⟨_, .alone e⟩
  | some compared =>
    obtain ⟨c, right⟩ := compared
    obtain ⟨signs, h⟩ := List.exists_mem_of_ne_nil _ c.spellings_ne_nil
    exact ⟨_, .compared e right h⟩

theorem exists_writes (c : Condition) : ∃ ls, c.Writes ls := by
  obtain ⟨negated, e, comparison⟩ := c
  obtain ⟨ls, body⟩ := exists_writesBody e comparison
  cases negated with
  | false => exact ⟨_, .plain body⟩
  | true => exact ⟨_, .called body⟩

theorem readClosed_body {e : Expression} {c : Option (Comparison × Expression)} {ls : List Lexeme}
    (h : WritesBody e c ls) (negated : Bool) (rest : List Lexeme) :
    readClosed negated (ls ++ .closing :: rest) = some (⟨negated, e, c⟩, rest) := by
  rw [readClosed]
  cases h with
  | alone =>
    have read := Expression.readFrom?_write true e (t := .closing :: rest) rfl rfl
    simp only [readBody, read]
    rfl
  | @compared right c signs h =>
    obtain ⟨begun, product, sum⟩ :=
      Comparison.begins_signs (t := right.write true 0 ++ .closing :: rest) h
    have first := Expression.readFrom?_write true e product sum
    have second := Comparison.read_signs (t := right.write true 0 ++ .closing :: rest) h
      (Comparison.begins_write true 0 right)
    have third := Expression.readFrom?_write true right (t := .closing :: rest) rfl rfl
    simp only [List.append_assoc, readBody, first, begun, if_true, second, third, bind,
      Option.bind]

/-- However a condition is written, it is read as itself. -/
theorem read_of_writes {c : Condition} {ls : List Lexeme} (h : c.Writes ls)
    (rest : List Lexeme) : Condition.read (ls ++ rest) = some (c, rest) := by
  cases h with
  | plain body =>
    simp only [List.cons_append, List.append_assoc, List.nil_append, Condition.read]
    exact readClosed_body body false rest
  | negated hword body =>
    simp only [List.cons_append, List.append_assoc, List.nil_append, Condition.read, isKeyword,
      hword, if_true]
    exact readClosed_body body true rest
  | called body =>
    simp only [List.cons_append, List.append_assoc, List.nil_append, Condition.read, if_true]
    exact readClosed_body body true rest

end Condition

/-! ## Guards -/

namespace Guard

/-- The ways to write alternatives of conditions. -/
inductive WritesAll : List (List Condition) → List Lexeme → Prop where
  | last {c : Condition} {ls : List Lexeme} (h : c.Writes ls) : WritesAll [[c]] ls
  | and {c : Condition} {first : List Condition} {others : List (List Condition)}
    {ls rest : List Lexeme} {word : Text} (h : c.Writes ls)
    (hword : Text.sameAscii word "and" = true) (more : WritesAll (first :: others) rest) :
    WritesAll ((c :: first) :: others) (ls ++ .keyword word :: rest)
  | or {c : Condition} {others : List (List Condition)} {ls rest : List Lexeme} {word : Text}
    (h : c.Writes ls) (hword : Text.sameAscii word "or" = true) (more : WritesAll others rest) :
    WritesAll ([c] :: others) (ls ++ .keyword word :: rest)
  | comma {c : Condition} {others : List (List Condition)} {ls rest : List Lexeme}
    (h : c.Writes ls) (more : WritesAll others rest) :
    WritesAll ([c] :: others) (ls ++ .comma :: rest)

/-- The ways to write a guard. -/
def Writes (g : Guard) (ls : List Lexeme) : Prop := WritesAll g.alternatives ls

theorem exists_writesAll : ∀ (first : List Condition) (others : List (List Condition)),
    first ≠ [] → (∀ cs ∈ others, cs ≠ []) → ∃ ls, WritesAll (first :: others) ls
  | [], _, nonempty, _ => absurd rfl nonempty
  | [c], [], _, _ => by
    obtain ⟨ls, h⟩ := c.exists_writes
    exact ⟨ls, .last h⟩
  | [c], next :: others, _, nonempty => by
    obtain ⟨ls, h⟩ := c.exists_writes
    obtain ⟨rest, more⟩ := exists_writesAll next others (nonempty next List.mem_cons_self)
      (List.forall_mem_cons.mp nonempty).2
    exact ⟨_, .comma h more⟩
  | c :: d :: cs, others, _, nonempty => by
    obtain ⟨ls, h⟩ := c.exists_writes
    obtain ⟨rest, more⟩ := exists_writesAll (d :: cs) others (List.cons_ne_nil d cs) nonempty
    exact ⟨_, .and h (show Text.sameAscii "and" "and" = true from rfl) more⟩

/-- However alternatives are written, they are read as themselves. -/
theorem readFrom_of_writesAll {alternatives : List (List Condition)} {ls : List Lexeme}
    (h : WritesAll alternatives ls) {n : Nat} (hn : ls.length < n) :
    readFrom n ls = some alternatives := by
  induction h generalizing n with
  | @last c ls h =>
    obtain ⟨n, rfl⟩ : ∃ n', n = n' + 1 := ⟨n - 1, by omega⟩
    have first := Condition.read_of_writes h []
    rw [List.append_nil] at first
    rw [readFrom, first]
  | @and c first others ls rest word h hword more ih =>
    obtain ⟨n, rfl⟩ : ∃ n', n = n' + 1 := ⟨n - 1, by omega⟩
    rw [List.length_append, List.length_cons] at hn
    rw [readFrom, Condition.read_of_writes h]
    simp only [Condition.isKeyword, hword, if_true, ih (n := n) (by omega)]
  | @or c others ls rest word h hword more ih =>
    obtain ⟨n, rfl⟩ : ∃ n', n = n' + 1 := ⟨n - 1, by omega⟩
    rw [List.length_append, List.length_cons] at hn
    have hand : Text.sameAscii word "and" = false := by
      have hlower : word.lowerAscii = Text.lowerAscii "or" := eq_of_beq hword
      rw [Text.sameAscii, hlower]
      rfl
    rw [readFrom, Condition.read_of_writes h]
    simp only [Condition.isKeyword, hand, separates, hword, if_true, ih (n := n) (by omega)]
    rfl
  | @comma c others ls rest h more ih =>
    obtain ⟨n, rfl⟩ : ∃ n', n = n' + 1 := ⟨n - 1, by omega⟩
    rw [List.length_append, List.length_cons] at hn
    rw [readFrom, Condition.read_of_writes h]
    simp only [Condition.isKeyword, separates, if_true, ih (n := n) (by omega)]
    rfl

end Guard

/-- Every expression, written with no parentheses but the needed ones, is read as itself,
and nothing is left.  Every guard with alternatives, none of them empty, can be written, and
however it is written, it is read as itself. -/
theorem writes_read :
    (∀ e : Expression, Expression.readFrom? false (e.write false 0) = some (e, [])) ∧
    ∀ g : Guard, g.alternatives ≠ [] → (∀ cs ∈ g.alternatives, cs ≠ []) →
      (∃ ls, g.Writes ls) ∧
        ∀ ls, g.Writes ls → Guard.readFrom (ls.length + 1) ls = some g.alternatives := by
  constructor
  · intro e
    have read := Expression.readFrom?_write false e (t := []) rfl rfl
    rwa [List.append_nil] at read
  · intro g some nonempty
    obtain ⟨first, others, heq⟩ := List.exists_cons_of_ne_nil some
    constructor
    · rw [heq] at nonempty
      obtain ⟨hfirst, hothers⟩ := List.forall_mem_cons.mp nonempty
      obtain ⟨ls, h⟩ := Guard.exists_writesAll first others hfirst hothers
      exact ⟨ls, by rw [Guard.Writes, heq]; exact h⟩
    · intro ls h
      exact Guard.readFrom_of_writesAll h (Nat.lt_succ_self ls.length)

/-- A slash divides in the argument of a call in parentheses of its own, and in a condition
without any.  Two alternatives, the first of them with two conditions. -/
theorem writes_read_nested :
    Expression.readFrom? false
        [.function "isunit", .opening, .variable "a", .sign '/', .variable "b", .closing,
          .closing] =
      some (.call .isUnit [.operation .divide (.variable "a") (.variable "b")], []) ∧
    Guard.readFrom 18
        [.function "not", .variable "a", .sign '=', .sign '<', .variable "b", .sign '/',
          .variable "c", .closing, .keyword "and", .opening, .function "default", .closing,
          .closing, .keyword "OR", .opening, .variable "d", .closing] =
      some [[⟨true, .variable "a",
            some (.lessOrEqual, .operation .divide (.variable "b") (.variable "c"))⟩,
          ⟨false, .call .default [], none⟩],
        [⟨false, .variable "d", none⟩]] := by
  constructor
  · exact writes_read.1 (.call .isUnit [.operation .divide (.variable "a") (.variable "b")])
  · have compared : (['=', '<'] : Text) ∈ Comparison.lessOrEqual.spellings := by decide
    have first := Condition.Writes.called
      (.compared (.variable "a") (.operation .divide (.variable "b") (.variable "c")) compared)
    have second := Condition.Writes.plain (.alone (.call .default []))
    have third := Condition.Writes.plain (.alone (.variable "d"))
    have hand : Text.sameAscii "and" "and" = true := rfl
    have hor : Text.sameAscii "OR" "or" = true := rfl
    have written := Guard.WritesAll.and first hand (.or second hor (.last third))
    refine (writes_read.2 ⟨_⟩ ?_ ?_).2 _ written
    · exact List.cons_ne_nil _ _
    · simp

end StyleTypings.Less
