/-
Expressions — expressions written as lexemes, and read again.

An expression is written with parentheses only where it would be read as another one
without them (`Operator.isEnclosed`): around an operand that binds more loosely than its
place asks for, and around a division that no parentheses stand around yet.  Those of a
call are none, for a slash in the arguments of a call divides only if it would outside.

What is written is read as the same expression, whatever stands behind it, as long as no
operator goes on from there (`readFrom?_write`).  Reading is greedy and takes operands from
the left: when the left operand of an operation has been read, the reader is in the midst of
the whole operation.  So what is shown of a part of a sum is not what comes of reading it
alone, but that whatever the rest of the sum makes of the part is what is read at its place
(`ReadsProduct`, `ReadsSum`).  The depth that a reading needs is carried along: four for
each lexeme.
-/
import StyleTypings.Less.Expression

namespace StyleTypings.Less

/-! ## Writing -/

/-- How tightly an operator binds: 0 in sums, 1 in products.  The places of operands have
the same levels, with 2 for what can only be a factor. -/
def Operator.level : Operator → Nat
  | .add | .subtract => 0
  | .multiply | .divide => 1

/-- Whether an operation needs parentheses at a place: it binds too loosely there, or it is
a division outside parentheses. -/
def Operator.isEnclosed (inner : Bool) (level : Nat) (op : Operator) : Bool :=
  decide (op.level < level) || (op == .divide && ! inner)

def Function.name : Function → Text
  | .default => ("default" : Text)
  | .isNumber => ("isnumber" : Text)
  | .isString => ("isstring" : Text)
  | .isKeyword => ("iskeyword" : Text)
  | .isPixel => ("ispixel" : Text)
  | .isEm => ("isem" : Text)
  | .isPercentage => ("ispercentage" : Text)
  | .isUnit => ("isunit" : Text)

theorem Function.ofName?_name (f : Function) : Function.ofName? f.name = some f := by
  cases f <;> rfl

def Value.lexeme : Value → Lexeme
  | .number x unit => .number x unit
  | .quoted t => .quoted t
  | .keyword t => .keyword t

namespace Expression

mutual

/-- The lexemes of an expression at a place with a level, inside parentheses or outside.
The right operand of an operation has the place of the next level, since operations of one
level go from left to right. -/
def write (inner : Bool) (level : Nat) : Expression → List Lexeme
  | .value v => [v.lexeme]
  | .variable name => [.variable name]
  | .negate e => .sign '-' :: write inner 2 e
  | .operation op l r =>
    if op.isEnclosed inner level then
      .opening ::
        (write true op.level l ++ .sign op.sign :: write true (op.level + 1) r) ++ [.closing]
    else write inner op.level l ++ .sign op.sign :: write inner (op.level + 1) r
  | .call f arguments => .function f.name :: writeAll inner arguments ++ [.closing]

/-- The lexemes of expressions with commas between them. -/
def writeAll (inner : Bool) : List Expression → List Lexeme
  | [] => []
  | [e] => write inner 0 e
  | e :: rest => write inner 0 e ++ .comma :: writeAll inner rest

end

/-! ## What an expression begins with -/

/-- Whether a lexeme can begin an expression. -/
def isBeginning : Lexeme → Bool
  | .number .. | .quoted _ | .keyword _ | .variable _ | .function _ | .opening => true
  | .sign c => c == '-'
  | _ => false

theorem write_eq_cons (inner : Bool) (level : Nat) (e : Expression) :
    ∃ l ls, write inner level e = l :: ls ∧ isBeginning l = true := by
  match e with
  | .value v =>
    refine ⟨v.lexeme, [], by rw [write], ?_⟩
    cases v <;> rfl
  | .variable name => exact ⟨_, _, by rw [write], rfl⟩
  | .negate e => exact ⟨_, _, by rw [write], rfl⟩
  | .call f arguments => exact ⟨_, _, by rw [write, List.cons_append], rfl⟩
  | .operation op left right =>
    rw [write]
    split
    · exact ⟨_, _, by rw [List.cons_append], rfl⟩
    · obtain ⟨l, ls, heq, hl⟩ := write_eq_cons inner op.level left
      exact ⟨l, _, by rw [heq, List.cons_append], hl⟩

theorem writeAll_eq_cons (inner : Bool) (e : Expression) (rest : List Expression) :
    ∃ l ls, writeAll inner (e :: rest) = l :: ls ∧ isBeginning l = true := by
  obtain ⟨l, ls, heq, hl⟩ := write_eq_cons inner 0 e
  cases rest with
  | nil => exact ⟨l, ls, by rw [writeAll, heq], hl⟩
  | cons next rest =>
    refine ⟨l, ls ++ .comma :: writeAll inner (next :: rest), ?_, hl⟩
    rw [writeAll, heq, List.cons_append]
    exact nofun

/-! ## Reading -/

/-- No product goes on with these lexemes. -/
def EndsProduct (inner : Bool) (ls : List Lexeme) : Prop :=
  ls.head?.bind (productOperator? inner) = none

/-- No sum goes on with these lexemes. -/
def EndsSum (ls : List Lexeme) : Prop := ls.head?.bind sumOperator? = none

theorem readProductTail_of_ends {inner : Bool} {ls : List Lexeme} (h : EndsProduct inner ls)
    (e : Expression) {k : Nat} (hk : 0 < k) : readProductTail inner k e ls = some (e, ls) := by
  obtain ⟨k, rfl⟩ := Nat.exists_eq_add_of_lt hk
  cases ls with
  | nil => rw [Nat.zero_add, readProductTail]
  | cons l ls =>
    have none : productOperator? inner l = none := h
    rw [Nat.zero_add, readProductTail, none]

theorem readSumTail_of_ends {inner : Bool} {ls : List Lexeme} (h : EndsSum ls) (e : Expression)
    {k : Nat} (hk : 0 < k) : readSumTail inner k e ls = some (e, ls) := by
  obtain ⟨k, rfl⟩ := Nat.exists_eq_add_of_lt hk
  cases ls with
  | nil => rw [Nat.zero_add, readSumTail]
  | cons l ls =>
    have none : sumOperator? l = none := h
    rw [Nat.zero_add, readSumTail, none]

/-- Lexemes are read as a factor. -/
def ReadsFactor (inner : Bool) (w : List Lexeme) (e : Expression) : Prop :=
  ∀ n ls, 4 * w.length ≤ n + 1 → readFactor inner n (w ++ ls) = some (e, ls)

/-- Lexemes are read as the first part of a product: what the rest makes of it is read. -/
def ReadsProduct (inner : Bool) (w : List Lexeme) (e : Expression) : Prop :=
  ∀ m n ls r, (∀ k, m < k → readProductTail inner k e ls = some r) →
    m + 4 * w.length ≤ n → readProduct inner n (w ++ ls) = some r

/-- Lexemes are read as the first part of a sum. -/
def ReadsSum (inner : Bool) (w : List Lexeme) (e : Expression) : Prop :=
  ∀ m n ls r, EndsProduct inner ls → (∀ k, m < k → readSumTail inner k e ls = some r) →
    m + 4 * w.length < n → readSum inner n (w ++ ls) = some r

/-- Lexemes are read as the arguments of a call. -/
def ReadsArguments (inner : Bool) (w : List Lexeme) (es : List Expression) : Prop :=
  ∀ n ls, 4 * w.length + 1 < n → readArguments inner n (w ++ .closing :: ls) = some (es, ls)

variable {inner : Bool} {w v : List Lexeme} {e l r : Expression}

theorem ReadsFactor.length_pos (h : ReadsFactor inner w e) : 0 < w.length := by
  refine List.length_pos_iff.mpr ?_
  rintro rfl
  have := h 0 [] (Nat.zero_le 1)
  rw [readFactor] at this
  cases this

theorem ReadsFactor.product (h : ReadsFactor inner w e) : ReadsProduct inner w e := by
  intro m n ls r tail hn
  have hw := h.length_pos
  obtain ⟨n, rfl⟩ : ∃ n', n = n' + 1 := ⟨n - 1, by omega⟩
  rw [readProduct, h n ls (by omega)]
  exact tail n (by omega)

theorem ReadsProduct.alone (h : ReadsProduct inner w e) {n : Nat} {t : List Lexeme}
    (ends : EndsProduct inner t) (hn : 4 * w.length ≤ n) :
    readProduct inner n (w ++ t) = some (e, t) := by
  refine h 0 n t (e, t) ?_ (by omega)
  intro k hk
  exact readProductTail_of_ends ends e hk

theorem ReadsProduct.length_pos (h : ReadsProduct inner w e) : 0 < w.length := by
  refine List.length_pos_iff.mpr ?_
  rintro rfl
  have := h.alone (n := 0) (t := []) rfl (Nat.le_refl 0)
  rw [readProduct] at this
  cases this

theorem ReadsProduct.sum (h : ReadsProduct inner w e) : ReadsSum inner w e := by
  intro m n ls r ends tail hn
  have hw := h.length_pos
  obtain ⟨n, rfl⟩ : ∃ n', n = n' + 1 := ⟨n - 1, by omega⟩
  rw [readSum, h.alone ends (by omega)]
  exact tail n (by omega)

theorem ReadsSum.alone (h : ReadsSum inner w e) {n : Nat} {t : List Lexeme}
    (product : EndsProduct inner t) (sum : EndsSum t) (hn : 4 * w.length < n) :
    readSum inner n (w ++ t) = some (e, t) := by
  refine h 0 n t (e, t) product ?_ (by omega)
  intro k hk
  exact readSumTail_of_ends sum e hk

/-- A product goes on with an operator and a factor. -/
theorem ReadsProduct.operation {op : Operator} (left : ReadsProduct inner w l)
    (right : ReadsFactor inner v r) (hop : productOperator? inner (.sign op.sign) = some op) :
    ReadsProduct inner (w ++ .sign op.sign :: v) (.operation op l r) := by
  intro m n ls result tail hn
  rw [List.length_append, List.length_cons] at hn
  have hv := right.length_pos
  rw [List.append_assoc, List.cons_append]
  refine left (m + 4 * v.length) n _ result ?_ (by omega)
  intro k hk
  obtain ⟨k, rfl⟩ : ∃ k', k = k' + 1 := ⟨k - 1, by omega⟩
  have factor := right k ls (by omega)
  rw [readProductTail, hop]
  simp only [factor]
  exact tail k (by omega)

/-- A sum goes on with an operator and a product. -/
theorem ReadsSum.operation {op : Operator} (left : ReadsSum inner w l)
    (right : ReadsProduct inner v r) (hop : sumOperator? (.sign op.sign) = some op) :
    ReadsSum inner (w ++ .sign op.sign :: v) (.operation op l r) := by
  intro m n ls result ends tail hn
  rw [List.length_append, List.length_cons] at hn
  have hv := right.length_pos
  have stops : EndsProduct inner (.sign op.sign :: (v ++ ls)) := by
    cases op with
    | add => rfl
    | subtract => rfl
    | multiply => cases hop
    | divide => cases hop
  rw [List.append_assoc, List.cons_append]
  refine left (m + 4 * v.length) n _ result stops ?_ (by omega)
  intro k hk
  obtain ⟨k, rfl⟩ : ∃ k', k = k' + 1 := ⟨k - 1, by omega⟩
  have product := right.alone (n := k) ends (by omega)
  rw [readSumTail, hop]
  simp only [product]
  exact tail k (by omega)

/-- A sum in parentheses is a factor, and inside them a slash divides. -/
theorem ReadsSum.enclosed (h : ReadsSum true w e) :
    ReadsFactor inner (.opening :: w ++ [.closing]) e := by
  intro n ls hn
  simp only [List.cons_append, List.length_cons, List.length_append, List.length_nil] at hn ⊢
  obtain ⟨n, rfl⟩ : ∃ n', n = n' + 1 := ⟨n - 1, by omega⟩
  have sum := h.alone (n := n) (t := .closing :: ls) rfl rfl (by omega)
  rw [List.append_assoc, List.singleton_append, readFactor]
  simp only [sum]

theorem ReadsFactor.negate (h : ReadsFactor inner w e) :
    ReadsFactor inner (.sign '-' :: w) (.negate e) := by
  intro n ls hn
  rw [List.length_cons] at hn
  obtain ⟨n, rfl⟩ : ∃ n', n = n' + 1 := ⟨n - 1, by omega⟩
  rw [List.cons_append, readFactor]
  simp only [h n ls (by omega), Option.map_some]

/-- The last argument of a call. -/
theorem ReadsSum.arguments (h : ReadsSum inner w e) : ReadsArguments inner w [e] := by
  intro n ls hn
  obtain ⟨n, rfl⟩ : ∃ n', n = n' + 1 := ⟨n - 1, by omega⟩
  have sum := h.alone (n := n) (t := .closing :: ls) rfl rfl (by omega)
  rw [readArguments, sum]

theorem ReadsArguments.cons {es : List Expression} (first : ReadsSum inner w e)
    (rest : ReadsArguments inner v es) : ReadsArguments inner (w ++ .comma :: v) (e :: es) := by
  intro n ls hn
  rw [List.length_append, List.length_cons] at hn
  obtain ⟨n, rfl⟩ : ∃ n', n = n' + 1 := ⟨n - 1, by omega⟩
  have sum := first.alone (n := n) (t := .comma :: (v ++ .closing :: ls)) rfl rfl (by omega)
  have arguments := rest n ls (by omega)
  rw [List.append_assoc, List.cons_append, readArguments, sum]
  simp only [arguments, Option.map_some]

theorem reads_call_nil (f : Function) :
    ReadsFactor inner [.function f.name, .closing] (.call f []) := by
  intro n ls hn
  simp only [List.length_cons, List.length_nil] at hn
  obtain ⟨n, rfl⟩ : ∃ n', n = n' + 1 := ⟨n - 1, by omega⟩
  simp only [List.cons_append, List.nil_append, readFactor, Function.ofName?_name]

/-- A call with arguments.  It is told from one without by what the first argument begins
with. -/
theorem ReadsArguments.call {es : List Expression} (h : ReadsArguments inner w es)
    {first : Lexeme} {others : List Lexeme} (begins : w = first :: others)
    (hfirst : isBeginning first = true) (f : Function) :
    ReadsFactor inner (.function f.name :: w ++ [.closing]) (.call f es) := by
  intro n ls hn
  simp only [List.cons_append, List.length_cons, List.length_append, List.length_nil] at hn ⊢
  obtain ⟨n, rfl⟩ : ∃ n', n = n' + 1 := ⟨n - 1, by omega⟩
  have arguments := h n ls (by omega)
  subst begins
  simp only [List.append_assoc, List.cons_append, List.nil_append] at arguments ⊢
  cases first with
  | closing => cases hfirst
  | _ => simp only [readFactor, Function.ofName?_name, arguments, Option.map_some]

/-! ## Reading what is written -/

/-- An expression has a spelling for every level, and each is read as the expression where
it stands. -/
structure Reads (inner : Bool) (e : Expression) (spelling : Nat → List Lexeme) : Prop where
  factor : ReadsFactor inner (spelling 2) e
  product : ReadsProduct inner (spelling 1) e
  sum : ReadsSum inner (spelling 0) e

/-- A factor is read everywhere. -/
theorem ReadsFactor.reads (h : ReadsFactor inner w e) : Reads inner e fun _ => w :=
  ⟨h, h.product, h.product.sum⟩

theorem reads_value (v : Value) : ReadsFactor inner [v.lexeme] (.value v) := by
  intro n ls hn
  rw [List.length_singleton] at hn
  obtain ⟨n, rfl⟩ : ∃ n', n = n' + 1 := ⟨n - 1, by omega⟩
  cases v <;> rfl

theorem reads_variable (name : Text) : ReadsFactor inner [.variable name] (.variable name) := by
  intro n ls hn
  rw [List.length_singleton] at hn
  obtain ⟨n, rfl⟩ : ∃ n', n = n' + 1 := ⟨n - 1, by omega⟩
  rfl

/-- An operation without parentheses, if it can do without them where sums are read. -/
theorem reads_operation (op : Operator) (left : Reads inner l (write inner · l))
    (right : Reads inner r (write inner · r)) (bare : op.isEnclosed inner 0 = false) :
    (op.level = 1 → ReadsProduct inner
      (write inner op.level l ++ .sign op.sign :: write inner (op.level + 1) r)
      (.operation op l r)) ∧
    ReadsSum inner (write inner op.level l ++ .sign op.sign :: write inner (op.level + 1) r)
      (.operation op l r) := by
  cases op with
  | add => exact ⟨nofun, left.sum.operation right.product rfl⟩
  | subtract => exact ⟨nofun, left.sum.operation right.product rfl⟩
  | multiply =>
    have product : ReadsProduct inner _ (.operation .multiply l r) :=
      left.product.operation right.factor rfl
    exact ⟨fun _ => product, product.sum⟩
  | divide =>
    have hinner : inner = true := by simpa [Operator.isEnclosed] using bare
    subst hinner
    have product : ReadsProduct true _ (.operation .divide l r) :=
      left.product.operation right.factor rfl
    exact ⟨fun _ => product, product.sum⟩

mutual

theorem reads_write : ∀ (e : Expression) (inner : Bool), Reads inner e (write inner · e)
  | .value v, inner => by
    simp only [write]
    exact (reads_value v).reads
  | .variable name, inner => by
    simp only [write]
    exact (reads_variable name).reads
  | .negate e, inner => by
    simp only [write]
    exact (reads_write e inner).factor.negate.reads
  | .call f arguments, inner => by
    have all := reads_writeAll arguments inner
    simp only [write]
    cases arguments with
    | nil =>
      simp only [writeAll]
      exact (reads_call_nil f).reads
    | cons e rest =>
      obtain ⟨first, others, begins, hfirst⟩ := writeAll_eq_cons inner e rest
      exact ((all (List.cons_ne_nil e rest)).call begins hfirst f).reads
  | .operation op left right, inner => by
    have bare := reads_operation op (reads_write left inner) (reads_write right inner)
    have enclosed : ReadsFactor inner _ (.operation op left right) :=
      (reads_operation op (reads_write left true) (reads_write right true)
        (by cases op <;> rfl)).2.enclosed
    simp only [write]
    constructor
    · rw [if_pos (by cases op <;> rfl)]
      exact enclosed
    · cases h : op.isEnclosed inner 1 with
      | true =>
        rw [if_pos rfl]
        exact enclosed.product
      | false =>
        rw [if_neg Bool.false_ne_true]
        cases op with
        | add => cases h
        | subtract => cases h
        | multiply => exact (bare h).1 rfl
        | divide => exact (bare h).1 rfl
    · cases h : op.isEnclosed inner 0 with
      | true =>
        rw [if_pos rfl]
        exact enclosed.product.sum
      | false =>
        rw [if_neg Bool.false_ne_true]
        exact (bare h).2

theorem reads_writeAll : ∀ (es : List Expression) (inner : Bool), es ≠ [] →
    ReadsArguments inner (writeAll inner es) es
  | [], _, nonempty => absurd rfl nonempty
  | [e], inner, _ => by
    rw [writeAll]
    exact (reads_write e inner).sum.arguments
  | e :: next :: rest, inner, _ => by
    have others := reads_writeAll (next :: rest) inner (List.cons_ne_nil next rest)
    rw [writeAll]
    · exact others.cons (reads_write e inner).sum
    · exact nofun

end

/-- What is written is read again, whatever stands behind it, if no operation goes on from
there. -/
theorem readFrom?_write (inner : Bool) (e : Expression) {t : List Lexeme}
    (product : EndsProduct inner t) (sum : EndsSum t) :
    readFrom? inner (write inner 0 e ++ t) = some (e, t) := by
  refine (reads_write e inner).sum.alone product sum ?_
  rw [readingDepth, List.length_append]
  omega

/-- Outside parentheses a division gets some, and a sum that it divides keeps its own. -/
example : write false 0 (.operation .divide (.operation .add (.variable "a") (.variable "b"))
      (.variable "c")) =
    [.opening, .opening, .variable "a", .sign '+', .variable "b", .closing, .sign '/',
      .variable "c", .closing] :=
  rfl

end Expression

end StyleTypings.Less
