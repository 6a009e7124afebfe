/-
Runs — how far the reader of comments has come, and what it has left.

What becomes of a character depends on what follows it, so where the reader stands is a mode, a
line, the character before, and all that is still to be read (`Place`).  It goes over a text from
one place to another and leaves something of the text behind (`Goes`).  What is left of a whole
text is what a run over its beginning leaves, and behind it what is left from there on
(`Goes.strip_eq`).

Lines matter only to what is reported: texts that are read in modes which differ in nothing but
the lines where something has begun are left alike (`stripFrom_of_alike`).
-/
import StyleTypings.Proofs.Comments.Stripping
import StyleTypings.Proofs.Failures

namespace StyleTypings.Less.Comment

/-! ## Places -/

/-- Where the reader stands. -/
structure Place where
  mode : Mode
  line : Nat
  before : Char
  rest : Text

namespace Place

/-- The beginning of a text. -/
def start (t : Text) : Place := ⟨.plain, 1, ' ', t⟩

/-- What is left of the text from here on. -/
def strip (p : Place) : Except Flaw Text := stripFrom p.mode p.line p.before p.rest

/-- The place behind the next character, with the rest of the text behind that. -/
def after (p : Place) (c : Char) (rest : Text) : Place where
  mode := p.mode.after p.line p.before c rest
  line := if c = '\n' && p.mode.counts then p.line + 1 else p.line
  before := c
  rest := rest

/-- What is left of the next character. -/
def leaves (p : Place) (c : Char) (rest : Text) : Text :=
  written c p.mode (p.mode.after p.line p.before c rest)

variable {p : Place} {c : Char} {rest : Text}

theorem strip_of_rest (here : p.rest = c :: rest) :
    p.strip = (p.after c rest).strip.map (p.leaves c rest ++ ·) := by
  rw [strip, here, stripFrom]
  rfl

end Place

/-! ## Runs -/

/-- From one place the reader goes over a text to another place, and leaves something of it. -/
inductive Goes : Place → Text → Text → Place → Prop where
  | stop (p : Place) : Goes p [] [] p
  | next {p q : Place} {c : Char} {rest a u : Text} (here : p.rest = c :: rest)
    (later : Goes (p.after c rest) a u q) : Goes p (c :: a) (p.leaves c rest ++ u) q

namespace Goes

variable {p q r : Place} {c : Char} {rest a b u v w : Text}

theorem rest_eq (h : Goes p a u q) : p.rest = a ++ q.rest := by
  induction h with
  | stop => rfl
  | next here _ ih =>
    rw [here, List.cons_append, ← ih]
    rfl

/-- What is left of the whole is what a run leaves and what is left behind it. -/
theorem strip_eq (h : Goes p a u q) : p.strip = q.strip.map (u ++ ·) := by
  induction h with
  | stop p => cases h : p.strip <;> simp [Except.map]
  | @next p q c rest a u here later ih =>
    rw [Place.strip_of_rest here, ih]
    cases q.strip <;> simp [Except.map]

theorem single (here : p.rest = c :: rest) : Goes p [c] (p.leaves c rest) (p.after c rest) := by
  rw [← List.append_nil (p.leaves c rest)]
  exact .next here (.stop _)

theorem trans (h : Goes p a u q) (h' : Goes q b v r) : Goes p (a ++ b) (u ++ v) r := by
  induction h with
  | stop => exact h'
  | next here _ ih =>
    rw [List.append_assoc]
    exact .next here (ih h')

/-- A character that is kept, and what comes behind it, wherever the line. -/
theorem kept {m n : Mode} {line : Nat} {before : Char} {P : Place → Prop}
    (next : m.after line before c rest = n) (copied : written c m n = [c])
    (later : ∀ line, ∃ q, Goes ⟨n, line, c, rest⟩ a u q ∧ P q) :
    ∃ q, Goes ⟨m, line, before, c :: rest⟩ (c :: a) (c :: u) q ∧ P q := by
  subst next
  obtain ⟨q, goes, hq⟩ := later (if c = '\n' && m.counts then line + 1 else line)
  have left : Place.leaves ⟨m, line, before, c :: rest⟩ c rest = [c] := copied
  have whole := Goes.next (p := ⟨m, line, before, c :: rest⟩) rfl goes
  rw [left] at whole
  exact ⟨q, whole, hq⟩

/-- A run over one text after another stops between them. -/
theorem split (h : Goes p (a ++ b) w r) :
    ∃ u v q, Goes p a u q ∧ Goes q b v r ∧ w = u ++ v := by
  induction a generalizing p w with
  | nil => exact ⟨[], w, p, .stop p, h, rfl⟩
  | cons c a ih =>
    cases h with
    | next here later =>
      obtain ⟨u, v, q, first, second, rfl⟩ := ih later
      exact ⟨_, v, q, .next here first, second, (List.append_assoc _ _ _).symm⟩

/-- A character behind a run. -/
theorem snoc (h : Goes p a u q) (here : q.rest = c :: rest) :
    Goes p (a ++ [c]) (u ++ q.leaves c rest) (q.after c rest) :=
  h.trans (.single here)

/-- The last character of a run. -/
theorem last (h : Goes p (a ++ [c]) u q) :
    ∃ v r rest, Goes p a v r ∧ r.rest = c :: rest ∧ q = r.after c rest := by
  obtain ⟨v, w, r, first, second, -⟩ := h.split
  cases second with
  | next here later =>
    cases later
    exact ⟨v, r, _, first, here, rfl⟩

end Goes

/-- What is left of a text that comes next, and the place behind it. -/
def Place.read (p : Place) : Text → Option (Text × Place)
  | [] => some ([], p)
  | c :: a =>
    match p.rest with
    | [] => none
    | d :: rest =>
      if d = c then ((p.after c rest).read a).map fun (u, q) => (p.leaves c rest ++ u, q)
      else none

/-- There is one way to go over a text, and it can be computed. -/
theorem goes_iff {p q : Place} {a u : Text} : Goes p a u q ↔ p.read a = some (u, q) := by
  constructor
  · intro h
    induction h with
    | stop => rfl
    | next here _ ih =>
      rw [Place.read, here]
      simp [ih]
  · intro h
    induction a generalizing p u with
    | nil =>
      cases h
      exact .stop _
    | cons c a ih =>
      rw [Place.read] at h
      split at h
      · cases h
      · rename_i d rest here
        split_ifs at h with same
        subst same
        obtain ⟨⟨v, r⟩, later, whole⟩ := Option.map_eq_some_iff.mp h
        cases whole
        exact .next here (ih later)

/-- If something is left of a text, the reader goes over all of it. -/
theorem exists_goes {p : Place} {u : Text} (h : p.strip = .ok u) :
    ∃ q, Goes p p.rest u q ∧ q.rest = [] := by
  obtain ⟨m, line, before, t⟩ := p
  induction t generalizing m line before u with
  | nil =>
    have nothing : m.atEnd = .ok u := h
    obtain rfl : u = [] := by
      cases m <;> cases nothing <;> rfl
    exact ⟨_, .stop _, rfl⟩
  | cons c t ih =>
    rw [Place.strip_of_rest rfl] at h
    obtain ⟨v, hv, rfl⟩ := ok_of_map h
    obtain ⟨q, later, done⟩ := ih _ _ _ hv
    exact ⟨q, .next rfl later, done⟩

/-! ## Lines -/

/-- Modes that differ at most in the line where something has begun. -/
inductive Mode.Alike : Mode → Mode → Prop where
  | same (m : Mode) : Alike m m
  | string (quote : Char) (start start' : Nat) : Alike (.string quote start) (.string quote start')
  | stringEscaped (quote : Char) (start start' : Nat) :
    Alike (.stringEscaped quote start) (.stringEscaped quote start')
  | opening (start start' : Nat) : Alike (.opening start) (.opening start')
  | block (start start' : Nat) : Alike (.block start) (.block start')

theorem alike_afterPlain (line line' : Nat) (before c : Char) (t : Text) :
    Mode.Alike (Mode.afterPlain line before c t) (Mode.afterPlain line' before c t) := by
  unfold Mode.afterPlain
  split_ifs
  · exact .string c line line'
  · exact .same _
  · exact .opening line line'
  · exact .same _
  · exact .same _
  · exact .same _

theorem Mode.Alike.after {m m' : Mode} (h : m.Alike m') (line line' : Nat) (before c : Char)
    (t : Text) : (m.after line before c t).Alike (m'.after line' before c t) := by
  cases h with
  | same m =>
    cases m with
    | plain => exact alike_afterPlain line line' before c t
    | escaped | string | stringEscaped | opening | block | closing | line | address => exact .same _
  | string quote start start' =>
    rw [Mode.after, Mode.after]
    split_ifs
    · exact .stringEscaped quote start start'
    · exact .same _
    · exact .string quote start start'
  | stringEscaped quote start start' => exact .string quote start start'
  | opening start start' => exact .block start start'
  | block start start' =>
    rw [Mode.after, Mode.after]
    split_ifs
    · exact .same _
    · exact .block start start'

theorem Mode.Alike.written_eq {m m' n n' : Mode} (h : m.Alike m') (h' : n.Alike n') (c : Char) :
    written c m' n' = written c m n := by
  cases h with
  | same m => cases m <;> cases h' <;> rfl
  | string | stringEscaped | opening | block => rfl

theorem stripFrom_of_alike {m m' : Mode} (h : m.Alike m') {line : Nat} (line' : Nat) {before : Char}
    {t u : Text} (left : stripFrom m line before t = .ok u) :
    stripFrom m' line' before t = .ok u := by
  induction t generalizing m m' line before u line' with
  | nil =>
    cases h with
    | same => exact left
    | string | stringEscaped | opening | block => cases left
  | cons c t ih =>
    obtain ⟨place, v, rest, rfl⟩ := stripFrom_cons_eq_ok left
    have next := h.after line line' before c t
    rw [stripFrom, ih next _ rest, h.written_eq next]
    rfl

end StyleTypings.Less.Comment
