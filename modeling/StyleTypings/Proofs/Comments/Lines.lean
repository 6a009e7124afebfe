/-
Lines — what is left of a text stays on its lines.

A line feed is always left, whatever mode the reader is in: also inside strings, comments and
addresses, and where it is escaped or ends a comment.  Any other character is kept, or removed, or
has a space put in its place (`Leaves`).  So the lines of what is left lie over the lines of the
text (`Goes.lines`), and whatever is left and is no space stands on the line it has come from
(`exists_comesFrom`).

A node has the line of the character it begins with, and this is no space.  So its line is the line
of the text that this character comes from (`strip_lines`), and comments, however many lines they
take up, do not move what is reported.
-/
import StyleTypings.Proofs.Comments.Runs
import StyleTypings.Proofs.Places

namespace StyleTypings.Less.Comment

/-! ## Characters -/

/-- What can be left of a character. -/
inductive Leaves (c : Char) : Text → Prop where
  | kept : Leaves c [c]
  | removed (feed : c ≠ '\n') : Leaves c []
  | replaced (feed : c ≠ '\n') : Leaves c [' ']

/-- In the middle of a mark, the rest of the mark comes next. -/
def Mode.Meets (t : Text) : Mode → Prop
  | .opening _ => t.head? = some '*'
  | .closing => t.head? = some '/'
  | _ => True

theorem meets_after (m : Mode) (line : Nat) (before c : Char) (t : Text) :
    (m.after line before c t).Meets t := by
  cases m with
  | plain =>
    rw [Mode.after]
    generalize Mode.afterPlain line before c t = m, begins_afterPlain line before c t = begins
    cases begins with
    | block slash star => exact star
    | string | escape | line | address | nothing => trivial
  | block start =>
    rw [Mode.after]
    split_ifs with ends
    · rw [Bool.and_eq_true, beq_iff_eq] at ends
      exact ends.2
    · trivial
  | string | line | address =>
    rw [Mode.after]
    split_ifs <;> trivial
  | escaped | stringEscaped | opening | closing => trivial

theorem Mode.Meets.leaves {m : Mode} {c : Char} {t : Text} (h : m.Meets (c :: t)) (line : Nat)
    (before : Char) : Leaves c (written c m (m.after line before c t)) := by
  cases m with
  | plain =>
    by_cases removes : (Mode.afterPlain line before c t).Removes
    · obtain ⟨rfl, nothing⟩ := (begins_afterPlain line before c t).removes removes
      rw [Mode.after, nothing]
      exact .removed (by decide)
    · rw [Mode.after, written_plain removes]
      exact .kept
  | opening =>
    cases h
    exact .removed (by decide)
  | closing =>
    cases h
    exact .replaced (by decide)
  | block | line =>
    rw [written]
    split_ifs with feed
    · rw [feed]
      exact .kept
    · exact .removed feed
  | escaped | string | stringEscaped | address => exact .kept

/-! ## Lines -/

/-- A text with spaces put into it. -/
inductive Spaced : Text → Text → Prop where
  | nil : Spaced [] []
  | kept {v u : Text} (c : Char) (later : Spaced v u) : Spaced (c :: v) (c :: u)
  | space {v u : Text} (later : Spaced v u) : Spaced v (' ' :: u)

/-- What is left of a line: some of its characters, in their order, and spaces. -/
def Thinned (line left : Text) : Prop := ∃ kept, kept.Sublist line ∧ Spaced kept left

theorem Leaves.thinned {c : Char} {v line left : Text} (h : Leaves c v)
    (thinned : Thinned line left) : Thinned (c :: line) (v ++ left) := by
  obtain ⟨kept, sublist, spaced⟩ := thinned
  cases h with
  | kept => exact ⟨c :: kept, sublist.cons_cons c, spaced.kept c⟩
  | removed => exact ⟨kept, sublist.cons c, spaced⟩
  | replaced => exact ⟨kept, sublist.cons c, spaced.space⟩

/-- The lines of texts, one over the other. -/
def LinesThinned (t left : Text) : Prop :=
  List.Forall₂ Thinned (t.splitOn '\n') (left.splitOn '\n')

theorem splitOn_cons_of_ne {c : Char} (feed : c ≠ '\n') {t line : Text} {lines : List Text}
    (h : t.splitOn '\n' = line :: lines) : (c :: t).splitOn '\n' = (c :: line) :: lines := by
  rw [List.splitOn_cons_eq_if_modifyHead, if_neg (by simpa using feed), h, List.modifyHead_cons]

theorem splitOn_cons_feed (t : Text) : ('\n' :: t).splitOn '\n' = [] :: t.splitOn '\n' :=
  (List.splitOn_cons_eq_if_modifyHead _ _).trans (if_pos rfl)

theorem Leaves.lines {c : Char} {v t left : Text} (h : Leaves c v) (lines : LinesThinned t left) :
    LinesThinned (c :: t) (v ++ left) := by
  by_cases feed : c = '\n'
  · subst feed
    cases h with
    | kept =>
      rw [LinesThinned, List.singleton_append, splitOn_cons_feed, splitOn_cons_feed]
      exact .cons ⟨[], List.Sublist.slnil, .nil⟩ lines
    | removed feed | replaced feed => exact absurd rfl feed
  · obtain ⟨line, others, ht⟩ := List.exists_cons_of_ne_nil (List.splitOn_ne_nil '\n' t)
    obtain ⟨first, rest, hleft⟩ := List.exists_cons_of_ne_nil (List.splitOn_ne_nil '\n' left)
    have whole : (v ++ left).splitOn '\n' = (v ++ first) :: rest := by
      cases h with
      | kept => exact splitOn_cons_of_ne feed hleft
      | removed => exact hleft
      | replaced => exact splitOn_cons_of_ne (by decide) hleft
    rw [LinesThinned, ht, hleft] at lines
    rw [LinesThinned, splitOn_cons_of_ne feed ht, whole]
    cases lines with
    | cons thinned later => exact .cons (h.thinned thinned) later

theorem LinesThinned.count_eq {t left : Text} (h : LinesThinned t left) :
    left.count '\n' = t.count '\n' := by
  have lengths := List.Forall₂.length_eq h
  rw [Text.length_splitOn, Text.length_splitOn] at lengths
  exact (Nat.succ.inj lengths).symm

/-! ## Runs -/

section

variable {p q : Place} {a u : Text}

theorem Goes.lines (h : Goes p a u q) (meets : p.mode.Meets p.rest) : LinesThinned a u := by
  induction h with
  | stop => exact .cons ⟨[], List.Sublist.slnil, .nil⟩ .nil
  | @next p q c rest a u here later ih =>
    rw [here] at meets
    exact (meets.leaves p.line p.before).lines (ih (meets_after _ _ _ _ _))

/-- What is left and is no space has been kept somewhere. -/
theorem Goes.exists_kept (h : Goes p a u q) (meets : p.mode.Meets p.rest) {v x : Text} {c : Char}
    (whole : u = v ++ c :: x) (space : c ≠ ' ') :
    ∃ a' r b, Goes p a' v r ∧ r.rest = c :: b ∧ r.leaves c b = [c] := by
  induction h generalizing v with
  | stop => simp at whole
  | @next p q d rest a u here later ih =>
    rw [here] at meets
    have next := meets_after p.mode p.line p.before d rest
    -- Behind what is left of the first character, the place is found in the rest.
    have behind {v' : Text} (rest' : u = v' ++ c :: x) :
        ∃ a' r b, Goes p a' (p.leaves d rest ++ v') r ∧ r.rest = c :: b ∧ r.leaves c b = [c] := by
      obtain ⟨a', r, b, goes, there⟩ := ih next rest'
      exact ⟨d :: a', r, b, .next here goes, there⟩
    have leaves : Leaves d (p.leaves d rest) := meets.leaves p.line p.before
    generalize hw : p.leaves d rest = w at leaves whole behind
    cases leaves with
    | removed => exact behind whole
    | kept =>
      cases v with
      | nil =>
        cases whole
        exact ⟨[], p, rest, .stop p, here, hw⟩
      | cons e v =>
        obtain ⟨rfl, rest'⟩ := List.cons.inj whole
        exact behind rest'
    | replaced =>
      cases v with
      | nil => exact absurd (List.cons.inj whole).1.symm space
      | cons e v =>
        obtain ⟨rfl, rest'⟩ := List.cons.inj whole
        exact behind rest'

end

/-! ## The whole text -/

/-- What is left of `t` goes on with a character behind `left`, and this character stands in `t`
behind `a`. -/
def ComesFrom (t left : Text) (c : Char) (a : Text) : Prop :=
  ∃ q b, Goes (.start t) a left q ∧ q.rest = c :: b ∧ q.leaves c b = [c]

/-- A node of what is left of `t` stands at a place of it, and has the line where the character
there comes from. -/
structure Traced (t left : Text) (head : Nat × Text) (place : Text × Char) : Prop where
  stands : Reading.Stands left head place
  line : ∃ a, ComesFrom t place.1 place.2 a ∧ head.1 = 1 + a.count '\n'

/-- What is left of a text has as many line feeds, its lines are the lines of the text with
characters removed and spaces put in, and a node in it has the line of the text that the
character comes from with which the node begins. -/
theorem strip_lines {t u : Text} (h : strip t = .ok u) :
    u.count '\n' = t.count '\n' ∧ List.Forall₂ Thinned (t.splitOn '\n') (u.splitOn '\n') ∧
      ∀ nodes, readNodes u = .ok nodes →
        List.Forall₂ (Traced t u) (headsOf nodes) (Reading.places u) := by
  obtain ⟨q, goes, -⟩ := exists_goes (p := .start t) h
  have lines := goes.lines trivial
  refine ⟨lines.count_eq, lines, fun nodes read => ?_⟩
  refine (stands_readNodes read).imp fun head place stands => ⟨stands, ?_⟩
  obtain ⟨x, whole⟩ := stands.within
  have space : place.2 ≠ ' ' := by
    intro same
    have ink := stands.ink
    rw [same] at ink
    cases ink
  obtain ⟨a, r, b, before, here, kept⟩ := goes.exists_kept trivial
    (whole.symm.trans (List.append_cons _ _ _).symm) space
  refine ⟨a, ⟨r, b, before, here, kept⟩, ?_⟩
  rw [stands.line, (before.lines trivial).count_eq]

/-- Line feeds in comments, behind a backslash, in a string and in an address. -/
theorem strip_lines_everywhere :
    strip "/*\n*/.a//b\n\x7b c\\\n: d/**/ 'e\n';/*\n\n*/ f: url(\n) \x7d" =
        .ok "\n .a\n\x7b c\\\n: d  'e\n';\n\n  f: url(\n) \x7d" ∧
      readNodes "\n .a\n\x7b c\\\n: d  'e\n';\n\n  f: url(\n) \x7d" =
        .ok [.block 2 ".a" [.statement 3 "c\\ : d 'e '", .statement 7 "f: url( )"]] ∧
      List.Forall₂ Thinned
        ["/*", "*/.a//b", "\x7b c\\", ": d/**/ 'e", "';/*", "", "*/ f: url(", ") \x7d"]
        ["", " .a", "\x7b c\\", ": d  'e", "';", "", "  f: url(", ") \x7d"] ∧
      List.Forall₂
        (Traced "/*\n*/.a//b\n\x7b c\\\n: d/**/ 'e\n';/*\n\n*/ f: url(\n) \x7d"
          "\n .a\n\x7b c\\\n: d  'e\n';\n\n  f: url(\n) \x7d")
        [(2, ".a"), (3, "c\\ : d 'e '"), (7, "f: url( )")]
        [("\n ", '.'), ("\n .a\n\x7b ", 'c'), ("\n .a\n\x7b c\\\n: d  'e\n';\n\n  ", 'f')] := by
  have left : strip "/*\n*/.a//b\n\x7b c\\\n: d/**/ 'e\n';/*\n\n*/ f: url(\n) \x7d" =
      .ok "\n .a\n\x7b c\\\n: d  'e\n';\n\n  f: url(\n) \x7d" := rfl
  have read : readNodes "\n .a\n\x7b c\\\n: d  'e\n';\n\n  f: url(\n) \x7d" =
      .ok [.block 2 ".a" [.statement 3 "c\\ : d 'e '", .statement 7 "f: url( )"]] := rfl
  obtain ⟨-, lines, nodes⟩ := strip_lines left
  exact ⟨left, read, lines, nodes _ read⟩

end StyleTypings.Less.Comment
