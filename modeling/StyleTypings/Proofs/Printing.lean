/-
Printing — a style sheet printed from its nodes, and read again.

Nodes are printed on one line: a statement with a semicolon behind it, a block as its
prelude and its body in braces.  Reading what was printed gives the same nodes, all of them
on the first line (`readNodes_print`).

The texts of nodes are not what stood in the source, since blanks are collapsed in them,
also inside strings, parentheses and interpolations.  What matters is that the reader comes
through a collapsed text the same way (`runs_collapse`): a run of blanks changes its mode
as one space does, and blanks at the ends of a piece change nothing that counts.  A blank
that is escaped is the exception.  At the end of a piece it goes, and the backslash before
it then escapes what ends the piece; so nothing is said of sources where a backslash stands
before a blank, or at the very end.
-/
import StyleTypings.Proofs.Cutting

namespace StyleTypings.Less

/-! ## Printed nodes -/

mutual

/-- A node on one line. -/
def Node.print {ι : Type} : Node ι → Text
  | .statement _ text => text ++ [';']
  | .block _ prelude body => prelude ++ [' ', '\x7b'] ++ printNodes body ++ ['\x7d']
  | .imported _ _ nodes => printNodes nodes

def printNodes {ι : Type} : List (Node ι) → Text
  | [] => []
  | n :: rest => n.print ++ printNodes rest

end

mutual

/-- A node with every line replaced by one. -/
def Node.onLine {ι : Type} (line : Nat) : Node ι → Node Nat
  | .statement _ text => .statement line text
  | .block _ prelude body => .block line prelude (nodesOnLine line body)
  | .imported file reference nodes => .imported file reference (nodesOnLine line nodes)

def nodesOnLine {ι : Type} (line : Nat) : List (Node ι) → List (Node Nat)
  | [] => []
  | n :: rest => n.onLine line :: nodesOnLine line rest

end

section

variable {ι : Type}

theorem printNodes_append (nodes rest : List (Node ι)) :
    printNodes (nodes ++ rest) = printNodes nodes ++ printNodes rest := by
  induction nodes with
  | nil => rw [printNodes]; rfl
  | cons n nodes ih => rw [List.cons_append, printNodes, printNodes, ih, List.append_assoc]

theorem printNodes_singleton (n : Node ι) : printNodes [n] = n.print := by
  rw [printNodes, printNodes, List.append_nil]

theorem nodesOnLine_append (line : Nat) (nodes rest : List (Node ι)) :
    nodesOnLine line (nodes ++ rest) = nodesOnLine line nodes ++ nodesOnLine line rest := by
  induction nodes with
  | nil => rw [nodesOnLine]; rfl
  | cons n nodes ih => rw [List.cons_append, nodesOnLine, nodesOnLine, ih, List.cons_append]

theorem nodesOnLine_reverse (line : Nat) (nodes : List (Node ι)) :
    nodesOnLine line nodes.reverse = (nodesOnLine line nodes).reverse := by
  induction nodes with
  | nil => rw [List.reverse_nil, nodesOnLine]; rfl
  | cons n nodes ih =>
    rw [List.reverse_cons, nodesOnLine_append, ih, nodesOnLine, nodesOnLine, nodesOnLine,
      List.reverse_cons]

end

/-! ## Printed pieces -/

def Piece.print : Piece → Text
  | .statement _ text => text ++ [';']
  | .opening _ prelude => prelude ++ [' ', '\x7b']
  | .closing _ => ['\x7d']

def Piece.onLine (line : Nat) : Piece → Piece
  | .statement _ text => .statement line text
  | .opening _ prelude => .opening line prelude
  | .closing _ => .closing line

/-- What has been read of the blocks that are still open, and of the nodes after the last
opening brace, printed. -/
def printOpened (nodes : List (Node Nat)) : List OpenBlock → Text
  | [] => printNodes nodes.reverse
  | o :: opened =>
    printOpened o.before opened ++ (o.prelude ++ [' ', '\x7b']) ++ printNodes nodes.reverse

theorem printOpened_cons (n : Node Nat) (nodes : List (Node Nat)) (opened : List OpenBlock) :
    printOpened (n :: nodes) opened = printOpened nodes opened ++ n.print := by
  cases opened with
  | nil => rw [printOpened, List.reverse_cons, printNodes_append, printNodes_singleton, printOpened]
  | cons o opened =>
    rw [printOpened, List.reverse_cons, printNodes_append, printNodes_singleton, printOpened,
      List.append_assoc _ _ n.print]

/-- Nodes are printed as the pieces are that they were made of. -/
theorem printNodes_nodesOfPieces {flaw : Option Flaw} {opened : List OpenBlock}
    {nodes result : List (Node Nat)} {ps : List Piece}
    (h : nodesOfPieces flaw opened nodes ps = .ok result) :
    printNodes result = printOpened nodes opened ++ ps.flatMap Piece.print := by
  fun_induction nodesOfPieces flaw opened nodes ps with
  | case1 => cases h
  | case2 => cases h
  | case3 nodes =>
    cases h
    rw [printOpened, List.flatMap_nil, List.append_nil]
  | case4 opened nodes line text rest ih =>
    rw [ih h, printOpened_cons, Node.print, List.flatMap_cons, Piece.print, List.append_assoc]
  | case5 opened nodes line prelude rest ih =>
    rw [ih h, printOpened, List.flatMap_cons, Piece.print, List.reverse_nil, printNodes,
      List.append_nil, List.append_assoc]
  | case6 => cases h
  | case7 o opened nodes line rest ih =>
    rw [ih h, printOpened_cons, printOpened, Node.print, List.flatMap_cons, Piece.print]
    simp only [List.append_assoc]

/-- The braces match whatever the lines are. -/
theorem nodesOfPieces_onLine {flaw : Option Flaw} {opened : List OpenBlock}
    {nodes result : List (Node Nat)} {ps : List Piece} (line : Nat)
    (h : nodesOfPieces flaw opened nodes ps = .ok result) :
    nodesOfPieces flaw
      (opened.map fun o => ⟨line, o.prelude, nodesOnLine line o.before⟩)
      (nodesOnLine line nodes) (ps.map (Piece.onLine line)) = .ok (nodesOnLine line result) := by
  fun_induction nodesOfPieces flaw opened nodes ps with
  | case1 => cases h
  | case2 => cases h
  | case3 nodes none =>
    cases h
    subst none
    rw [nodesOnLine_reverse]
    rfl
  | case4 opened nodes line' text rest ih =>
    have here := ih h
    rw [nodesOnLine, Node.onLine] at here
    exact here
  | case5 opened nodes line' prelude rest ih =>
    have here := ih h
    rw [nodesOnLine] at here
    exact here
  | case6 => cases h
  | case7 o opened nodes line' rest ih =>
    have here := ih h
    rw [nodesOnLine, Node.onLine, nodesOnLine_reverse] at here
    exact here

theorem flaw_eq_none {flaw : Option Flaw} {opened : List OpenBlock}
    {nodes result : List (Node Nat)} {ps : List Piece}
    (h : nodesOfPieces flaw opened nodes ps = .ok result) : flaw = none := by
  fun_induction nodesOfPieces flaw opened nodes ps with
  | case1 => cases h
  | case2 => cases h
  | case3 _ none => exact none
  | case4 _ _ _ _ _ ih => exact ih h
  | case5 _ _ _ _ _ ih => exact ih h
  | case6 => cases h
  | case7 _ _ _ _ _ ih => exact ih h

/-! ## Texts of pieces -/

namespace Reading

/-- A text that a piece can have: it is collapsed, and everything that it begins ends in
it. -/
structure Smooth (x : Text) : Prop where
  collapsed : Text.collapse x = x
  ends : ∃ m : Mode, m.settled = .plain ∧ runs x = some (m, 0)

/-- The text between two cuts is smooth once it is collapsed. -/
theorem smooth_collapse {t : Text} {m : Mode} (h : runs t = some (m, 0))
    (settled : m.settled = .plain) : Smooth (Text.collapse t) := by
  obtain ⟨⟨m', parens⟩, collapses⟩ := runs_collapse h
  refine ⟨Text.collapse_collapse t, m', ?_⟩
  cases word : Text.endsInWord t with
  | true =>
    cases collapses.word word
    exact ⟨settled, collapses.runs⟩
  | false =>
    obtain ⟨-, here⟩ := collapses.blank word
    cases here
    rw [Mode.settled_settled] at settled
    exact ⟨settled, collapses.runs⟩

/-- There is one line in a smooth text. -/
theorem Smooth.no_newline {x : Text} (h : Smooth x) : '\n' ∉ x := by
  intro hmem
  rw [← h.collapsed] at hmem
  cases Text.eq_space_of_mem_collapse hmem (by decide)

/-- The texts of a piece are smooth, and a statement has one. -/
def SmoothPiece : Piece → Prop
  | .statement _ text => text ≠ [] ∧ Smooth text
  | .opening _ prelude => Smooth prelude
  | .closing _ => True

/-! ## The first reading -/

/-- Every backslash stands before a character that is not blank. -/
def Solid (t : Text) : Prop :=
  ∀ i (hi : i < t.length), t[i] = '\\' → t[i + 1]?.any (! isBlank ·) = true

instance : DecidablePred Solid := fun t =>
  inferInstanceAs (Decidable (∀ i (hi : i < t.length), t[i] = '\\' →
    t[i + 1]?.any (! isBlank ·) = true))

theorem Solid.tail {c : Char} {t : Text} (h : Solid (c :: t)) : Solid t := by
  intro i hi backslash
  exact h (i + 1) (Nat.succ_lt_succ hi) backslash

/-- What has been cut off is smooth, and the current piece explains the state. -/
structure Sound (p : Progress) : Prop where
  pieces : ∀ q ∈ p.pieces, SmoothPiece q
  current : runs p.current.reverse = some p.state

theorem sound_initial : Sound .initial := ⟨List.forall_mem_nil _, rfl⟩

theorem Sound.smooth {p : Progress} (h : Sound p) (settled : p.mode.settled = .plain)
    (parens : p.parens = 0) : Smooth (Text.collapse p.current.reverse) := by
  have current := h.current
  rw [Progress.state, parens] at current
  exact smooth_collapse current settled

theorem Sound.flushed {p : Progress} (h : Sound p) (settled : p.mode.settled = .plain)
    (parens : p.parens = 0) : ∀ q ∈ p.flushed, SmoothPiece q := by
  rw [Progress.flushed]
  split
  · exact h.pieces
  · rename_i some
    refine List.forall_mem_cons.mpr ⟨⟨?_, h.smooth settled parens⟩, h.pieces⟩
    intro none
    exact some (by rw [none]; rfl)

theorem Sound.located {p : Progress} (h : Sound p) (c : Char) : Sound (p.located c) :=
  ⟨h.pieces, h.current⟩

theorem Sound.step {p : Progress} (h : Sound p) {c : Char}
    (solid : p.mode.isEscape = true → isBlank c = false) : Sound (p.step c) := by
  rw [Progress.step_eq solid]
  cases hafter : after p.state c with
  | some s =>
    refine ⟨h.pieces, ?_⟩
    rw [Progress.moved, List.reverse_cons, runs_append]
    exact (congrArg (Option.bind · (after · c)) h.current).trans hafter
  | none =>
    obtain ⟨settled, parens, -⟩ := outside_of_after_eq_none hafter solid
    refine ⟨?_, ?_⟩
    · rw [Progress.moved, Progress.cut]
      dsimp only
      split
      · exact List.forall_mem_cons.mpr ⟨(h.located c).smooth settled parens, h.pieces⟩
      · split
        · exact List.forall_mem_cons.mpr ⟨trivial, (h.located c).flushed settled parens⟩
        · exact (h.located c).flushed settled parens
    · rw [Progress.moved]
      exact congrArg (fun n => some (Mode.plain, n)) parens.symm

theorem isEscape_step {p : Progress} {c : Char}
    (solid : p.mode.isEscape = true → isBlank c = false)
    (escape : (p.step c).mode.isEscape = true) : c = '\\' := by
  rw [Progress.step_eq solid] at escape
  cases hafter : after p.state c with
  | some s =>
    rw [hafter] at escape
    exact (mode_after hafter).2 escape
  | none =>
    rw [hafter] at escape
    cases escape

theorem Sound.foldl {t : Text} (solid : Solid t) {p : Progress} (h : Sound p)
    (escaped : p.mode.isEscape = true → t[0]?.any (! isBlank ·) = true) :
    Sound (t.foldl Progress.step p) ∧ (t.foldl Progress.step p).mode.isEscape = false := by
  induction t generalizing p with
  | nil =>
    refine ⟨h, ?_⟩
    rw [← Bool.not_eq_true]
    intro escape
    cases escaped escape
  | cons c t ih =>
    have here : p.mode.isEscape = true → isBlank c = false := by
      intro escape
      simpa using escaped escape
    refine ih solid.tail (h.step here) ?_
    intro escape
    exact solid 0 (Nat.succ_pos _) (isEscape_step here escape)

theorem outside_of_flaw_eq_none {p : Progress} (h : p.flaw? = none)
    (escape : p.mode.isEscape = false) : p.mode.settled = .plain ∧ p.parens = 0 := by
  obtain ⟨mode, line, start, parens, current, pieces⟩ := p
  have closed (h : (if parens = 0 then none else some (Flaw.mk start .missingParenthesis)) = none) :
      parens = 0 := by
    by_contra opened
    rw [if_neg opened] at h
    cases h
  cases mode with
  | plain => exact ⟨rfl, closed h⟩
  | sign => exact ⟨rfl, closed h⟩
  | escaped => cases escape
  | string quote => cases h
  | stringEscaped quote => cases h
  | interpolation => cases h

/-! ## The second reading -/

/-- Nothing but whole pieces has been read, and nothing but the first line. -/
def clean (ps : List Piece) : Progress := ⟨.plain, 1, 1, 0, [], ps⟩

theorem located_eq {p : Progress} {c : Char} (hline : p.start = p.line) (hc : c ≠ '\n') :
    p.located c = p := by
  obtain ⟨mode, line, start, parens, current, pieces⟩ := p
  cases hline
  rw [Progress.located, if_neg hc]
  dsimp only
  rw [ite_self]

theorem foldl_of_runs {x : Text} {s : State} (h : runs x = some s) (oneLine : '\n' ∉ x)
    (ps : List Piece) :
    x.foldl Progress.step (clean ps) = ⟨s.1, 1, 1, s.2, x.reverse, ps⟩ := by
  induction x using List.reverseRecOn generalizing s with
  | nil =>
    cases h
    rfl
  | append_singleton x c ih =>
    rw [runs_append] at h
    obtain ⟨before, hbefore, hc⟩ := Option.bind_eq_some_iff.mp h
    rw [List.mem_append, List.mem_singleton, not_or] at oneLine
    have step := Progress.step_of_after (p := ⟨before.1, 1, 1, before.2, x.reverse, ps⟩) hc
    rw [List.foldl_concat, ih hbefore oneLine.1, step, located_eq rfl (Ne.symm oneLine.2),
      List.reverse_append]
    rfl

/-- A text before a space and a brace is read as a prelude, if nothing in it cuts. -/
theorem foldl_opening {x : Text} (h : runs (x ++ [' ']) = some (.plain, 0)) (oneLine : '\n' ∉ x)
    (ps : List Piece) :
    (x ++ [' ', '\x7b']).foldl Progress.step (clean ps) =
      clean (.opening 1 (Text.collapse x) :: ps) := by
  have spaced : '\n' ∉ x ++ [' '] := by
    rw [List.mem_append, not_or]
    exact ⟨oneLine, by decide⟩
  have text : Text.collapse (x ++ [' ']).reverse.reverse = Text.collapse x := by
    rw [List.reverse_reverse, Text.collapse_append_blank (by decide)]
  rw [List.append_cons, List.foldl_concat, foldl_of_runs h spaced, Progress.step,
    located_eq rfl (by decide), ← text]
  rfl

/-- A printed piece is read as the piece. -/
theorem foldl_print {q : Piece} (h : SmoothPiece q) (ps : List Piece) :
    q.print.foldl Progress.step (clean ps) = clean (q.onLine 1 :: ps) := by
  cases q with
  | statement line text =>
    obtain ⟨some, smooth⟩ := h
    obtain ⟨m, settled, hruns⟩ := smooth.ends
    rw [Piece.print, List.foldl_concat, foldl_of_runs hruns smooth.no_newline, Progress.step,
      located_eq rfl (by decide)]
    have flushed : Progress.flushed ⟨m, 1, 1, 0, text.reverse, ps⟩ = .statement 1 text :: ps := by
      rw [Progress.flushed]
      simp only [List.reverse_reverse, smooth.collapsed, List.isEmpty_eq_false_iff.mpr some]
      rfl
    rcases m.cases_of_settled settled with rfl | rfl <;> exact congrArg clean flushed
  | opening line prelude =>
    obtain ⟨m, settled, hruns⟩ := Smooth.ends h
    have escape : m.isEscape = false := by rw [← Mode.isEscape_settled, settled]; rfl
    have spaced : runs (prelude ++ [' ']) = some (.plain, 0) := by
      rw [runs_append, hruns, Option.bind_some, after_blank (runs_proper hruns) escape (by decide),
        settled]
    have read := foldl_opening spaced h.no_newline ps
    rw [h.collapsed] at read
    exact read
  | closing line => rfl

theorem foldl_printed {qs : List Piece} (h : ∀ q ∈ qs, SmoothPiece q) (ps : List Piece) :
    (qs.flatMap Piece.print).foldl Progress.step (clean ps) =
      clean ((qs.map (Piece.onLine 1)).reverse ++ ps) := by
  induction qs generalizing ps with
  | nil => rfl
  | cons q qs ih =>
    obtain ⟨hq, hqs⟩ := List.forall_mem_cons.mp h
    rw [List.flatMap_cons, List.foldl_append, foldl_print hq, ih hqs, List.map_cons,
      List.reverse_cons, List.append_assoc, List.singleton_append]

end Reading

/-! ## Both readings -/

open Reading

/-- If nothing in a text is left unfinished, its pieces are smooth. -/
theorem smooth_of_mem_pieces {t : Text} (solid : Solid t) (finished : (pieces t).2 = none)
    {q : Piece} (hq : q ∈ (pieces t).1) : SmoothPiece q := by
  obtain ⟨sound, escape⟩ := sound_initial.foldl solid nofun
  obtain ⟨settled, parens⟩ := outside_of_flaw_eq_none finished escape
  exact sound.flushed settled parens q (List.mem_reverse.mp hq)

/-- Printed pieces are read as these pieces, and nothing is unfinished. -/
theorem pieces_print {qs : List Piece} (h : ∀ q ∈ qs, SmoothPiece q) :
    pieces (qs.flatMap Piece.print) = (qs.map (Piece.onLine 1), none) := by
  have all := foldl_printed h []
  rw [List.append_nil] at all
  have read : (qs.flatMap Piece.print).foldl Progress.step .initial = _ := all
  rw [pieces, read]
  exact congrArg (·, none) (List.reverse_reverse _)

/-- What was read from a text without escaped blanks is read again from its printed form,
all of it on the first line. -/
theorem readNodes_print {t : Text} {nodes : List (Node Nat)} (solid : Solid t)
    (h : readNodes t = .ok nodes) :
    readNodes (printNodes nodes) = .ok (nodesOnLine 1 nodes) := by
  have read : nodesOfPieces (pieces t).2 [] [] (pieces t).1 = .ok nodes := h
  have finished := flaw_eq_none read
  have smooth (q : Piece) (hq : q ∈ (pieces t).1) : SmoothPiece q :=
    smooth_of_mem_pieces solid finished hq
  have printed : printNodes nodes = (pieces t).1.flatMap Piece.print :=
    printNodes_nodesOfPieces read
  rw [readNodes, printed, pieces_print smooth]
  rw [finished] at read
  exact nodesOfPieces_onLine 1 read

/-- Blanks are collapsed in a string and in parentheses, and the backslash, the semicolons
and the braces that do not cut stay. -/
theorem readNodes_print_nested :
    readNodes "a:'x  ;';\n.b\\\x7b  c,\n@\x7bd\x7d\x7b\n  e: url(f;\n  \x7d)\n\x7d" =
        .ok [.statement 1 "a:'x ;'",
          .block 2 ".b\\\x7b c, @\x7bd\x7d" [.statement 4 "e: url(f; \x7d)"]] ∧
      readNodes "a:'x ;';.b\\\x7b c, @\x7bd\x7d \x7be: url(f; \x7d);\x7d" =
        .ok [.statement 1 "a:'x ;'",
          .block 1 ".b\\\x7b c, @\x7bd\x7d" [.statement 1 "e: url(f; \x7d)"]] := by
  have read : readNodes
      "a:'x  ;';\n.b\\\x7b  c,\n@\x7bd\x7d\x7b\n  e: url(f;\n  \x7d)\n\x7d" =
        .ok [.statement 1 "a:'x ;'",
          .block 2 ".b\\\x7b c, @\x7bd\x7d" [.statement 4 "e: url(f; \x7d)"]] := rfl
  exact ⟨read, readNodes_print (by decide) read⟩

/-- A blank that is escaped at the end of a statement goes, and the backslash then escapes
the semicolon. -/
example : readNodes "a\\ ;" = .ok [.statement 1 "a\\"] ∧
    readNodes "a\\;" = .ok [.statement 1 "a\\;"] :=
  ⟨rfl, rfl⟩

end StyleTypings.Less
