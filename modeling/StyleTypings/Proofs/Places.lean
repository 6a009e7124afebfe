/-
Places — where the nodes of a text begin.

A node begins with the first character that is not blank behind a cut, unless that character
cuts off nothing (`Progress.begins`).  Its line is the line of this character: the reader counts
every line feed, in whatever mode it is, and notes the line when the piece so far has nothing but
blanks in it (`Follows.step`).  So the nodes of a text, a block before what is in it, stand at the
places where nodes begin, one after the other (`stands_readNodes`).

The first character of a block without a prelude is its brace.
-/
import StyleTypings.Proofs.Cutting
import Mathlib.Data.List.Forall2

namespace StyleTypings.Less

/-! ## Heads -/

/-- The line and the text of what a piece begins. -/
def Piece.head? : Piece → Option (Nat × Text)
  | .statement line text => some (line, text)
  | .opening line prelude => some (line, prelude)
  | .closing _ => none

mutual

/-- The tag and the text of a node, and those of the nodes in it. -/
def Node.heads {ι : Type} : Node ι → List (ι × Text)
  | .statement tag text => [(tag, text)]
  | .block tag prelude body => (tag, prelude) :: headsOf body
  | .imported _ _ nodes => headsOf nodes

def headsOf {ι : Type} : List (Node ι) → List (ι × Text)
  | [] => []
  | n :: rest => n.heads ++ headsOf rest

end

theorem headsOf_append {ι : Type} (nodes rest : List (Node ι)) :
    headsOf (nodes ++ rest) = headsOf nodes ++ headsOf rest := by
  induction nodes with
  | nil => rw [headsOf]; rfl
  | cons n nodes ih => rw [List.cons_append, headsOf, headsOf, ih, List.append_assoc]

/-- The heads of what has been read of the blocks that are still open, and of the nodes after the
last opening brace. -/
def headsOpened (nodes : List (Node Nat)) : List OpenBlock → List (Nat × Text)
  | [] => headsOf nodes.reverse
  | o :: opened => headsOpened o.before opened ++ (o.line, o.prelude) :: headsOf nodes.reverse

theorem headsOpened_cons (n : Node Nat) (nodes : List (Node Nat)) (opened : List OpenBlock) :
    headsOpened (n :: nodes) opened = headsOpened nodes opened ++ n.heads := by
  have last : headsOf (n :: nodes).reverse = headsOf nodes.reverse ++ n.heads := by
    rw [List.reverse_cons, headsOf_append, headsOf, headsOf, List.append_nil]
  cases opened with
  | nil => rw [headsOpened, last, headsOpened]
  | cons o opened =>
    rw [headsOpened, last, headsOpened, List.append_assoc, List.cons_append]

/-- Nodes have the heads of the pieces that they were made of. -/
theorem headsOf_nodesOfPieces {flaw : Option Flaw} {opened : List OpenBlock}
    {nodes result : List (Node Nat)} {ps : List Piece}
    (h : nodesOfPieces flaw opened nodes ps = .ok result) :
    headsOf result = headsOpened nodes opened ++ ps.filterMap Piece.head? := by
  fun_induction nodesOfPieces flaw opened nodes ps with
  | case1 => cases h
  | case2 => cases h
  | case3 nodes =>
    cases h
    rw [headsOpened, List.filterMap_nil, List.append_nil]
  | case4 opened nodes line text rest ih =>
    rw [ih h, headsOpened_cons, Node.heads, List.append_assoc]
    rfl
  | case5 opened nodes line prelude rest ih =>
    rw [ih h, headsOpened, List.reverse_nil, headsOf, List.append_assoc]
    rfl
  | case6 => cases h
  | case7 o opened nodes line rest ih =>
    rw [ih h, headsOpened_cons, headsOpened, Node.heads]
    rfl

namespace Reading

/-! ## Places -/

/-- How far the cutting has come behind a text. -/
def behind (t : Text) : Progress := t.foldl Progress.step .initial

/-- Whether a node begins with the next character. -/
def Progress.begins (p : Progress) (c : Char) : Bool :=
  p.current.all isBlank && ! isBlank c && c != ';' && c != '\x7d'

/-- Where nodes begin behind a text: all that stands before, and the first character. -/
def placesFrom (before : Text) : Text → List (Text × Char)
  | [] => []
  | c :: rest =>
    (if (behind before).begins c then [(before, c)] else []) ++ placesFrom (before ++ [c]) rest

/-- Where the nodes of a text begin. -/
def places (t : Text) : List (Text × Char) := placesFrom [] t

theorem behind_append (t : Text) (c : Char) : behind (t ++ [c]) = (behind t).step c := by
  rw [behind, List.foldl_concat, behind]

theorem placesFrom_append (before s : Text) (c : Char) :
    placesFrom before (s ++ [c]) = placesFrom before s ++
      if (behind (before ++ s)).begins c then [(before ++ s, c)] else [] := by
  induction s generalizing before with
  | nil =>
    rw [List.nil_append, placesFrom, placesFrom, placesFrom, List.append_nil, List.append_nil,
      List.nil_append]
  | cons d s ih =>
    rw [List.cons_append, placesFrom, ih, placesFrom, List.append_assoc, List.append_assoc,
      List.singleton_append]

theorem places_append (s : Text) (c : Char) :
    places (s ++ [c]) = places s ++ if (behind s).begins c then [(s, c)] else [] := by
  rw [places, placesFrom_append, List.nil_append, places]

/-- A node begins with a character at a place of a text.  The node has the line of the place, and
its text is what stands there, or nothing before a brace. -/
structure Stands (t : Text) (head : Nat × Text) (place : Text × Char) : Prop where
  ink : isBlank place.2 = false
  within : place.1 ++ [place.2] <+: t
  line : head.1 = 1 + place.1.count '\n'
  text : ∃ w, place.1 ++ w <+: t ∧ head.2 = Text.collapse w ∧ w.head?.getD '\x7b' = place.2

theorem Stands.append {t : Text} {head : Nat × Text} {place : Text × Char}
    (h : Stands t head place) (c : Char) : Stands (t ++ [c]) head place := by
  obtain ⟨ink, within, line, w, whole, text, first⟩ := h
  have longer : t <+: t ++ [c] := List.prefix_append t [c]
  exact ⟨ink, within.trans longer, line, w, whole.trans longer, text, first⟩

/-! ## Heads so far -/

namespace Progress

/-- What the pieces so far begin. -/
def heads (p : Progress) : List (Nat × Text) := p.pieces.reverse.filterMap Piece.head?

/-- The head of the current piece, if it is not blank. -/
def currentHead (p : Progress) : List (Nat × Text) :=
  let text := Text.collapse p.current.reverse
  if text.isEmpty then [] else [(p.start, text)]

theorem heads_flushed (p : Progress) :
    p.flushed.reverse.filterMap Piece.head? = p.heads ++ p.currentHead := by
  rw [flushed, currentHead]
  split
  · rw [List.append_nil, heads]
  · rw [List.reverse_cons, List.filterMap_append, heads]
    rfl

/-- A brace that opens a block begins a node even if the block has no prelude. -/
theorem heads_moved_none {p : Progress} {c : Char} (hcut : isCut c = true) :
    (p.moved c none).heads = p.heads ++
      if c = '\x7b' then [(p.start, Text.collapse p.current.reverse)] else p.currentHead := by
  rw [heads, moved]
  rcases isCut_iff.mp hcut with rfl | rfl | rfl
  · show (p.cut '\x7b').reverse.filterMap Piece.head? = _
    rw [if_pos rfl, cut, if_pos rfl, List.reverse_cons, List.filterMap_append, heads]
    rfl
  · show (Piece.closing p.line :: p.flushed).reverse.filterMap Piece.head? = _
    rw [List.reverse_cons, List.filterMap_append, heads_flushed]
    exact List.append_nil _
  · exact heads_flushed p

end Progress

/-! ## The current piece -/

/-- Whether a node has begun in the current piece, and where. -/
inductive Current (t : Text) (p : Progress) : List (Text × Char) → Prop where
  | blank (blank : ∀ d ∈ p.current, isBlank d = true) (outside : p.state = (.plain, 0)) :
    Current t p []
  | begun {a b w : Text} {c : Char} (ink : isBlank c = false) (whole : t = a ++ c :: w)
    (blank : ∀ d ∈ b, isBlank d = true) (current : p.current.reverse = b ++ c :: w)
    (start : p.start = 1 + a.count '\n') : Current t p [(a, c)]

/-- How far the cutting has come behind a text: the lines are counted, and the pieces and the
current one stand where nodes begin. -/
structure Follows (t : Text) (p : Progress) (done current : List (Text × Char)) : Prop where
  line : p.line = 1 + t.count '\n'
  pieces : List.Forall₂ (Stands t) p.heads done
  current : Current t p current

section

variable {t : Text} {p : Progress} {done current : List (Text × Char)}

theorem Current.stands (h : Current t p current) :
    List.Forall₂ (Stands t) p.currentHead current := by
  cases h with
  | blank blank =>
    rw [Progress.currentHead, Text.collapse_of_blank (by simpa using blank)]
    exact .nil
  | @begun a b w c ink whole blank current start =>
    have text : Text.collapse p.current.reverse = Text.collapse (c :: w) := by
      rw [current, Text.collapse_append_of_blank blank]
    rw [Progress.currentHead, text, Text.collapse_cons ink]
    subst whole
    have within : a ++ [c] <+: a ++ c :: w := ⟨w, (List.append_cons a c w).symm⟩
    have text := (Text.collapse_cons ink w).symm
    exact .cons ⟨ink, within, start, c :: w, List.prefix_refl _, text, rfl⟩ .nil

theorem Follows.stands (h : Follows t p done current) :
    List.Forall₂ (Stands t) (p.flushed.reverse.filterMap Piece.head?) (done ++ current) := by
  rw [Progress.heads_flushed]
  exact List.rel_append h.pieces h.current.stands

/-- What stands at places of a text stands there in a longer one. -/
theorem stands_append {heads : List (Nat × Text)} (h : List.Forall₂ (Stands t) heads done)
    (c : Char) : List.Forall₂ (Stands (t ++ [c])) heads done :=
  h.imp fun _ _ stands => stands.append c

theorem Follows.line_located (h : Follows t p done current) (c : Char) :
    (p.located c).line = 1 + (t ++ [c]).count '\n' := by
  rw [Progress.located, List.count_append, h.line]
  by_cases feed : c = '\n' <;> simp [feed, Nat.add_assoc]

theorem line_moved {c : Char} {s : Option State} : (p.moved c s).line = p.line := by
  cases s <;> rfl

/-- A piece in which a node has begun is not blank. -/
theorem Current.not_blank (h : Current t p current) (some : current ≠ []) :
    p.current.all isBlank = false := by
  cases h with
  | blank => exact absurd rfl some
  | @begun a b w c ink whole blank current =>
    have inside : c ∈ p.current := by
      rw [← List.mem_reverse, current]
      simp
    rw [List.all_eq_false]
    exact ⟨c, inside, by simp [ink]⟩

/-- It stays where it has begun. -/
theorem Current.start_located (h : Current t p current) (some : current ≠ []) (d : Char) :
    (p.located d).start = p.start := by
  rw [Progress.located, h.not_blank some, Bool.and_false]
  rfl

/-- Where it ends, its head is put behind the others. -/
theorem Current.heads_cut (h : Current t p current) (some : current ≠ []) {d : Char}
    (hcut : isCut d = true) :
    ((p.located d).moved d none).heads = p.heads ++ p.currentHead := by
  have same := h.start_located some d
  have word : (Text.collapse p.current.reverse).isEmpty = false := by
    have stands := h.stands
    rw [Progress.currentHead] at stands
    split at stands
    · cases stands
      exact absurd rfl some
    · rename_i word
      simpa using word
  have located : (p.located d).currentHead = p.currentHead := by
    rw [Progress.currentHead, same]
    rfl
  have brace : p.currentHead = [((p.located d).start, Text.collapse p.current.reverse)] := by
    rw [Progress.currentHead, word, same]
    rfl
  rw [Progress.heads_moved_none hcut, located]
  split
  · rw [brace]
    rfl
  · rfl

/-- Where a node has begun, a step goes on with it, or it ends. -/
theorem Follows.step_begun (h : Follows t p done current) (some : current ≠ []) (d : Char) :
    ∃ done' current', Follows (t ++ [d]) (p.step d) done' current' ∧
      done' ++ current' = done ++ current := by
  have line {s : Option State} : ((p.located d).moved d s).line = 1 + (t ++ [d]).count '\n' :=
    line_moved.trans (h.line_located d)
  rcases p.step_cases d with ⟨s, step⟩ | ⟨parens, hcut, step⟩
  · rw [step]
    refine ⟨done, current, ⟨line, stands_append h.pieces d, ?_⟩, rfl⟩
    have same := h.current.start_located some d
    cases h.current with
    | blank => exact absurd rfl some
    | @begun a b w c ink whole blank current start =>
      refine .begun (w := w ++ [d]) ink ?_ blank ?_ (same.trans start)
      · rw [whole, List.append_assoc, List.cons_append]
      · rw [Progress.moved, List.reverse_cons]
        show p.current.reverse ++ [d] = _
        rw [current, List.append_assoc, List.cons_append]
  · rw [step]
    refine ⟨done ++ current, [], ⟨line, ?_, ?_⟩, List.append_nil _⟩
    · rw [h.current.heads_cut some hcut]
      exact stands_append (List.rel_append h.pieces h.current.stands) d
    · exact .blank (List.forall_mem_nil _) (congrArg _ parens)

theorem step_outside (outside : p.state = (.plain, 0)) (d : Char) :
    p.step d = (p.located d).moved d (afterPlain 0 d) := by
  have mode : p.mode = .plain := congrArg Prod.fst outside
  rw [Progress.step_eq (by rw [mode]; nofun), outside]
  rfl

theorem Follows.outside (h : Follows t p done []) :
    p.current.all isBlank = true ∧ p.state = (.plain, 0) := by
  cases h.current with
  | blank blank outside => exact ⟨by simpa using blank, outside⟩

theorem Follows.start_located (h : Follows t p done []) {d : Char} (ink : isBlank d = false) :
    (p.located d).start = 1 + t.count '\n' := by
  have feed : d ≠ '\n' := by
    rintro rfl
    cases ink
  rw [Progress.located, ink, h.outside.1, if_neg feed]
  exact h.line

/-- Behind blanks, one more blank begins nothing. -/
theorem Follows.step_blank (h : Follows t p done []) {d : Char} (hd : isBlank d = true) :
    Follows (t ++ [d]) (p.step d) done [] := by
  cases h.current with
  | blank blank outside =>
    rw [step_outside outside, afterPlain_blank hd]
    exact ⟨line_moved.trans (h.line_located d), stands_append h.pieces d,
      .blank (List.forall_mem_cons.mpr ⟨hd, blank⟩) rfl⟩

/-- Behind blanks, a node begins with a character that does not cut. -/
theorem Follows.step_ink (h : Follows t p done []) {d : Char} (ink : isBlank d = false)
    (hcut : isCut d = false) : Follows (t ++ [d]) (p.step d) done [(t, d)] := by
  cases h.current with
  | blank blank outside =>
    have goesOn : afterPlain 0 d ≠ none := by
      rw [Ne, afterPlain_eq_none_iff, hcut]
      nofun
    obtain ⟨s, next⟩ := Option.ne_none_iff_exists'.mp goesOn
    rw [step_outside outside, next]
    refine ⟨line_moved.trans (h.line_located d), stands_append h.pieces d, ?_⟩
    refine .begun ink rfl (fun e he => blank e (List.mem_reverse.mp he)) ?_ (h.start_located ink)
    exact List.reverse_cons

/-- Behind blanks, what cuts begins a node only if it opens a block. -/
theorem Follows.step_cut (h : Follows t p done []) {d : Char} (hcut : isCut d = true) :
    Follows (t ++ [d]) (p.step d) (done ++ if d = '\x7b' then [(t, d)] else []) [] := by
  cases h.current with
  | blank blank outside =>
    have ink : isBlank d = false := by rcases isCut_iff.mp hcut with rfl | rfl | rfl <;> rfl
    have text : Text.collapse (p.located d).current.reverse = [] :=
      Text.collapse_of_blank fun e he => blank e (List.mem_reverse.mp he)
    rw [step_outside outside, afterPlain_eq_none_iff.mpr ⟨rfl, hcut⟩]
    refine ⟨line_moved.trans (h.line_located d), ?_, .blank (List.forall_mem_nil _) ?_⟩
    · rw [Progress.heads_moved_none hcut, Progress.currentHead, text]
      refine List.rel_append (stands_append h.pieces d) ?_
      by_cases brace : d = '\x7b'
      · rw [if_pos brace, if_pos brace]
        refine .cons ⟨ink, List.prefix_refl _, h.start_located ink, [], ?_, rfl, brace.symm⟩ .nil
        rw [List.append_nil]
        exact List.prefix_append t [d]
      · rw [if_neg brace, if_neg brace]
        exact .nil
    · exact congrArg (Mode.plain, ·.2) outside

theorem Follows.step (h : Follows t p done current) (d : Char) :
    ∃ done' current', Follows (t ++ [d]) (p.step d) done' current' ∧
      done' ++ current' = done ++ current ++ if p.begins d then [(t, d)] else [] := by
  by_cases none : current = []
  · subst none
    have blank := h.outside.1
    rw [List.append_nil]
    cases hd : isBlank d with
    | true => exact ⟨done, [], h.step_blank hd, by simp [Progress.begins, hd]⟩
    | false =>
      cases hcut : isCut d with
      | true =>
        refine ⟨_, [], h.step_cut hcut, ?_⟩
        rw [Progress.begins, blank, hd, List.append_nil]
        rcases isCut_iff.mp hcut with rfl | rfl | rfl <;> rfl
      | false =>
        have others : d ≠ ';' ∧ d ≠ '\x7d' := by
          constructor <;> rintro rfl <;> cases hcut
        refine ⟨done, [(t, d)], h.step_ink hd hcut, ?_⟩
        rw [Progress.begins, blank, hd]
        simp [others]
  · obtain ⟨done', current', follows, same⟩ := h.step_begun none d
    refine ⟨done', current', follows, ?_⟩
    rw [same, Progress.begins, h.current.not_blank none]
    exact (List.append_nil _).symm

end

/-- The nodes that have begun in a text stand at its places. -/
theorem follows_behind (t : Text) :
    ∃ done current, Follows t (behind t) done current ∧ done ++ current = places t := by
  induction t using List.reverseRecOn with
  | nil => exact ⟨[], [], ⟨rfl, .nil, .blank (List.forall_mem_nil _) rfl⟩, rfl⟩
  | append_singleton t c ih =>
    obtain ⟨done, current, follows, here⟩ := ih
    obtain ⟨done', current', next, there⟩ := follows.step c
    exact ⟨done', current', behind_append t c ▸ next, by rw [there, here, places_append]⟩

end Reading

open Reading

/-- The nodes of a text, a block before what is in it, stand one after the other where nodes
begin. -/
theorem stands_readNodes {t : Text} {nodes : List (Node Nat)} (h : readNodes t = .ok nodes) :
    List.Forall₂ (Stands t) (headsOf nodes) (places t) := by
  obtain ⟨done, current, follows, whole⟩ := follows_behind t
  have heads : headsOf nodes = (behind t).flushed.reverse.filterMap Piece.head? :=
    headsOf_nodesOfPieces h
  rw [heads, ← whole]
  exact follows.stands

end StyleTypings.Less
