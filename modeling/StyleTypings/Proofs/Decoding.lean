/-
Decoding — escaped names on their way through compilation.

A class name is escaped in the source and decoded by the tokenizer that looks at the
selectors in the end.  In between the source is read, evaluated and joined with no
regard to the name, with one exception: an ampersand that is escaped is taken out as
if it stood for the parent.  So a name comes out as it went in just when it has no
ampersand (`decoded_iff`).
-/
import StyleTypings.Classes.Extract
import StyleTypings.Proofs.Css.ClassSelectors
import StyleTypings.Proofs.Evaluation.Visits
import StyleTypings.Proofs.Identifiers
import StyleTypings.Proofs.Imports
import StyleTypings.Proofs.Preludes

namespace StyleTypings.Less

open Css Halting Eval

/-- A block with one declaration. -/
def exampleBlock : Text := "\x7b a: b; \x7d"

/-- A style sheet with one block, for the class of a name. -/
def classSource (n : Text) : Text := '.' :: (spellName n ++ exampleBlock)

/-! ## Reading -/

theorem afterPlain_mark {c : Char} {t : Text} (line : Nat) (before : Char)
    (hc : c = '.' ∨ c = '\x7b') : Comment.Mode.afterPlain line before c t = .plain := by
  have address : Text.sameAscii ((c :: t).take 4) "url(" = false := by
    obtain rfl | rfl := hc <;> rfl
  rw [Comment.Mode.afterPlain, Comment.startsAddress, address]
  obtain rfl | rfl := hc <;> simp [Text.isQuote]

theorem strip_block (before : Char) :
    Comment.stripFrom .plain 1 before exampleBlock = .ok exampleBlock := by
  have brace : Comment.Mode.afterPlain 1 before '\x7b' " a: b; \x7d" = .plain :=
    afterPlain_mark 1 before (.inr rfl)
  have later : Comment.stripFrom .plain 1 '\x7b' " a: b; \x7d" = .ok (" a: b; \x7d" : Text) := rfl
  show Comment.stripFrom .plain 1 before ('\x7b' :: (" a: b; \x7d" : Text)) = _
  rw [Comment.stripFrom]
  simp only [Comment.Mode.after, brace]
  exact congrArg (Except.map ('\x7b' :: ·)) later

/-- There are no comments in the source. -/
theorem strip_source {x : Text} (h : Inert x) :
    Comment.strip ('.' :: (x ++ exampleBlock)) = .ok ('.' :: (x ++ exampleBlock)) := by
  obtain ⟨last, rest⟩ := Comment.stripFrom_inert h " a: b; \x7d" 1 '.'
  have after : Comment.stripFrom .plain 1 '.' (x ++ exampleBlock) = .ok (x ++ exampleBlock) :=
    rest.trans (congrArg (Except.map (x ++ ·)) (strip_block last))
  rw [Comment.strip, Comment.stripFrom]
  simp only [Comment.Mode.after, afterPlain_mark 1 ' ' (.inl rfl)]
  exact congrArg (Except.map ('.' :: ·)) after

theorem exampleBlock_eq : exampleBlock = '\x7b' :: (" a: b; \x7d" : Text) := rfl

theorem foldl_step_block (piece : Piece) :
    (" a: b; \x7d" : Text).foldl Reading.Progress.step ⟨.plain, 1, 1, 0, [], [piece]⟩ =
      ⟨.plain, 1, 1, 0, [], [.closing 1, .statement 1 "a: b", piece]⟩ := by
  -- The blank before the last brace is no statement; what stands before the semicolon is.
  have blank : Text.collapse [' '] = [] := rfl
  have text : Text.collapse [' ', 'a', ':', ' ', 'b'] = ['a', ':', ' ', 'b'] := rfl
  simp [Reading.Progress.step, Reading.Progress.located, Reading.Progress.plainStep, Text.isQuote,
    Reading.Progress.push, Reading.Progress.flushed, blank, text]

theorem foldl_step_source {x : Text} (h : Inert x) :
    ('.' :: (x ++ exampleBlock)).foldl Reading.Progress.step .initial =
      ⟨.plain, 1, 1, 0, [],
        [.closing 1, .statement 1 "a: b", .opening 1 (Text.collapse ('.' :: x))]⟩ := by
  have point : Reading.Progress.initial.step '.' = ⟨.plain, 1, 1, 0, ['.'], []⟩ := rfl
  have name := Reading.foldl_step_inert h (p := ⟨.plain, 1, 1, 0, ['.'], []⟩) rfl rfl rfl
  have brace : Reading.Progress.step ⟨.plain, 1, 1, 0, x.reverse ++ ['.'], []⟩ '\x7b' =
      ⟨.plain, 1, 1, 0, [], [.opening 1 (Text.collapse ('.' :: x))]⟩ := by
    have begun : (x.reverse ++ ['.']).all isBlank = false := by
      have point : isBlank '.' = false := rfl
      simp [point]
    rw [Reading.Progress.step, Reading.located_of_begun (by decide) begun]
    simp [Reading.Progress.plainStep, Text.isQuote]
  rw [List.foldl_cons, point, List.foldl_append, name, exampleBlock_eq, List.foldl_cons, brace,
    foldl_step_block]

theorem pieces_source {x : Text} (h : Inert x) :
    pieces ('.' :: (x ++ exampleBlock)) =
      ([.opening 1 (Text.collapse ('.' :: x)), .statement 1 "a: b", .closing 1], none) := by
  have rest : Text.collapse [] = [] := rfl
  rw [pieces, foldl_step_source h]
  simp [Reading.Progress.flushed, Reading.Progress.flaw?, rest]

theorem parse_source {x : Text} (h : Inert x) :
    parse ('.' :: (x ++ exampleBlock)) =
      .ok [.block 1 (Text.collapse ('.' :: x)) [.statement 1 "a: b"]] := by
  rw [parse, strip_source h]
  show readNodes ('.' :: (x ++ exampleBlock)) = _
  rw [readNodes, pieces_source h]
  rfl

theorem loadSource_source (disk : Disk) (path : Path) {x : Text} (h : Inert x) :
    loadSource disk ('.' :: (x ++ exampleBlock)) path =
      .ok [.block 1 (Text.collapse ('.' :: x)) [.statement 1 "a: b"]] := by
  rw [loadSource, loadText, parse_source h]
  rfl

/-! ## Evaluation -/

/-- The declaration in the block declares something for the class. -/
theorem result_declaration (depth : Nat) (s : Scope Nat) (tag : Nat) (context : List Text)
    (p : Progress Nat) :
    result (evalBody (depth + 1) s [.statement tag "a: b"] context true) p = .ok (true, p) := by
  have kind : Statement.ofText "a: b" = .declaration := rfl
  have asks : ∀ expanding, s.task expanding context (.statement tag "a: b") = .ok (.none true) := by
    intro expanding
    rw [Scope.task, Scope.statementTask, kind]
  have node : result (evalNode (evalBody depth) s context true (.statement tag "a: b")) p =
      .ok (true, p) := evalNode_of_task _ _ _ _ (asks _)
  rw [evalBody, evalNodes, result_bind_ok node]
  rfl

/-- What a block with one declaration comes to. -/
theorem evaluateWithin_block (depth : Nat) {prelude selector : Text} {tag tag' : Nat}
    (asks : ∀ s nodes, Scope.blockTask s [] prelude nodes =
      .ok (Task.ruleset (ι := Nat) [selector] nodes)) :
    evaluateWithin (depth + 2) [.block tag prelude [.statement tag' "a: b"]] =
      .ok [⟨[selector]⟩] := by
  let nodes : List (Node Nat) := [.block tag prelude [.statement tag' "a: b"]]
  let scope : Scope Nat := Scope.enter [] nodes
  -- The place of the rule set is empty until its body has declared something.
  have ruleset : result (evalRuleset (evalBody (depth + 1)) scope [selector]
      [.statement tag' "a: b"] true) ⟨#[], []⟩ = .ok (⟨⟩, ⟨#[some ⟨[selector]⟩], []⟩) := by
    rw [evalRuleset, result_bind_ok (result_get _), result_bind_ok (result_modify _ _),
      result_bind_ok (result_declaration ..)]
    rfl
  have node : result (evalNode (evalBody (depth + 1)) scope [] true
      (.block tag prelude [.statement tag' "a: b"])) ⟨#[], []⟩ =
        .ok (false, ⟨#[some ⟨[selector]⟩], []⟩) := by
    have block : scope.task [] [] (.block tag prelude [.statement tag' "a: b"]) = _ := asks _ _
    rw [evalNode_of_task (p := ⟨#[], []⟩) _ _ _ _ block, evalTask, result_bind_ok ruleset]
    rfl
  have whole : result (evalBody (depth + 2) scope nodes [] true) ⟨#[], []⟩ =
      .ok (false, ⟨#[some ⟨[selector]⟩], []⟩) := by
    rw [evalBody, evalNodes, result_bind_ok node]
    rfl
  rw [evaluateWithin, runWithin, runFrom_of_result whole]
  rfl

/-! ## Compilation -/

/-- What can be the name of a class here: a text with characters, none of them a blank
or NUL, which no escape stands for. -/
structure Nameable (n : Text) : Prop where
  ne_nil : n ≠ []
  real : '\x00' ∉ n
  solid : n.all (! isBlank ·) = true

variable {n : Text}

theorem Nameable.ne_nul (name : Nameable n) : ∀ c ∈ n, c ≠ '\x00' := by
  rintro c hc rfl
  exact name.real hc

theorem Nameable.isBlank_eq (name : Nameable n) : ∀ c ∈ n, isBlank c = false := by
  intro c hc
  simpa using List.all_eq_true.mp name.solid c hc

/-- The prelude of the source is the point with a spelling of the name. -/
theorem Nameable.prelude (name : Nameable n) :
    ∃ t, Spells t n ∧ startsName t = true ∧ Text.collapse ('.' :: spellName n) = '.' :: t := by
  have begins := startsName_spellName name.ne_nil
  obtain ⟨t, spells, written⟩ := writes_spellName name.ne_nul
  have tidy := tidy_of_spells spells name.ne_nil name.isBlank_eq
  refine ⟨t, spells, ?_⟩
  obtain written | ⟨_, written⟩ := written
  · rw [written] at begins ⊢
    exact ⟨begins, tidy.collapse_eq⟩
  · rw [written] at begins ⊢
    refine ⟨startsName_of_append_blank begins, ?_⟩
    rw [← List.cons_append, Text.collapse_append_blank rfl, tidy.collapse_eq]

/-- What the source comes to: one selector, the point with a spelling of the name, less
its ampersands. -/
theorem compileSource_source (disk : Disk) (path : Path) (name : Nameable n) :
    ∃ t, Spells t n ∧ startsName t = true ∧ compileSource disk (classSource n) path =
      .ok [⟨[Text.collapse (('.' :: t).filter (· != '&'))]⟩] := by
  obtain ⟨t, spells, begins, prelude⟩ := name.prelude
  refine ⟨t, spells, begins, ?_⟩
  have loaded := loadSource_source disk path (inert_of_writes (writes_spellName name.ne_nul))
  rw [prelude] at loaded
  rw [compileSource, classSource, loaded]
  exact evaluateWithin_block 9998 fun s nodes =>
    blockTask_of_spells s nodes spells name.ne_nil name.isBlank_eq

/-- The classes of the source of a class. -/
def decoded (disk : Disk) (path : Path) (n : Text) : Except Halt (List ClassName) :=
  (compileSource disk (classSource n) path).map (classNames .none)

/-- A name without ampersands comes out as it went in. -/
theorem decoded_of_not_mem (disk : Disk) (path : Path) (name : Nameable n) (h : '&' ∉ n) :
    decoded disk path n = .ok [⟨n, n⟩] := by
  obtain ⟨t, spells, begins, compiled⟩ := compileSource_source disk path name
  have kept : ('.' :: t).filter (· != '&') = '.' :: t := by
    rw [List.filter_eq_self]
    rintro c (_ | ⟨_, hc⟩)
    · rfl
    · exact bne_iff_ne.mpr fun hamp => h (spells.ampersand_mem.mp (hamp ▸ hc))
  have tidy := tidy_of_spells spells name.ne_nil name.isBlank_eq
  have classes : classNames .none [⟨['.' :: t]⟩] = [⟨n, n⟩] := by
    rw [classNames, Stylesheet.selectors, List.flatMap_singleton, List.flatMap_singleton,
      Classes.ofSelector_of_spells spells begins]
    rfl
  rw [decoded, compiled, kept, tidy.collapse_eq]
  exact congrArg Except.ok classes

/-- A name with an ampersand is no class of what is left of its spelling: it has more
of the characters with a 6 than a name that is read there can have. -/
theorem not_mem_ofSelector {t : Text} (spells : Spells t n) (h : '&' ∈ n) :
    n ∉ Classes.ofSelector (Text.collapse (('.' :: t).filter (· != '&'))) := by
  intro mentioned
  obtain ⟨s, suffix, name⟩ := Classes.mem_ofSelector mentioned
  have lost : 0 < (t.filter (! · != '&')).countP isSix := by
    rw [List.countP_pos_iff]
    exact ⟨'&', List.mem_filter.mpr ⟨spells.ampersand_mem.mpr h, rfl⟩, rfl⟩
  -- What is read from a selector has at most as many as the selector, and that has
  -- lost the ampersand, which is one of them.
  have parts := List.countP_eq_countP_filter_add t isSix (· != '&')
  have fewer : n.countP isSix < n.countP isSix := calc
    n.countP isSix ≤ s.countP isSix := name ▸ six_le_takeName 0 s
    _ ≤ (Text.collapse (('.' :: t).filter (· != '&'))).countP isSix := suffix.sublist.countP_le
    _ ≤ (('.' :: t).filter (· != '&')).countP isSix := Text.countP_collapse_le rfl _
    _ = (t.filter (· != '&')).countP isSix := rfl
    _ < t.countP isSix := by omega
    _ = n.countP isSix := spells.countP_isSix
  exact absurd fewer (Nat.lt_irrefl _)

/-- A name with an ampersand does not come out as it went in. -/
theorem decoded_ne_of_mem (disk : Disk) (path : Path) (name : Nameable n) (h : '&' ∈ n) :
    decoded disk path n ≠ .ok [⟨n, n⟩] := by
  intro same
  obtain ⟨t, spells, begins, compiled⟩ := compileSource_source disk path name
  rw [decoded, compiled] at same
  have classes : classNames .none _ = [⟨n, n⟩] := Except.ok.inj same
  have listed : (⟨n, n⟩ : ClassName) ∈ classNames .none _ := classes ▸ List.mem_singleton_self _
  have mentioned := (mem_classNames.mp listed).1
  rw [Stylesheet.classes, Stylesheet.selectors, List.flatMap_singleton,
    List.flatMap_singleton] at mentioned
  exact not_mem_ofSelector spells h mentioned

/-- The name of a class comes out of compilation as it went in exactly when there is no
ampersand in it. -/
theorem decoded_iff (disk : Disk) (path : Path) (name : Nameable n) :
    decoded disk path n = .ok [⟨n, n⟩] ↔ '&' ∉ n :=
  ⟨fun same h => decoded_ne_of_mem disk path name h same, decoded_of_not_mem disk path name⟩

theorem decoded_md_flex :
    decoded ⟨.directory [], []⟩ "a.less" "md:flex" = .ok [⟨"md:flex", "md:flex"⟩] :=
  (decoded_iff ⟨.directory [], []⟩ "a.less" ⟨by decide, by decide, by decide⟩).mpr (by decide)

/-- Not every name comes out as it went in: `a&z` does not. -/
theorem not_forall_decoded :
    ¬ ∀ (disk : Disk) (path : Path) (n : Text), Nameable n → decoded disk path n = .ok [⟨n, n⟩] := by
  intro h
  have name : Nameable "a&z" := ⟨by decide, by decide, by decide⟩
  exact decoded_ne_of_mem ⟨.directory [], []⟩ "a.less" name (by decide) (h _ _ _ name)

end StyleTypings.Less
