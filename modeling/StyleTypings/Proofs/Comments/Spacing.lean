/-
Spacing — a comment on one line is as good as a space.

Where a text ends between tokens, what has been read of it does not depend on what follows,
provided that a slash or a space comes next: neither of them goes on with `url(`, and the
text does not end in a slash, which would begin a comment together with the next character
(`stripFrom_append_congr`).  A comment without a line feed leaves one space, and the reader
goes on behind its last slash as it goes on behind a space, since neither is a letter
(`stripFrom_comment`).  So both texts are the same without their comments (`strip_comment`),
and everything after that is done with what is left of the comments.  This holds for a text
that is compiled, and for one that stands in a file which may be imported
(`compile_comment`).
-/
import StyleTypings.Less.Compile
import StyleTypings.Proofs.Comments.Stripping
import StyleTypings.Proofs.Files.Trees
import StyleTypings.Proofs.Imports

namespace StyleTypings

namespace Less

namespace Comment

/-! ## Where a text ends -/

/-- The mode at the end of a text, read from a mode on. -/
def modeFrom (mode : Mode) (line : Nat) (before : Char) : Text → Mode
  | [] => mode
  | c :: rest =>
    modeFrom (mode.after line before c rest)
      (if c = '\n' && mode.counts then line + 1 else line) c rest

/-- The mode at the end of a text. -/
def modeAfter (t : Text) : Mode := modeFrom .plain 1 ' ' t

/-- A text that goes on with nothing that has been begun before it, except for a comment. -/
def Stops (x : Text) : Prop := x.head? = some '/' ∨ x.head? = some ' '

theorem Stops.endsAddressMark_append {x : Text} (stops : Stops x) (a : Text) :
    EndsAddressMark (a ++ x) ↔ EndsAddressMark a := by
  refine endsAddressMark_append_iff ?_ a
  intro d head
  rcases stops with h | h <;> cases h.symm.trans head <;> decide

/-- One character of a text that ends between tokens is read as if nothing followed. -/
theorem after_append {m : Mode} {line : Nat} {before c : Char} {a x : Text} (stops : Stops x)
    (slash : (c :: a).getLast? ≠ some '/')
    (ends : a = [] → m.after line before c [] = .plain) :
    m.after line before c (a ++ x) = m.after line before c a := by
  have head (some : a ≠ []) : (a ++ x).head? = a.head? := List.head?_append_of_ne_nil a some
  cases m with
  | plain =>
    refine afterPlain_congr rfl ?_ fun _ => stops.endsAddressMark_append a
    rintro rfl
    have some : a ≠ [] := by
      rintro rfl
      exact slash rfl
    rw [head some]
    exact ⟨.rfl, .rfl⟩
  | block start =>
    have some : a ≠ [] := fun none => by
      have closed := ends none
      simp [Mode.after] at closed
    rw [Mode.after, Mode.after, head some]
  | escaped | string | stringEscaped | opening | closing | line | address => rfl

/-- What has been read of a text that ends between tokens does not depend on what follows. -/
theorem stripFrom_append_congr {x y : Text} (hx : Stops x) (hy : Stops y)
    (same : ∀ line before, stripFrom .plain line before x = stripFrom .plain line before y)
    {a : Text} {m : Mode} {line : Nat} {before : Char} (ends : modeFrom m line before a = .plain)
    (slash : a.getLast? ≠ some '/') :
    stripFrom m line before (a ++ x) = stripFrom m line before (a ++ y) := by
  induction a generalizing m line before with
  | nil =>
    cases ends
    exact same line before
  | cons c a ih =>
    rw [modeFrom] at ends
    have last (none : a = []) : m.after line before c [] = .plain := by
      rw [none] at ends
      exact ends
    have rest : a.getLast? ≠ some '/' := by
      cases a with
      | nil => nofun
      | cons d a => rwa [List.getLast?_cons_cons] at slash
    rw [List.cons_append, List.cons_append, stripFrom, stripFrom, after_append hx slash last,
      after_append hy slash last, ih ends rest]

/-! ## A comment -/

/-- A block comment with a content. -/
def block (c : Text) : Text := ['/', '*'] ++ c ++ ['*', '/']

theorem stripFrom_space (line : Nat) (before : Char) (b : Text) :
    stripFrom .plain line before (' ' :: b) = (stripFrom .plain line ' ' b).map (' ' :: ·) := by
  have plain : Mode.afterPlain line before ' ' b = .plain := by
    simp [Mode.afterPlain, Text.isQuote, startsAddress_cons]
  rw [stripFrom, Mode.after, plain]
  rfl

/-- The content of a comment without line feeds is removed, up to the end of the comment. -/
theorem stripFrom_content {c : Text} (feed : '\n' ∉ c) (ending : ¬ ['*', '/'] <:+: c)
    (start line : Nat) (before : Char) (b : Text) :
    stripFrom (.block start) line before (c ++ '*' :: '/' :: b) =
      (stripFrom .plain line '/' b).map (' ' :: ·) := by
  induction c generalizing before with
  | nil =>
    rw [List.nil_append, stripFrom, stripFrom]
    cases h : stripFrom .plain line '/' b <;> simp [Mode.after, Mode.counts, written, h, Except.map]
  | cons d c ih =>
    rw [List.mem_cons, not_or] at feed
    have goes : Mode.after line before d (c ++ '*' :: '/' :: b) (.block start) = .block start := by
      rw [Mode.after, if_neg]
      intro ends
      rw [Bool.and_eq_true, decide_eq_true_eq, beq_iff_eq] at ends
      obtain ⟨rfl, next⟩ := ends
      cases c with
      | nil => cases next
      | cons e c =>
        obtain rfl := Option.some.inj next
        exact ending ⟨[], c, rfl⟩
    have rest := ih feed.2 (fun inside => ending (inside.trans (List.suffix_cons d c).isInfix)) d
    rw [List.cons_append, stripFrom, goes]
    simp only [Ne.symm feed.1, decide_false, Bool.false_and, Bool.false_eq_true, if_false, rest,
      written]
    cases stripFrom .plain line '/' b <;> rfl

/-- A comment on one line leaves what a space leaves. -/
theorem stripFrom_comment {c : Text} (feed : '\n' ∉ c) (ending : ¬ ['*', '/'] <:+: c) (line : Nat)
    (before : Char) (b : Text) :
    stripFrom .plain line before (block c ++ b) = stripFrom .plain line before (' ' :: b) := by
  have whole : block c ++ b = '/' :: '*' :: (c ++ '*' :: '/' :: b) := by simp [block]
  have begins : Mode.afterPlain line before '/' ('*' :: (c ++ '*' :: '/' :: b)) = .opening line :=
    rfl
  have ident : isIdentChar '/' = isIdentChar ' ' := by decide
  rw [whole, stripFrom_space, ← stripFrom_plain_congr ident, stripFrom, stripFrom]
  simp only [Mode.after, begins, Char.reduceEq, decide_false, Bool.false_and, Bool.false_eq_true,
    if_false, stripFrom_content feed ending, written, List.nil_append]
  cases stripFrom .plain line '/' b <;> rfl

/-- Without comments, both texts are the same. -/
theorem strip_comment {a c : Text} (between : modeAfter a = .plain)
    (slash : a.getLast? ≠ some '/') (feed : '\n' ∉ c) (ending : ¬ ['*', '/'] <:+: c) (b : Text) :
    strip (a ++ block c ++ b) = strip (a ++ [' '] ++ b) := by
  rw [List.append_assoc, List.append_assoc]
  exact stripFrom_append_congr (.inl rfl) (.inr rfl)
    (fun line before => stripFrom_comment feed ending line before b) between slash

theorem parse_comment {a c : Text} (between : modeAfter a = .plain)
    (slash : a.getLast? ≠ some '/') (feed : '\n' ∉ c) (ending : ¬ ['*', '/'] <:+: c) (b : Text) :
    parse (a ++ block c ++ b) = parse (a ++ [' '] ++ b) := by
  rw [parse, parse, strip_comment between slash feed ending]

end Comment

/-! ## Files -/

/-- Disks on which every path leads to the same nodes, with the same flaws in them. -/
structure ParsesAlike (d d' : Disk) : Prop where
  locate : ∀ p, d'.locate p = d.locate p
  isFile : ∀ p, d'.isFile p = d.isFile p
  read : ∀ p, (d'.read p).map parse = (d.read p).map parse

/-- Texts that give the same nodes can stand for each other in a file. -/
theorem parsesAlike_store {d : Disk} {here : Location} (h : d.CanHold here) {t t' : Text}
    (same : parse t' = parse t) : ParsesAlike (d.store here t) (d.store here t') := by
  have differs : Disk.DiffersAt (· = here) (d.store here t) (d.store here t') :=
    (Disk.differsAt_store t h).symm.trans (Disk.differsAt_store t' h)
  have there (place : Location) :
      ((d.store here t').kind? place).isSome = ((d.store here t).kind? place).isSome := by
    rw [Disk.kind?_store t h, Disk.kind?_store t' h]
    split <;> rfl
  have locate := differs.locate_eq there
  refine ⟨locate, fun p => ?_, fun p => ?_⟩
  · rw [Bool.eq_iff_iff, Disk.isFile_iff, Disk.isFile_iff, locate]
    refine exists_congr fun place => ?_
    rw [Disk.kind?_store t h, Disk.kind?_store t' h]
    by_cases own : place = here <;> simp [own]
  · rw [Disk.read_eq, Disk.read_eq, locate]
    cases (d.store here t).locate p with
    | error e => rfl
    | ok place =>
      show (Disk.Kind.read _).map parse = (Disk.Kind.read _).map parse
      rw [Disk.kind?_store t h, Disk.kind?_store t' h]
      split
      · exact congrArg Except.ok same
      · rfl

namespace ParsesAlike

variable {d d' : Disk} (h : ParsesAlike d d')

include h

theorem wanted_eq (importer : Path) (loaded : List Location) (directive : Directive) :
    directive.wanted d' importer loaded = directive.wanted d importer loaded := by
  simp only [Directive.wanted, h.isFile, h.locate]

theorem loadText_eq {load load' : Path → Loader (List (Node Nat))}
    (same : ∀ path, load' path = load path) {t t' : Text} (parsed : parse t' = parse t)
    (path : Path) : loadText d' load' t' path = loadText d load t path := by
  have record : recordPath d' path = recordPath d path := by
    funext loaded
    rw [recordPath, recordPath, h.locate]
  rw [loadText, loadText, record, parsed]
  refine congrArg _ (funext fun _ => ?_)
  split
  · rfl
  · refine importsOfNodes_congr (fun directive => ?_) _
    rw [importNodes, importNodes]
    simp only [h.wanted_eq, same]

theorem load_eq (depth : Nat) (path : Path) : load d' depth path = load d depth path := by
  induction depth generalizing path with
  | zero => rfl
  | succ depth ih =>
    have read := h.read path
    rw [load, load]
    cases hread : d.read path with
    | error e =>
      cases hread' : d'.read path with
      | error e' =>
        rw [hread, hread'] at read
        cases read
        rfl
      | ok t' =>
        rw [hread, hread'] at read
        cases read
    | ok t =>
      cases hread' : d'.read path with
      | error e' =>
        rw [hread, hread'] at read
        cases read
      | ok t' =>
        rw [hread, hread'] at read
        exact h.loadText_eq ih (Except.ok.inj read) path

theorem compile_eq (path : Path) : compile d' path = compile d path := by
  rw [compile, compile, loadFile, loadFile, h.load_eq]

end ParsesAlike

/-- A comment on one line, behind a text that ends between tokens and not in a slash, is as
good as a space: in a text that is compiled, and in a file from which anything is loaded. -/
theorem compile_comment {a c : Text} (between : Comment.modeAfter a = .plain)
    (slash : a.getLast? ≠ some '/') (feed : '\n' ∉ c) (ending : ¬ ['*', '/'] <:+: c) (b : Text) :
    (∀ (disk : Disk) (path : Path), compileSource disk (a ++ Comment.block c ++ b) path =
        compileSource disk (a ++ [' '] ++ b) path) ∧
      ∀ (disk : Disk) (here : Location), disk.CanHold here → ∀ path : Path,
        compile (disk.store here (a ++ Comment.block c ++ b)) path =
          compile (disk.store here (a ++ [' '] ++ b)) path := by
  have parsed := Comment.parse_comment between slash feed ending b
  refine ⟨fun disk path => ?_, fun disk here hold path => ?_⟩
  · have alike : ParsesAlike disk disk := ⟨fun _ => rfl, fun _ => rfl, fun _ => rfl⟩
    rw [compileSource, compileSource, loadSource, loadSource,
      alike.loadText_eq (fun _ => rfl) parsed]
  · exact (parsesAlike_store hold parsed).compile_eq path

/-- Quotes and slashes in a comment begin nothing, and the letters around it are not put
together. -/
theorem compile_comment_apart :
    (Comment.modeAfter ".a \x7b b: url(//c) u" = .plain ∧
        (".a \x7b b: url(//c) u" : Text).getLast? ≠ some '/' ∧ '\n' ∉ ("rl( \" /*" : Text) ∧
        ¬ ['*', '/'] <:+: ("rl( \" /*" : Text) ∧ (Disk.ofFiles []).CanHold ["m.less"]) ∧
      compileSource (.ofFiles [])
          (".a \x7b b: url(//c) u" ++ Comment.block "rl( \" /*" ++ "rl(//d);\n\x7d") "m.less" =
        compileSource (.ofFiles []) (".a \x7b b: url(//c) u" ++ [' '] ++ "rl(//d);\n\x7d") "m.less" ∧
      compile ((Disk.ofFiles []).store ["m.less"]
          (".a \x7b b: url(//c) u" ++ Comment.block "rl( \" /*" ++ "rl(//d);\n\x7d")) "m.less" =
        compile ((Disk.ofFiles []).store ["m.less"]
          (".a \x7b b: url(//c) u" ++ [' '] ++ "rl(//d);\n\x7d")) "m.less" := by
  have between : Comment.modeAfter ".a \x7b b: url(//c) u" = .plain := by decide
  have slash : (".a \x7b b: url(//c) u" : Text).getLast? ≠ some '/' := by decide
  have feed : '\n' ∉ ("rl( \" /*" : Text) := by decide
  have ending : ¬ ['*', '/'] <:+: ("rl( \" /*" : Text) := by decide
  have hold : (Disk.ofFiles []).CanHold ["m.less"] :=
    ⟨⟨[], "m.less", rfl, by decide, rfl⟩, by decide⟩
  obtain ⟨sources, files⟩ := compile_comment between slash feed ending "rl(//d);\n\x7d"
  exact ⟨⟨between, slash, feed, ending, hold⟩, sources _ _, files _ _ hold _⟩

end Less

end StyleTypings
