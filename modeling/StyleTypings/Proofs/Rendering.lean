/-
Rendering — what becomes of every class in a declaration file.

Constants first.  Every class has its line or its warning: one of them, once, and both
stand in the order of the classes (`Dealt`).  The text is made of the lines with the line
ending behind each; where no class has a line, it is a line ending by itself, so that a
file is written even then (`textOfLines`).

An interface has a member for every class, also for one that cannot name a constant, and
nobody is warned.  A style sheet without classes has no declarations of any shape.

What is said of the lines, members and warnings gives their wording (`render_loses_nothing`),
so that a line declares the class that it is counted for.
-/
import StyleTypings.Typings.Render
import StyleTypings.Proofs.Files.Slashes

namespace StyleTypings

namespace Typings

/-! ## Lines and warnings -/

/-- Some classes are dealt out into lines and warnings: in order, each of them into one
of the two.  The line of a class is its declaration, and a warning says what is wrong with the
identifier that it quotes. -/
inductive Dealt (declaration : ClassName → Text) :
    List ClassName → List Text → List Text → Prop where
  | nil : Dealt declaration [] [] []
  | declared {c : ClassName} {cs : List ClassName} {ls ws : List Text}
    (valid : Identifier.refusal? c.identifier = none) (rest : Dealt declaration cs ls ws) :
    Dealt declaration (c :: cs) (declaration c :: ls) ws
  | reserved {c : ClassName} {cs : List ClassName} {ls ws : List Text}
    (invalid : Identifier.refusal? c.identifier = some .reservedKeyword)
    (rest : Dealt declaration cs ls ws) :
    Dealt declaration (c :: cs) ls
      ((("[SKIPPING] '" : Text) ++ c.identifier ++
        ("' is a reserved keyword (consider renaming or using --export-type default)." : Text))
        :: ws)
  | dashed {c : ClassName} {cs : List ClassName} {ls ws : List Text}
    (invalid : Identifier.refusal? c.identifier = some .containsDashes)
    (rest : Dealt declaration cs ls ws) :
    Dealt declaration (c :: cs) ls
      ((("[SKIPPING] '" : Text) ++ c.identifier ++
        ("' contains dashes (consider using 'camel' or 'dashes' for --name-format or " : Text) ++
        ("using --export-type default)." : Text)) :: ws)

namespace Dealt

variable {declaration : ClassName → Text} {cs : List ClassName} {ls ws : List Text}

/-- No class is lost, and none is counted twice. -/
theorem length_add (h : Dealt declaration cs ls ws) : ls.length + ws.length = cs.length := by
  induction h with
  | nil => rfl
  | declared _ _ ih =>
    rw [List.length_cons, List.length_cons, ← ih]
    omega
  | reserved _ _ ih =>
    rw [List.length_cons, List.length_cons, ← ih]
    omega
  | dashed _ _ ih =>
    rw [List.length_cons, List.length_cons, ← ih]
    omega

/-- What is filtered twice is dealt out once: the classes with a line, and the warnings
about the others. -/
theorem of_classes (declaration : ClassName → Text) (cs : List ClassName) :
    Dealt declaration cs ((cs.filter isBindable).map declaration) (cs.filterMap warning?) := by
  induction cs with
  | nil => exact .nil
  | cons c cs ih =>
    cases h : Identifier.refusal? c.identifier with
    | none =>
      have bindable : isBindable c = true := by rw [isBindable, h]; rfl
      have silent : warning? c = none := by rw [warning?, h]; rfl
      rw [List.filter_cons_of_pos bindable, List.map_cons, List.filterMap_cons_none silent]
      exact .declared h ih
    | some r =>
      have unbindable : ¬ isBindable c = true := by rw [isBindable, h]; exact Bool.false_ne_true
      have warned : warning? c = some (r.warning c.identifier) := by rw [warning?, h]; rfl
      rw [List.filter_cons_of_neg unbindable, List.filterMap_cons_some warned]
      cases r with
      | reservedKeyword => exact .reserved h ih
      | containsDashes => exact .dashed h ih

end Dealt

/-! ## Texts -/

/-- A text with a backslash before each of its backslashes and of its quotes. -/
def escaped (quote : Char) : Text → Text
  | [] => []
  | c :: t => if c = '\\' ∨ c = quote then '\\' :: c :: escaped quote t else c :: escaped quote t

theorem literal_eq (quote : Char) (t : Text) :
    literal quote t = [quote] ++ escaped quote t ++ [quote] := by
  have inside : t.flatMap (escapeChar quote) = escaped quote t := by
    induction t with
    | nil => rfl
    | cons c t ih =>
      rw [List.flatMap_cons, ih, escaped, escapeChar]
      split <;> simp_all
  rw [literal, inside]

theorem valueLine_eq (c : ClassName) :
    valueLine c = ("export const " : Text) ++ c.identifier ++ (" = \"" : Text) ++
      escaped '"' c.name ++ ("\";" : Text) := by
  have opening : (" = \"" : Text) = (" = " : Text) ++ ['"'] := rfl
  have closing : ("\";" : Text) = ['"'] ++ [';'] := rfl
  unfold valueLine
  rewrite [literal_eq, opening, closing]
  simp only [List.append_assoc]

theorem memberLine_eq (c : ClassName) :
    memberLine c = ("  '" : Text) ++ escaped '\'' c.identifier ++ ("': string;" : Text) := by
  have opening : ("  '" : Text) = [' ', ' '] ++ ['\''] := rfl
  have closing : ("': string;" : Text) = ['\''] ++ (": string;" : Text) := rfl
  unfold memberLine
  rewrite [literal_eq, opening, closing]
  simp only [List.append_assoc]

/-- Lines with the line ending behind each, or the line ending alone if there are none. -/
def textOfLines (newline : Text) (ls : List Text) : Text :=
  if ls.isEmpty then newline else ls.flatMap (· ++ newline)

theorem joinWith_append_newline (newline : Text) (ls : List Text) :
    Text.joinWith newline ls ++ newline = textOfLines newline ls := by
  cases ls with
  | nil => rfl
  | cons l ls => exact Text.joinWith_append_sep newline (List.cons_ne_nil l ls)

/-- What stands before the members of an interface. -/
def interfaceHead (newline : Text) : Text := ("export interface Styles \x7b" : Text) ++ newline

/-- What stands behind the members: the end of the interface, and the default export. -/
def interfaceTail (newline : Text) : Text :=
  ['\x7d'] ++ newline ++ newline ++
    ("export type ClassNames = keyof Styles;" : Text) ++ newline ++ newline ++
    ("declare const styles: Styles;" : Text) ++ newline ++ newline ++
    ("export default styles;" : Text) ++ newline

theorem defaultExport_eq (newline : Text) {members : List Text} (h : members ≠ []) :
    defaultExport newline (Text.joinWith newline members) =
      interfaceHead newline ++ members.flatMap (· ++ newline) ++ interfaceTail newline := by
  unfold defaultExport interfaceHead interfaceTail
  -- What the fixed texts are does not matter, and unifying with them is slow.
  generalize ("export interface Styles \x7b" : Text) = head
  generalize ("export type ClassNames = keyof Styles;" : Text) = names
  generalize ("declare const styles: Styles;" : Text) = constant
  generalize ("export default styles;" : Text) = default
  simp only [← Text.joinWith_append_sep newline h, List.append_assoc]

/-! ## Declarations -/

/-- A rendering of classes as constants: all of them dealt out, the lines in the text and
the warnings beside it. -/
def Accounted (declaration : ClassName → Text) (newline : Text) (cs : List ClassName)
    (r : Rendered) : Prop :=
  ∃ ls ws, Dealt declaration cs ls ws ∧ ls.length + ws.length = cs.length ∧
    r = ⟨some (textOfLines newline ls), ws⟩

theorem render_constants {e : ExportType} (he : e ≠ .default) (ending : LineEnding)
    {cs : List ClassName} (h : cs ≠ []) :
    render e ending cs =
      ⟨some (textOfLines ending.text ((cs.filter isBindable).map (line e))),
        cs.filterMap warning?⟩ := by
  rw [render, if_neg (by simpa using h), ← joinWith_append_newline]
  cases e with
  | default => exact absurd rfl he
  | named => rfl
  | values => rfl

theorem render_default (ending : LineEnding) {cs : List ClassName} (h : cs ≠ []) :
    render .default ending cs =
      ⟨some (interfaceHead ending.text ++ (cs.map memberLine).flatMap (· ++ ending.text) ++
        interfaceTail ending.text), []⟩ := by
  rw [render, if_neg (by simpa using h), ← defaultExport_eq ending.text (by simpa using h)]
  rfl

theorem render_accounted {e : ExportType} (he : e ≠ .default) (ending : LineEnding)
    {declaration : ClassName → Text} (spelled : ∀ c, line e c = declaration c)
    {cs : List ClassName} (h : cs ≠ []) :
    Accounted declaration ending.text cs (render e ending cs) := by
  cases funext spelled
  have dealt := Dealt.of_classes (line e) cs
  exact ⟨_, _, dealt, dealt.length_add, render_constants he ending h⟩

/-- Every class of a style sheet comes out once: among the constants as the line that declares
it or else as a warning about it, and in the interface as a member.  Without classes there are
no declarations, and no warnings. -/
theorem render_loses_nothing (ending : LineEnding) (c : ClassName) (cs : List ClassName) :
    Accounted (fun c => ("export const " : Text) ++ c.identifier ++ (": string;" : Text))
      ending.text (c :: cs) (render .named ending (c :: cs)) ∧
    Accounted (fun c => ("export const " : Text) ++ c.identifier ++ (" = \"" : Text) ++
        escaped '"' c.name ++ ("\";" : Text))
      ending.text (c :: cs) (render .values ending (c :: cs)) ∧
    render .default ending (c :: cs) =
      ⟨some (interfaceHead ending.text ++
        ((c :: cs).map fun c =>
          ("  '" : Text) ++ escaped '\'' c.identifier ++ ("': string;" : Text)).flatMap
            (· ++ ending.text) ++
        interfaceTail ending.text), []⟩ ∧
    ∀ e, render e ending [] = ⟨none, []⟩ := by
  have nonempty : c :: cs ≠ [] := List.cons_ne_nil c cs
  refine ⟨?_, ?_, ?_, ?_⟩
  · exact render_accounted (e := .named) (by decide) ending (fun _ => rfl) nonempty
  · exact render_accounted (e := .values) (by decide) ending valueLine_eq nonempty
  · rw [render_default ending nonempty, funext memberLine_eq]
  · intro e
    rfl

/-- A constant holds the name of its class, and a reserved word has only a warning. -/
theorem render_loses_nothing_reserved :
    render .values .lf [⟨"navBar", "nav-\"bar\""⟩, ⟨"if", "if"⟩] =
      ⟨some "export const navBar = \"nav-\\\"bar\\\"\";\n",
        [("[SKIPPING] 'if' is a reserved keyword " : Text) ++
          ("(consider renaming or using --export-type default)." : Text)]⟩ := by
  have free : Identifier.refusal? "navBar" = none := by decide
  have reserved : Identifier.refusal? "if" = some .reservedKeyword := by decide
  obtain ⟨ls, ws, dealt, -, rendered⟩ :=
    (render_loses_nothing .lf ⟨"navBar", "nav-\"bar\""⟩ [⟨"if", "if"⟩]).2.1
  rw [rendered]
  cases dealt with
  | declared _ dealt =>
    cases dealt with
    | declared valid => exact absurd (reserved.symm.trans valid) nofun
    | reserved _ dealt =>
      cases dealt
      rfl
    | dashed invalid => exact absurd (reserved.symm.trans invalid) (by decide)
  | reserved invalid => exact absurd (free.symm.trans invalid) nofun
  | dashed invalid => exact absurd (free.symm.trans invalid) nofun

/-- Where every class is skipped, a lone line ending is left. -/
example : render .named .crLf [⟨"if", "if"⟩, ⟨"a-b", "a-b"⟩] =
    ⟨some "\r\n", [Identifier.Refusal.warning "if" .reservedKeyword,
      Identifier.Refusal.warning "a-b" .containsDashes]⟩ := by
  decide

end Typings

end StyleTypings
