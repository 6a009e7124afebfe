/-
Arguments — what a string passed to a mixin stands for in its body.

An argument that is a string reaches the body of the mixin as it is written, with its
interpolations still in it, and the body looks at it once more (`text_parameter`).  So the
interpolations are replaced by what the names stand for there (`text_parameter_iff`), which
is what they stand for in the call if the mixin declares nothing that they lead to
(`text_parameter_eq`).
-/
import StyleTypings.Proofs.Scoping

namespace StyleTypings.Less

variable {ι : Type}

/-! ## Strings -/

/-- A text that is a string in quotes, and what stands in the quotes, decoded. -/
def IsString (written content : Text) : Prop :=
  ∃ q rest, Text.isQuote q = true ∧ written = q :: rest ∧
    Css.takeString q 0 rest = (some content, [])

theorem eq_of_isQuote {q : Char} (h : Text.isQuote q = true) : q = '"' ∨ q = '\'' := by
  simpa [Text.isQuote] using h

theorem tokens_string {q : Char} {rest content : Text} (quote : Text.isQuote q = true)
    (h : Css.takeString q 0 rest = (some content, [])) :
    Css.tokens (q :: rest) = [.string content] := by
  have token : Css.takeToken q rest = (some (.string content), []) := by
    obtain rfl | rfl := eq_of_isQuote quote <;> simp [Css.takeToken, Css.takeQuoted, h]
  rw [Css.tokens, List.length_cons, Css.tokensWithin, token]
  cases rest.length <;> rfl

namespace IsString

variable {written content : Text}

/-- A string is an expression that stands for itself. -/
theorem read? (h : IsString written content) :
    Expression.read? written = some (.value (.quoted content)) := by
  obtain ⟨q, rest, quote, rfl, hrest⟩ := h
  have lexemes : Lexeme.read? (q :: rest) = some [.quoted content] := by
    rw [Lexeme.read?, Css.components, tokens_string quote hrest]
    rfl
  rw [Expression.read?, lexemes]
  rfl

theorem assignment?_eq_none (h : IsString written content) : assignment? written = none := by
  obtain ⟨q, rest, quote, rfl, _⟩ := h
  obtain rfl | rfl := eq_of_isQuote quote <;> rfl

end IsString

/-- A string as an argument is passed on. -/
def quoted (content : Text) : Text := '"' :: content ++ ['"']

theorem bare_quoted (content : Text) : Scope.bare (quoted content) = content :=
  Scope.bare_quotes rfl content

/-! ## Passing a string -/

/-- An item of an argument list passes a string to a parameter: the string alone, or under
the name of the parameter. -/
inductive Passes (parameter content : Text) : Text → Prop where
  | positional {item : Text} (h : IsString item content) : Passes parameter content item
  | named {item value : Text} (h : assignment? item = some (parameter, value))
    (string : IsString value content) : Passes parameter content item

namespace Scope

theorem argument_string (s : Scope ι) {written content : Text} (h : IsString written content) :
    s.argument written = .ok (quoted content) := by
  rw [argument, h.read?]
  rfl

/-- A string passed to the only parameter is what the parameter is bound to. -/
theorem bind_arguments (s : Scope ι) {written item parameter content : Text} {a : Arguments}
    {signature : Signature} {default : Option Text} (single : splitArguments written = [item])
    (passes : Passes parameter content item) (ha : s.arguments (some written) = .ok a)
    (only : signature.parameters = [.variable parameter default]) :
    signature.bind a = [(parameter, quoted content)] := by
  have added : s.addArgument ⟨[], []⟩ item = .ok a := by
    simpa [arguments, single] using ha
  rw [Signature.bind, only]
  cases passes with
  | positional string =>
    simp only [addArgument, string.assignment?_eq_none, argument_string s string] at added
    cases added
    rfl
  | named h string =>
    simp only [addArgument, h, argument_string s string] at added
    cases added
    simp [Signature.bindFrom, Arguments.named?]

end Scope

/-- A call evaluates its arguments where it stands. -/
theorem callTask_arguments [DecidableEq ι] {s : Scope ι} {expanding : List ι} {call call' : Call}
    {a : Arguments} {cs : List (Candidate ι)}
    (h : s.callTask expanding call = .ok (.expansions call' a cs)) :
    s.arguments call.arguments = .ok a := by
  obtain ⟨b, chosen, hb, _, ht⟩ := callTask_cases h
  cases ht
  exact hb

/-! ## Strings with interpolations -/

theorem brace_mem_of_interpolatedFrom {skip : Nat} {t name : Text}
    (h : name ∈ Scope.interpolatedFrom skip t) : '\x7b' ∈ t := by
  fun_induction Scope.interpolatedFrom skip t with
  | case1 => cases h
  | case2 skip c rest ih => exact List.mem_cons_of_mem c (ih h)
  | case3 => simp
  | case4 => simp
  | case5 c rest _ ih => exact List.mem_cons_of_mem c (ih h)

/-- A text with interpolations is not just a variable. -/
theorem variableName?_of_interpolated {t : Text} (h : Scope.interpolated t ≠ []) :
    variableName? t = none := by
  obtain ⟨name, hname⟩ := List.exists_mem_of_ne_nil _ h
  have brace := brace_mem_of_interpolatedFrom hname
  unfold variableName?
  split
  · rename_i rest
    have inside : '\x7b' ∈ rest := (List.mem_cons.mp brace).resolve_left (by decide)
    rw [if_neg]
    simp only [Bool.and_eq_true, List.all_eq_true, not_and, not_forall]
    exact fun _ => ⟨_, inside, by decide⟩
  · rfl

section

variable (s : Scope ι) {t : Text} (names : Scope.interpolated t ≠ [])

include names

theorem means_of_plain (plain : ∀ e, Expression.read? t = some e → e.isLiteral) :
    s.means t = Scope.replaceNames (s.textWithin (Scope.maxDepth - 1)) 0 t := by
  obtain ⟨name, hname, _⟩ | ⟨e, hread, computed, _⟩ | ⟨_, _, h⟩ := Scope.meaning_cases t
  · rw [variableName?_of_interpolated names] at hname
    cases hname
  · rw [plain e hread] at computed
    cases computed
  · exact h _ _

theorem means_of_computed {e : Expression} (hread : Expression.read? t = some e)
    (computed : e.isLiteral = false) :
    s.means t = (e.evaluate (s.valueWithin (Scope.maxDepth - 1)) none).map Value.text := by
  obtain ⟨name, hname, _⟩ | ⟨e', hread', _, _, h⟩ | ⟨plain, _⟩ := Scope.meaning_cases t
  · rw [variableName?_of_interpolated names] at hname
    cases hname
  · obtain rfl : e = e' := Option.some.inj (hread.symm.trans hread')
    exact h _ _
  · rw [plain e hread] at computed
    cases computed

end

/-! ## What the body sees -/

section

variable {s : Scope ι} {expanding : List ι} {call call' : Call} {a : Arguments}
  {cs : List (Candidate ι)} {c : Candidate ι} {parameter written item content : Text}
  {default : Option Text}

/-- The value of a parameter goes before whatever the body declares. -/
theorem rawValue?_of_bind {value : Text} (h : c.signature.bind a = [(parameter, value)]) :
    (c.scope s a).rawValue? parameter = some value := by
  have frame : c.scope s a =
      (bindingsOf c.definition.body ++ [.variable parameter value]) :: s := by
    rw [Candidate.scope, h]
    rfl
  have last : Frame.rawValue? (bindingsOf c.definition.body ++ [.variable parameter value])
      parameter = some value := by
    simp [Frame.rawValue?, Binding.rawValue?]
  rw [frame, Scope.rawValue?, List.findSome?_cons, last]

variable [DecidableEq ι]

/-- A string reaches the body with its interpolations still in it, and is looked at there. -/
theorem text_parameter (asks : s.callTask expanding call = .ok (.expansions call' a cs))
    (hwritten : call.arguments = some written) (single : splitArguments written = [item])
    (passes : Passes parameter content item)
    (only : c.signature.parameters = [.variable parameter default]) :
    (c.scope s a).text parameter = (c.scope s a).means content := by
  have bound := s.bind_arguments single passes (hwritten ▸ callTask_arguments asks) only
  rw [Scope.text_of_written (rawValue?_of_bind bound), bare_quoted]

/-- A parameter that is passed a string with interpolations stands in the body for the
string with what the names stand for there, one step less deep, unless the string as a
whole is something to compute.  So it stands for the string as the caller means it exactly
when that comes to the same. -/
theorem text_parameter_iff (asks : s.callTask expanding call = .ok (.expansions call' a cs))
    (hwritten : call.arguments = some written) (single : splitArguments written = [item])
    (passes : Passes parameter content item) (names : Scope.interpolated content ≠ [])
    (only : c.signature.parameters = [.variable parameter default]) :
    (c.scope s a).text parameter = s.interpolate content ↔
      ((∀ e, Expression.read? content = some e → e.isLiteral) ∧
        Scope.replaceNames ((c.scope s a).textWithin (Scope.maxDepth - 1)) 0 content =
          s.interpolate content) ∨
      ∃ e, Expression.read? content = some e ∧ e.isLiteral = false ∧
        (e.evaluate ((c.scope s a).valueWithin (Scope.maxDepth - 1)) none).map Value.text =
          s.interpolate content := by
  rw [text_parameter asks hwritten single passes only]
  constructor
  · intro h
    by_cases plain : ∀ e, Expression.read? content = some e → e.isLiteral
    · exact .inl ⟨plain, means_of_plain _ names plain ▸ h⟩
    · push Not at plain
      obtain ⟨e, hread, computed⟩ := plain
      have computed := Bool.eq_false_iff.mpr computed
      exact .inr ⟨e, hread, computed, means_of_computed _ names hread computed ▸ h⟩
  · rintro (⟨plain, h⟩ | ⟨e, hread, computed, h⟩)
    · rwa [means_of_plain _ names plain]
    · rwa [means_of_computed _ names hread computed]

/-- A string means in the body what the caller means by it, when neither the parameter nor
the body declares anything that its interpolations lead to, and these do not go deeper
than one step less than is followed. -/
theorem text_parameter_eq (asks : s.callTask expanding call = .ok (.expansions call' a cs))
    (hwritten : call.arguments = some written) (single : splitArguments written = [item])
    (passes : Passes parameter content item) (names : Scope.interpolated content ≠ [])
    (only : c.signature.parameters = [.variable parameter default])
    (plain : ∀ e, Expression.read? content = some e → e.isLiteral)
    (settled : ∀ name ∈ Scope.interpolated content,
      s.textWithin (Scope.maxDepth - 1) name = s.text name)
    (kept : ∀ name ∈ Scope.interpolated content, ∀ other, s.LeadsTo name other →
      Frame.rawValue? (c.scope s a).own other = none) :
    (c.scope s a).text parameter = s.interpolate content := by
  rw [text_parameter asks hwritten single passes only, means_of_plain _ names plain]
  refine Scope.replaceNames_congr fun name hname => ?_
  have below : c.scope s a = [(c.scope s a).own] ++ s := rfl
  rw [below, Scope.textWithin_append, settled name hname]
  intro other hother
  exact List.forall_mem_singleton.mpr (kept name hname other hother)

end

/-! ## A name that means two things -/

/-- The mixin `.m`, which declares `@n` beside its parameter. -/
def capturing : Candidate Nat :=
  ⟨⟨1, ".m(@p)", [.statement 2 "@n: inner", .block 3 ".@\x7bp\x7d" [.statement 4 "a: b"]]⟩,
    ⟨".m", [.variable "p" none], false, true, none⟩⟩

/-- The mixin `.k`, which declares nothing but its parameter. -/
def keeping : Candidate Nat :=
  ⟨⟨5, ".k(@p)", [.block 6 ".@\x7bp\x7d" [.statement 7 "a: b"]]⟩,
    ⟨".k", [.variable "p" none], false, true, none⟩⟩

/-- The scope of a style sheet with `@n` and both mixins. -/
def passingScope : Scope Nat :=
  Scope.enter [] [.statement 0 "@n: outer",
    .block 1 capturing.definition.prelude capturing.definition.body,
    .block 5 keeping.definition.prelude keeping.definition.body]

/-- The call of a mixin with the string `"@{n}"`. -/
def stringCall (mixin : Text) : Call :=
  ⟨mixin ++ ("(\"@\x7bn\x7d\")" : Text), [mixin], some "\"@\x7bn\x7d\""⟩

theorem isString_stringCall : IsString "\"@\x7bn\x7d\"" "@\x7bn\x7d" :=
  ⟨'"', "@\x7bn\x7d\"", rfl, rfl, rfl⟩

theorem callTask_keeping : passingScope.callTask [] (stringCall ".k") =
    .ok (.expansions (stringCall ".k") ⟨[quoted "@\x7bn\x7d"], []⟩ [keeping]) := rfl

theorem callTask_capturing : passingScope.callTask [] (stringCall ".m") =
    .ok (.expansions (stringCall ".m") ⟨[quoted "@\x7bn\x7d"], []⟩ [capturing]) := rfl

/-- Passed to a mixin that declares nothing else, the string means what it means in the
call. -/
theorem text_parameter_keeping :
    (keeping.scope passingScope ⟨[quoted "@\x7bn\x7d"], []⟩).text "p" =
      passingScope.interpolate "@\x7bn\x7d" := by
  have unread : (Expression.read? "@\x7bn\x7d").isNone = true := by decide +kernel
  refine (text_parameter_iff callTask_keeping rfl rfl (.positional isString_stringCall)
    (by decide) rfl).mpr (.inl ⟨?_, by decide +kernel⟩)
  intro e hread
  rw [hread] at unread
  cases unread

/-- Not every string passed to a mixin means in the body what it means in the call. -/
theorem not_forall_call_site :
    ¬ ∀ (s : Scope Nat) (expanding : List Nat) (call call' : Call) (a : Arguments)
      (cs : List (Candidate Nat)) (c : Candidate Nat) (parameter written item content : Text),
      s.callTask expanding call = .ok (.expansions call' a cs) → c ∈ cs →
        c.signature.parameters = [.variable parameter none] →
          call.arguments = some written → splitArguments written = [item] →
            Passes parameter content item → Scope.interpolated content ≠ [] →
              (∀ name ∈ Scope.interpolated content, ∃ r, s.text name = .ok r) →
                (c.scope s a).text parameter = s.interpolate content := by
  intro h
  have known : ∀ name ∈ Scope.interpolated "@\x7bn\x7d", ∃ r, passingScope.text name = .ok r := by
    intro name hname
    obtain rfl : name = "n" := List.mem_singleton.mp hname
    exact ⟨"outer", by decide +kernel⟩
  have same := h passingScope [] (stringCall ".m") _ _ _ capturing "p" _ _ "@\x7bn\x7d"
    callTask_capturing (List.mem_singleton.mpr rfl) rfl rfl rfl (.positional isString_stringCall)
    (by decide) known
  exact absurd same (by decide +kernel)

end StyleTypings.Less
