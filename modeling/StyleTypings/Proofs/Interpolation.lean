/-
Interpolation — names in preludes, and what they hold put in their places.

A prelude is read before anything in it is replaced: as an at-rule, as a mixin with
parameters, or as a list of selectors with or without a guard (`Reading`).  The block asks
for what the reading says (`blockTask_eq`), and only in a list of selectors are
interpolations replaced.

They can be replaced beforehand, throughout a style sheet without calls, where every name
holds an escaped string with a simple selector or a part of a name in it (`Substituted`).
The result stays if every prelude is read afterwards as it was before, with the names in
its list of selectors replaced (`KeepsReading`).  That is not so where a prelude begins with an
interpolation: it is read as an at-rule then, and its block is left out.
-/
import StyleTypings.Proofs.Evaluation.Numbering
import StyleTypings.Proofs.Preludes

namespace StyleTypings.Less

variable {ι κ : Type}

/-! ## Replacing names -/

namespace Scope

variable {resolve : Text → Except CompileError Text} {t t' : Text}

theorem replaceNames_closed_eq_ok {after name after' : Text}
    (closed : Text.breakAt? '\x7d' after = some (name, after'))
    (h : replaceNames resolve 0 ('@' :: '\x7b' :: after) = .ok t') :
    ∃ content rest, resolve name = .ok content ∧
      replaceNames resolve (name.length + 2) ('\x7b' :: after) = .ok rest ∧
        t' = content ++ rest := by
  rw [replaceNames_closed closed] at h
  obtain ⟨content, hname, h⟩ := ok_of_bind h
  obtain ⟨rest, hrest, h⟩ := ok_of_bind h
  exact ⟨content, rest, hname, hrest, (Except.ok.inj h).symm⟩

/-- An interpolation that is not closed is none. -/
theorem replaceNames_of_unclosed (h : Text.breakAt? '\x7d' t = none) :
    replaceNames resolve 0 t = .ok t := by
  induction t with
  | nil => simp only [replaceNames]
  | cons c t ih =>
    have rest : Text.breakAt? '\x7d' t = none := by
      rw [Text.breakAt?] at h
      split at h
      · cases h
      · exact Option.map_eq_none_iff.mp h
    by_cases opens : c = '@' ∧ ∃ after, t = '\x7b' :: after
    · obtain ⟨rfl, after, rfl⟩ := opens
      have unclosed : Text.breakAt? '\x7d' after = none := by
        rw [Text.breakAt?, if_neg (by decide)] at rest
        exact Option.map_eq_none_iff.mp rest
      rw [replaceNames_open unclosed, ih rest]
      rfl
    · rw [replaceNames_plain fun after hc ht => opens ⟨hc, after, ht⟩, ih rest]
      rfl

theorem resolved_of_replaceNames {skip : Nat} (h : replaceNames resolve skip t = .ok t') :
    ∀ name ∈ interpolatedFrom skip t, ∃ content, resolve name = .ok content := by
  fun_induction interpolatedFrom skip t generalizing t' with
  | case1 => exact fun _ hname => absurd hname List.not_mem_nil
  | case2 skip c rest ih => exact ih (by rwa [replaceNames] at h)
  | case3 after name after' closed ih =>
    obtain ⟨content, rest, hname, hrest, _⟩ := replaceNames_closed_eq_ok closed h
    simp only [List.mem_cons, forall_eq_or_imp]
    exact ⟨⟨content, hname⟩, ih hrest⟩
  | case4 after unclosed ih =>
    obtain ⟨rest, hrest, _⟩ := ok_of_map (replaceNames_open unclosed ▸ h)
    exact ih hrest
  | case5 c rest plain ih =>
    obtain ⟨rest', hrest, _⟩ := ok_of_map (replaceNames_plain plain ▸ h)
    exact ih hrest

end Scope

/-! ## Contents -/

/-- A simple selector or a part of a name: letters, digits, hyphens and underscores, perhaps
behind a point or a hash. -/
def isPart : Text → Bool
  | [] => false
  | c :: rest =>
    let name := if c = '.' || c = '#' then rest else c :: rest
    ! name.isEmpty && name.all isIdentChar

/-- What an escaped string holds, if that is such a part. -/
def partOf? : Text → Option Text
  | '~' :: q :: rest =>
    if Text.isQuote q && rest.getLast? == some q && isPart rest.dropLast then some rest.dropLast
    else none
  | _ => none

/-- What is put in the place of an interpolated name. -/
def contentOf (values : Text → Option Text) (name : Text) : Except CompileError Text :=
  match (values name).bind partOf? with
  | some content => .ok content
  | none => .error (.undefinedVariable name)

section Contents

variable {t content written name : Text} {values : Text → Option Text}

theorem ne_nil_of_isPart (h : isPart t = true) : t ≠ [] := by
  rintro rfl
  cases h

/-- A character that no part has. -/
structure Foreign (d : Char) : Prop where
  point : d ≠ '.'
  hash : d ≠ '#'
  ident : isIdentChar d = false

theorem foreign_sign : Foreign '@' := ⟨by decide, by decide, by decide +kernel⟩

theorem foreign_brace : Foreign '\x7b' := ⟨by decide, by decide, by decide +kernel⟩

theorem foreign_parenthesis : Foreign '(' := ⟨by decide, by decide, by decide +kernel⟩

theorem Foreign.not_mem {d : Char} (foreign : Foreign d) (h : isPart t = true) : d ∉ t := by
  cases t with
  | nil => exact List.not_mem_nil
  | cons c rest =>
    simp only [isPart, Bool.and_eq_true, List.all_eq_true] at h
    have name : d ∉ if (c = '.' || c = '#') = true then rest else c :: rest := fun hd =>
      absurd (h.2 d hd) (by simp [foreign.ident])
    split at name
    · rename_i first
      have first : c = '.' ∨ c = '#' := by simpa using first
      refine List.not_mem_cons_of_ne_of_not_mem ?_ name
      rintro rfl
      exact first.elim foreign.point foreign.hash
    · exact name

theorem partOf?_eq_some (h : partOf? written = some content) :
    isPart content = true ∧
      ∃ q, Text.isQuote q = true ∧ written = '~' :: q :: (content ++ [q]) := by
  unfold partOf? at h
  split at h
  · rename_i q rest
    split at h
    · rename_i hparts
      simp only [Bool.and_eq_true, beq_iff_eq] at hparts
      obtain ⟨⟨quote, last⟩, part⟩ := hparts
      obtain rfl := Option.some.inj h
      exact ⟨part, q, quote, by rw [List.dropLast_append_getLast? q last]⟩
    · cases h
  · cases h

/-- A value without its tilde and its quotes is what it holds. -/
theorem bare_of_partOf? (h : partOf? written = some content) : Scope.bare written = content := by
  obtain ⟨_, q, quote, rfl⟩ := partOf?_eq_some h
  rw [Scope.bare_tilde, Scope.bare_quotes quote]

theorem contentOf_eq_ok (h : contentOf values name = .ok content) :
    ∃ written, values name = some written ∧ partOf? written = some content := by
  unfold contentOf at h
  split at h
  · rename_i hvalue
    cases h
    exact Option.bind_eq_some_iff.mp hvalue
  · cases h

theorem isPart_of_contentOf (h : contentOf values name = .ok content) : isPart content = true := by
  obtain ⟨_, _, hpart⟩ := contentOf_eq_ok h
  exact (partOf?_eq_some hpart).1

/-- A name stands for what is put in its place, unless that is something to compute. -/
theorem text_of_contentOf {s : Scope ι} (h : contentOf s.rawValue? name = .ok content)
    (literal : ∀ e, Expression.read? content = some e → e.isLiteral) :
    s.text name = .ok content := by
  obtain ⟨written, hvalue, hpart⟩ := contentOf_eq_ok h
  have unsigned : '@' ∉ content := foreign_sign.not_mem (partOf?_eq_some hpart).1
  rw [Scope.text_of_written hvalue, bare_of_partOf? hpart, Scope.means]
  obtain ⟨other, hother, _⟩ | ⟨e, hread, computed, _⟩ | ⟨_, _, h⟩ := Scope.meaning_cases content
  · unfold variableName? at hother
    split at hother
    · exact absurd List.mem_cons_self unsigned
    · cases hother
  · rw [literal e hread] at computed
    cases computed
  · rw [h, Scope.replaceNames_of_unsigned unsigned]

end Contents

/-! ### Contents in a text -/

section Replaced

open Scope (replaceNames)

variable {values : Text → Option Text} {t t' : Text}

theorem Foreign.mem_of_replaceNames {d : Char} (foreign : Foreign d) {skip : Nat}
    (h : replaceNames (contentOf values) skip t = .ok t') (hd : d ∈ t') : d ∈ t := by
  fun_induction Scope.interpolatedFrom skip t generalizing t' with
  | case1 =>
    cases h
    exact hd
  | case2 skip c rest ih => exact List.mem_cons_of_mem c (ih (by rwa [replaceNames] at h) hd)
  | case3 after name after' closed ih =>
    obtain ⟨content, rest, hname, hrest, rfl⟩ := Scope.replaceNames_closed_eq_ok closed h
    obtain hd | hd := List.mem_append.mp hd
    · exact absurd hd (foreign.not_mem (isPart_of_contentOf hname))
    · exact List.mem_cons_of_mem '@' (ih hrest hd)
  | case4 after unclosed ih =>
    obtain ⟨rest, hrest, rfl⟩ := ok_of_map (Scope.replaceNames_open unclosed ▸ h)
    exact List.mem_cons.mpr ((List.mem_cons.mp hd).imp id fun hd => ih hrest hd)
  | case5 c rest plain ih =>
    obtain ⟨rest', hrest, rfl⟩ := ok_of_map (Scope.replaceNames_plain plain ▸ h)
    exact List.mem_cons.mpr ((List.mem_cons.mp hd).imp id fun hd => ih hrest hd)

/-- A foreign character that begins a text with contents in it began the text before. -/
theorem Foreign.begins_of_replaceNames {d : Char} (foreign : Foreign d) {after : Text}
    (h : replaceNames (contentOf values) 0 t = .ok (d :: after)) : ∃ rest, t = d :: rest := by
  generalize hskip : 0 = skip at h
  fun_cases Scope.interpolatedFrom skip t with
  | case1 => simp [replaceNames] at h
  | case2 => cases hskip
  | case3 inside name after' closed =>
    obtain ⟨content, rest, hname, _, heq⟩ := Scope.replaceNames_closed_eq_ok closed h
    have part := isPart_of_contentOf hname
    obtain ⟨c, content, rfl⟩ := List.exists_cons_of_ne_nil (ne_nil_of_isPart part)
    obtain ⟨rfl, _⟩ := List.cons.inj heq
    exact absurd List.mem_cons_self (foreign.not_mem part)
  | case4 inside unclosed =>
    obtain ⟨rest, _, heq⟩ := ok_of_map (Scope.replaceNames_open unclosed ▸ h)
    exact ⟨_, by rw [(List.cons.inj heq).1]⟩
  | case5 c rest plain =>
    obtain ⟨rest', _, heq⟩ := ok_of_map (Scope.replaceNames_plain plain ▸ h)
    exact ⟨_, by rw [(List.cons.inj heq).1]⟩

/-- With contents in the places of all names, nothing is left to replace. -/
theorem replaceNames_replaced {resolve : Text → Except CompileError Text} {skip : Nat}
    (h : replaceNames (contentOf values) skip t = .ok t') : replaceNames resolve 0 t' = .ok t' := by
  fun_induction Scope.interpolatedFrom skip t generalizing t' with
  | case1 =>
    cases h
    simp only [replaceNames]
  | case2 skip c rest ih => exact ih (by rwa [replaceNames] at h)
  | case3 after name after' closed ih =>
    obtain ⟨content, rest, hname, hrest, rfl⟩ := Scope.replaceNames_closed_eq_ok closed h
    have unsigned := foreign_sign.not_mem (isPart_of_contentOf hname)
    rw [Scope.replaceNames_append unsigned, ih hrest]
    rfl
  | case4 after unclosed _ =>
    have whole : Text.breakAt? '\x7d' ('@' :: '\x7b' :: after) = none := by
      simp [Text.breakAt?, unclosed]
    rw [Scope.replaceNames_of_unclosed whole] at h
    obtain rfl := Except.ok.inj h
    exact Scope.replaceNames_of_unclosed whole
  | case5 c rest plain ih =>
    obtain ⟨rest', hrest, rfl⟩ := ok_of_map (Scope.replaceNames_plain plain ▸ h)
    -- No interpolation begins here, since no content begins with a brace.
    have stays : ∀ after, c = '@' → rest' = '\x7b' :: after → False := by
      rintro after hc rfl
      obtain ⟨after', hrest'⟩ := foreign_brace.begins_of_replaceNames hrest
      exact plain after' hc hrest'
    rw [Scope.replaceNames_plain stays, ih hrest]
    rfl

/-- A text with names comes to what it is with their contents in it. -/
theorem interpolate_of_replaceNames {s : Scope ι}
    (h : replaceNames (contentOf s.rawValue?) 0 t = .ok t')
    (literal : ∀ name ∈ Scope.interpolated t, ∀ content,
      contentOf s.rawValue? name = .ok content →
        ∀ e, Expression.read? content = some e → e.isLiteral) :
    s.interpolate t = .ok t' := by
  rw [← h, Scope.interpolate]
  refine Scope.replaceNames_congr fun name hname => ?_
  obtain ⟨content, hcontent⟩ := Scope.resolved_of_replaceNames h name hname
  rw [hcontent, text_of_contentOf hcontent (literal name hname content hcontent)]

end Replaced

/-! ## Readings -/

/-- How a prelude is taken, before anything in it is replaced. -/
inductive Reading where
  /-- As that of a block without output where it stands. -/
  | hidden
  /-- As that of a block for the selectors around it. -/
  | inner
  /-- As a list of selectors, perhaps with a guard. -/
  | selectors (list : Text) (guard : Option Text)
deriving DecidableEq, Repr

namespace Reading

def ofPrelude (prelude : Text) : Reading :=
  match prelude with
  | '@' :: atRule =>
    if (detachedName? prelude).isNone && Selector.bubbles atRule then .inner else .hidden
  | _ =>
    if Signature.isParametric prelude then .hidden
    else .selectors (Selector.splitGuard prelude).1 (Selector.splitGuard prelude).2

/-- The reading with the names in its list of selectors replaced. -/
def replace (resolve : Text → Except CompileError Text) : Reading → Except CompileError Reading
  | .selectors list guard => (Scope.replaceNames resolve 0 list).map (.selectors · guard)
  | r => .ok r

/-- The selectors of the rule set that a block makes, if it makes one. -/
def selectors? (s : Scope ι) (context : List Text) :
    Reading → Except CompileError (Option (List Text))
  | .hidden => .ok none
  | .inner => .ok (some context)
  | .selectors list guard => do
    if ← s.guardHolds guard then
      let list ← s.interpolate list
      return some (Selector.join context (Selector.withoutExtends list))
    else return none

end Reading

/-- What a block with given nodes asks for that makes a rule set of selectors, or none. -/
def taskOf (nodes : List (Node ι)) : Option (List Text) → Task ι
  | some selectors => .ruleset selectors nodes
  | none => .none false

/-- What a block asks for depends on the reading of its prelude. -/
theorem blockTask_eq (s : Scope ι) (context : List Text) (prelude : Text) (nodes : List (Node ι)) :
    s.blockTask context prelude nodes =
      ((Reading.ofPrelude prelude).selectors? s context).map (taskOf nodes) := by
  unfold Scope.blockTask Reading.ofPrelude
  split
  · rename_i atRule
    by_cases inner : (detachedName? ('@' :: atRule)).isNone && Selector.bubbles atRule
    · simp only [if_pos inner]
      rfl
    · simp only [if_neg inner]
      rfl
  · by_cases parametric : Signature.isParametric prelude
    · simp only [if_pos parametric]
      rfl
    · simp only [if_neg parametric, Scope.selectorBlockTask, Reading.selectors?]
      rcases s.guardHolds (Selector.splitGuard prelude).2 with e | _ | _
      · rfl
      · rfl
      · cases s.interpolate (Selector.splitGuard prelude).1 <;> rfl

/-- A prelude is read with the contents of its names as it is read with the names, and none
of the contents put among its selectors is something to compute. -/
structure KeepsReading (values : Text → Option Text) (prelude prelude' : Text) : Prop where
  reading : (Reading.ofPrelude prelude).replace (contentOf values) =
    .ok (Reading.ofPrelude prelude')
  literal : ∀ list guard, Reading.ofPrelude prelude = .selectors list guard →
    ∀ name ∈ Scope.interpolated list, ∀ content, contentOf values name = .ok content →
      ∀ e, Expression.read? content = some e → e.isLiteral

/-- A prelude that begins with no sign, and has no parenthesis and no guard, is a list of
selectors. -/
theorem ofPrelude_eq_selectors {prelude : Text} (start : ∀ rest, prelude ≠ '@' :: rest)
    (parenthesis : '(' ∉ prelude) (unguarded : (Selector.breakGuard prelude).2 = none) :
    Reading.ofPrelude prelude = .selectors prelude none := by
  have plain : Signature.isParametric prelude = false := by
    refine isParametric_eq_false fun name rest inside hname opening => ?_
    obtain ⟨c, after, rfl, rfl⟩ := takeMixinName?_eq_some hname
    have hmem : '(' ∈ Text.trimLeft (after.dropWhile isNameChar) :=
      opening ▸ List.mem_cons_self
    have hafter : '(' ∈ after :=
      (List.dropWhile_suffix _).subset ((List.dropWhile_suffix _).subset hmem)
    exact parenthesis (List.mem_cons_of_mem c hafter)
  unfold Reading.ofPrelude
  split
  · exact absurd rfl (start _)
  · rw [plain, if_neg Bool.false_ne_true, splitGuard_of_unguarded unguarded]

/-- Wherever else in a plain list of selectors a name stands, the prelude is read with its
content as with the name, unless a guard comes about. -/
theorem KeepsReading.of_plain {values : Text → Option Text} {prelude prelude' : Text}
    (start : ∀ rest, prelude ≠ '@' :: rest) (parenthesis : '(' ∉ prelude)
    (unguarded : (Selector.breakGuard prelude).2 = none)
    (unguarded' : (Selector.breakGuard prelude').2 = none)
    (replaced : Scope.replaceNames (contentOf values) 0 prelude = .ok prelude')
    (literal : ∀ name ∈ Scope.interpolated prelude, ∀ content,
      contentOf values name = .ok content → ∀ e, Expression.read? content = some e → e.isLiteral) :
    KeepsReading values prelude prelude' := by
  have read := ofPrelude_eq_selectors start parenthesis unguarded
  have start' : ∀ rest, prelude' ≠ '@' :: rest := by
    rintro rest rfl
    obtain ⟨rest', rfl⟩ := foreign_sign.begins_of_replaceNames replaced
    exact start rest' rfl
  have read' : Reading.ofPrelude prelude' = .selectors prelude' none :=
    ofPrelude_eq_selectors start'
      (fun h => parenthesis (foreign_parenthesis.mem_of_replaceNames replaced h)) unguarded'
  constructor
  · rw [read, read', Reading.replace, replaced]
    rfl
  · rintro list guard hlist
    obtain ⟨rfl, _⟩ := Reading.selectors.inj (read.symm.trans hlist)
    exact literal

/-- The rule set that a block makes has the same selectors. -/
theorem KeepsReading.selectors? {s : Scope ι} {s' : Scope κ} {prelude prelude' : Text}
    (h : KeepsReading s.rawValue? prelude prelude') (same : s.rawValue? = s'.rawValue?)
    (context : List Text) :
    (Reading.ofPrelude prelude).selectors? s context =
      (Reading.ofPrelude prelude').selectors? s' context := by
  obtain ⟨reading, literal⟩ := h
  generalize Reading.ofPrelude prelude = r, Reading.ofPrelude prelude' = r' at reading literal
  cases r with
  | hidden =>
    cases reading
    rfl
  | inner =>
    cases reading
    rfl
  | selectors list guard =>
    rw [Reading.replace] at reading
    cases hlist : Scope.replaceNames (contentOf s.rawValue?) 0 list with
    | error e => rw [hlist] at reading; cases reading
    | ok list' =>
      rw [hlist] at reading
      obtain rfl : Reading.selectors list' guard = r' := Except.ok.inj reading
      have first : s.interpolate list = .ok list' :=
        interpolate_of_replaceNames hlist (literal list guard rfl)
      have second : s'.interpolate list' = .ok list' := replaceNames_replaced hlist
      rw [Reading.selectors?, Reading.selectors?, Scope.guardHolds_congr same, first, second]

/-! ## Style sheets -/

/-- The values inside a block, given those around it. -/
def valuesIn (values : Text → Option Text) (body : List (Node ι)) : Text → Option Text :=
  fun name => (Frame.rawValue? (bindingsOf body) name).or (values name)

/-- A style sheet without calls, and the same one with the names in all preludes replaced by
what they hold where they stand.  Every prelude and what becomes of it may have to meet a
condition; tags do not matter. -/
inductive Substituted (C : (Text → Option Text) → Text → Text → Prop) :
    (Text → Option Text) → List (Node ι) → List (Node κ) → Prop where
  | nil (values : Text → Option Text) : Substituted C values [] []
  | statement {values : Text → Option Text} (tag : ι) (tag' : κ) {text : Text}
      {rest : List (Node ι)} {rest' : List (Node κ)}
      (callsNothing : (Statement.ofText text).calls = []) (h : Substituted C values rest rest') :
    Substituted C values (.statement tag text :: rest) (.statement tag' text :: rest')
  | block {values : Text → Option Text} (tag : ι) (tag' : κ) {prelude prelude' : Text}
      {body rest : List (Node ι)} {body' rest' : List (Node κ)}
      (replaced : Scope.replaceNames (contentOf values) 0 prelude = .ok prelude')
      (condition : C values prelude prelude')
      (inside : Substituted C (valuesIn values body) body body')
      (h : Substituted C values rest rest') :
    Substituted C values (.block tag prelude body :: rest) (.block tag' prelude' body' :: rest')
  | imported {values : Text → Option Text} (file file' : Location) (reference : Bool)
      {nodes rest : List (Node ι)} {nodes' rest' : List (Node κ)}
      (inside : Substituted C values nodes nodes') (h : Substituted C values rest rest') :
    Substituted C values (.imported file reference nodes :: rest)
      (.imported file' reference nodes' :: rest')

theorem rawValue?_enter (s : Scope ι) (body : List (Node ι)) :
    (s.enter body).rawValue? = valuesIn s.rawValue? body := by
  funext name
  exact Scope.rawValue?_cons s (bindingsOf body) name

/-- A block declares no variable. -/
theorem block_rawValues (tag : ι) (prelude : Text) (body : List (Node ι)) (name : Text) :
    (Node.block tag prelude body).bindings.filterMap (Binding.rawValue? name) = [] := by
  rw [Node.bindings]
  split
  · rfl
  · simp [Binding.rawValue?]

namespace Substituted

variable {C : (Text → Option Text) → Text → Text → Prop} {values : Text → Option Text}
  {l : List (Node ι)} {l' : List (Node κ)}

theorem rawValues (h : Substituted C values l l') (name : Text) :
    (bindingsOf l).filterMap (Binding.rawValue? name) =
      (bindingsOf l').filterMap (Binding.rawValue? name) := by
  induction h with
  | nil => rfl
  | statement tag tag' _ _ ih =>
    rw [bindingsOf_cons, bindingsOf_cons, List.filterMap_append, List.filterMap_append, ih]
    congr 1
    rw [Node.bindings, Node.bindings]
    split <;> rfl
  | block tag tag' _ _ _ _ _ ih =>
    rw [bindingsOf_cons, bindingsOf_cons, List.filterMap_append, List.filterMap_append, ih,
      block_rawValues, block_rawValues]
  | imported file file' reference _ _ inside ih =>
    rw [bindingsOf_cons, bindingsOf_cons, List.filterMap_append, List.filterMap_append, ih,
      Node.bindings, Node.bindings, inside]

/-- The variables have the same values in both. -/
theorem valuesIn_eq (h : Substituted C values l l') (outer : Text → Option Text) :
    valuesIn outer l' = valuesIn outer l := by
  funext name
  rw [valuesIn, valuesIn, Frame.rawValue?, Frame.rawValue?, h.rawValues name]

end Substituted

/-! ### Outcomes -/

section Outcomes

variable [DecidableEq ι] [DecidableEq κ] (depth : Nat) {s : Scope ι} {s' : Scope κ}
  (context : List Text) (output : Bool) {e : List ι} {e' : List κ}

/-- A statement that calls nothing asks for nothing, or fails, in the same way in all
scopes. -/
theorem statementTask_of_callsNothing (s : Scope ι) (s' : Scope κ) (e : List ι) (e' : List κ)
    {text : Text} (h : (Statement.ofText text).calls = []) :
    ∃ r : Except CompileError Bool,
      s.statementTask e text = r.map .none ∧ s'.statementTask e' text = r.map .none := by
  rw [Scope.statementTask, Scope.statementTask]
  cases hstatement : Statement.ofText text with
  | declaration => exact ⟨.ok true, rfl, rfl⟩
  | inert => exact ⟨.ok false, rfl, rfl⟩
  | call c =>
    rw [hstatement] at h
    have path : c.path = [] := List.map_eq_nil_iff.mp h
    refine ⟨.error (.undefinedMixin c.text), ?_, ?_⟩ <;>
      simp [Scope.callTask, path, Scope.find, Except.map]
  | detachedCall name =>
    rw [hstatement] at h
    cases h

theorem outcome_statement_congr {text : Text} (h : (Statement.ofText text).calls = []) {tag : ι}
    {tag' : κ} :
    outcome (evalNode (evalBody depth) s context output (.statement tag text)) e =
      outcome (evalNode (evalBody depth) s' context output (.statement tag' text)) e' := by
  obtain ⟨r, hr, hr'⟩ := statementTask_of_callsNothing s s' e e' h
  have asks : s.task e context (.statement tag text) = r.map .none := hr
  have asks' : s'.task e' context (.statement tag' text) = r.map .none := hr'
  cases r with
  | error error =>
    rw [outcome_evalNode_error depth s context output asks,
      outcome_evalNode_error depth s' context output asks']
  | ok declares =>
    rw [outcome_evalNode_ok depth s context output asks,
      outcome_evalNode_ok depth s' context output asks']
    rfl

/-- Blocks that make rule sets of the same selectors come to the same if their bodies do. -/
theorem outcome_block_congr {tag : ι} {tag' : κ} {prelude prelude' : Text} {body : List (Node ι)}
    {body' : List (Node κ)}
    (selectors : (Reading.ofPrelude prelude).selectors? s context =
      (Reading.ofPrelude prelude').selectors? s' context)
    (inside : ∀ selectors, outcome (evalBody depth (s.enter body) body selectors output) e =
      outcome (evalBody depth (s'.enter body') body' selectors output) e') :
    outcome (evalNode (evalBody depth) s context output (.block tag prelude body)) e =
      outcome (evalNode (evalBody depth) s' context output (.block tag' prelude' body')) e' := by
  have asks : s.task e context (.block tag prelude body) =
      ((Reading.ofPrelude prelude).selectors? s context).map (taskOf body) :=
    blockTask_eq s context prelude body
  have asks' : s'.task e' context (.block tag' prelude' body') =
      ((Reading.ofPrelude prelude).selectors? s context).map (taskOf body') := by
    rw [selectors]
    exact blockTask_eq s' context prelude' body'
  generalize (Reading.ofPrelude prelude).selectors? s context = r at asks asks'
  rcases r with error | _ | selectors
  · rw [outcome_evalNode_error depth s context output asks,
      outcome_evalNode_error depth s' context output asks']
  · rw [outcome_evalNode_ok depth s context output asks,
      outcome_evalNode_ok depth s' context output asks']
    rfl
  · rw [outcome_evalNode_ok depth s context output asks,
      outcome_evalNode_ok depth s' context output asks', taskOf, taskOf, outcome_evalTask_ruleset,
      outcome_evalTask_ruleset, inside]

end Outcomes

/-- With its names replaced, a body comes to the same at every depth. -/
theorem Substituted.outcome_eq [DecidableEq ι] [DecidableEq κ] {e : List ι} {e' : List κ}
    (depth : Nat) {values : Text → Option Text} {l : List (Node ι)} {l' : List (Node κ)}
    (h : Substituted KeepsReading values l l') {s : Scope ι} {s' : Scope κ}
    (hs : s.rawValue? = values) (hs' : s'.rawValue? = values) (context : List Text)
    (output : Bool) :
    outcome (evalBody depth s l context output) e =
      outcome (evalBody depth s' l' context output) e' := by
  induction depth generalizing values l l' s s' context output with
  | zero => rfl
  | succ depth ih =>
    show outcome (evalNodes (evalBody depth) s context output l) e =
      outcome (evalNodes (evalBody depth) s' context output l') e'
    induction h with
    | nil => rfl
    | statement tag tag' callsNothing _ later =>
      rw [outcome_evalNodes_cons, outcome_evalNodes_cons, later hs hs']
      congr 1
      exact outcome_statement_congr depth context output callsNothing
    | @block values tag tag' prelude prelude' body _ body' _ _ condition inside _ _ later =>
      obtain rfl := hs
      rw [outcome_evalNodes_cons, outcome_evalNodes_cons, later rfl hs']
      congr 1
      refine outcome_block_congr depth context output (condition.selectors? hs'.symm context) ?_
      intro selectors
      refine ih inside (rawValue?_enter s body) ?_ selectors output
      rw [rawValue?_enter, hs', inside.valuesIn_eq]
    | imported file file' reference inside _ _ later =>
      rw [outcome_evalNodes_cons, outcome_evalNodes_cons, later hs hs']
      congr 1
      rw [outcome_evalNode_ok depth s context output (n := .imported file reference _) rfl,
        outcome_evalNode_ok depth s' context output (n := .imported file' reference _) rfl]
      exact ih inside hs hs' context (output && ! reference)

/-! ### Numbering -/

theorem valuesIn_numberNodes (values : Text → Option Text) (body : List (Node ι)) (next : Nat) :
    valuesIn values (numberNodes next body).1 = valuesIn values body := by
  funext name
  have frames := Frame.Like.of_forall₂ (numberNodes_bindings body next)
  rw [valuesIn, valuesIn, frame_rawValue?_eq (frames (.variable name))]

theorem Substituted.number {C : (Text → Option Text) → Text → Text → Prop}
    {values : Text → Option Text} {l : List (Node ι)} {l' : List (Node κ)}
    (h : Substituted C values l l') (j k : Nat) :
    Substituted C values (numberNodes j l).1 (numberNodes k l').1 := by
  induction h generalizing j k with
  | nil values => exact .nil values
  | statement tag tag' callsNothing _ ih =>
    simp only [numberNodes, Node.number]
    exact .statement _ _ callsNothing (ih _ _)
  | block tag tag' replaced condition _ _ inside ih =>
    simp only [numberNodes, Node.number]
    refine .block _ _ replaced condition ?_ (ih _ _)
    rw [valuesIn_numberNodes]
    exact inside _ _
  | imported file file' reference _ _ inside ih =>
    simp only [numberNodes, Node.number]
    exact .imported file file' reference (inside _ _) (ih _ _)

/-! ### Results -/

/-- A style sheet without calls in whose preludes every name holds an escaped string with a
simple selector or a part of a name has the result that it has with all names replaced, if
every prelude is read in the same way with them replaced. -/
theorem evaluates_iff_of_substituted {sheet : List (Node ι)} {sheet' : List (Node κ)}
    (h : Substituted KeepsReading (valuesIn (fun _ => none) sheet) sheet sheet')
    (r : Except CompileError Stylesheet) :
    Evaluates (numbered sheet) r ↔ Evaluates (numbered sheet') r := by
  have replaced : Substituted KeepsReading (valuesIn (fun _ => none) (numbered sheet))
      (numbered sheet) (numbered sheet') := by
    rw [numbered, valuesIn_numberNodes]
    exact h.number 0 0
  have scope : (Scope.enter [] (numbered sheet)).rawValue? =
      valuesIn (fun _ => none) (numbered sheet) := rawValue?_enter [] (numbered sheet)
  have scope' : (Scope.enter [] (numbered sheet')).rawValue? =
      valuesIn (fun _ => none) (numbered sheet) := by
    rw [← replaced.valuesIn_eq]
    exact rawValue?_enter [] (numbered sheet')
  rw [evaluates_iff, evaluates_iff]
  exact exists_congr fun depth => by rw [replaced.outcome_eq depth scope scope']

/-- A variable that holds a class, and a block with a given prelude. -/
def classSheet (prelude : Text) : List (Node Nat) :=
  [.statement 0 "@v: ~\".b\"", .block 1 prelude [.statement 2 "c: d"]]

theorem substituted_classSheet {C : (Text → Option Text) → Text → Text → Prop}
    {prelude prelude' : Text}
    (replaced : Scope.replaceNames (contentOf (valuesIn (fun _ => none) (classSheet prelude))) 0
      prelude = .ok prelude')
    (condition : C (valuesIn (fun _ => none) (classSheet prelude)) prelude prelude') :
    Substituted C (valuesIn (fun _ => none) (classSheet prelude)) (classSheet prelude)
      (classSheet prelude') :=
  .statement 0 0 (by decide +kernel)
    (.block 1 1 replaced condition (.statement 2 2 (by decide +kernel) (.nil _)) (.nil _))

/-- A class put behind another selector. -/
theorem evaluates_class_behind :
    Substituted KeepsReading (valuesIn (fun _ => none) (classSheet ".a @\x7bv\x7d"))
        (classSheet ".a @\x7bv\x7d") (classSheet ".a .b") ∧
      Evaluates (numbered (classSheet ".a @\x7bv\x7d")) (.ok [⟨[".a .b"]⟩]) := by
  have content : contentOf (valuesIn (fun _ => none) (classSheet ".a @\x7bv\x7d")) "v" =
      .ok ".b" := by decide +kernel
  have unread : (Expression.read? ".b").isNone = true := by decide +kernel
  have replaced : Scope.replaceNames (contentOf (valuesIn (fun _ => none)
      (classSheet ".a @\x7bv\x7d"))) 0 ".a @\x7bv\x7d" = .ok ".a .b" := by decide +kernel
  have keeps : KeepsReading (valuesIn (fun _ => none) (classSheet ".a @\x7bv\x7d"))
      ".a @\x7bv\x7d" ".a .b" := by
    refine .of_plain nofun (by decide) (by decide) (by decide) replaced ?_
    intro name hname other hother e hread
    obtain rfl : name = "v" := List.mem_singleton.mp hname
    obtain rfl : ".b" = other := Except.ok.inj (content.symm.trans hother)
    rw [hread] at unread
    cases unread
  have h := substituted_classSheet replaced keeps
  exact ⟨h, (evaluates_iff_of_substituted h _).mpr ⟨4, rfl⟩⟩

/-- A class at the very beginning of a prelude makes a difference: the block is left out as
an at-rule until the class is put in its place. -/
theorem not_forall_substituted_agree :
    ¬ ∀ sheet sheet' : List (Node Nat),
      Substituted (fun _ _ _ => True) (valuesIn (fun _ => none) sheet) sheet sheet' →
        ∀ r, Evaluates (numbered sheet) r ↔ Evaluates (numbered sheet') r := by
  intro h
  have replaced : Scope.replaceNames (contentOf (valuesIn (fun _ => none)
      (classSheet "@\x7bv\x7d"))) 0 "@\x7bv\x7d" = .ok ".b" := by decide +kernel
  have left : Evaluates (numbered (classSheet "@\x7bv\x7d")) (.ok []) := ⟨4, rfl⟩
  have right : Evaluates (numbered (classSheet ".b")) (.ok [⟨[".b"]⟩]) := ⟨4, rfl⟩
  have both := (h _ _ (substituted_classSheet replaced trivial) _).mp left
  exact absurd (both.unique right) (by decide)

end StyleTypings.Less
