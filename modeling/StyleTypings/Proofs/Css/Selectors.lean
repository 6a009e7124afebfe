/-
Selectors — syntax trees written out and read back.

A selector is made of compounds, joined by combinators; a compound is the name of a type or
a simple selector, and more simple selectors after it.  The arguments of a function are a
list of selectors again.  Written out, with its names and strings escaped, a selector is cut
into components that follow its tree (`Selector.reads`).

What a selector mentions is said on the tree: the classes of its simple selectors from left
to right, up to the first `:global` that stands by itself.  The arguments of a function count
by themselves, and those of `:global(...)` do not count.  The scan of the written selector
finds just these classes (`ofSelector_write`).

As in all of CSS, the case of ASCII letters does not matter in `:global` and in `url`.
-/
import StyleTypings.Proofs.Css.Brackets
import StyleTypings.Proofs.Css.Reading

namespace StyleTypings.Css

open Classes (isGlobal)

/-! ## Trees -/

/-- A name that a selector can have: not empty, and without the NUL character. -/
structure Identifier where
  text : Text
  ne_nil : text ≠ []
  real : ∀ c ∈ text, c ≠ '\x00'

/-- The name of a function.  With `url` the parenthesis would begin an address. -/
structure FunctionName extends Identifier where
  notAddress : text.sameAscii "url" = false

/-- How the value of an attribute is compared. -/
inductive Matcher where
  | equal
  | includes
  | dashed
  | begins
  | ends
  | contains
deriving DecidableEq, Repr

/-- What stands between two compounds. -/
inductive Combinator where
  | descendant
  | child
  | next
  | sibling
  | column
deriving DecidableEq, Repr

mutual

/-- A class, an id, the value of an attribute, or a pseudo-class, which may be a function. -/
inductive Simple where
  | className (name : Identifier)
  | id (name : Identifier)
  | attribute (name : Identifier) (matcher : Matcher) (value : Text)
  | pseudo (name : Identifier)
  | function (name : FunctionName) (arguments : List Selector)

/-- A compound, with the name of a type or without, or two selectors that are joined. -/
inductive Selector where
  | typed (name : Identifier) (simples : List Simple)
  | untyped (first : Simple) (simples : List Simple)
  | joined (left : Selector) (combinator : Combinator) (right : Selector)

end

/-! ## Writing -/

def Identifier.write (n : Identifier) : Text := spellName n.text

def Matcher.write : Matcher → Text
  | .equal => ['=']
  | .includes => ['~', '=']
  | .dashed => ['|', '=']
  | .begins => ['^', '=']
  | .ends => ['$', '=']
  | .contains => ['*', '=']

/-- A combinator, with spaces around it. -/
def Combinator.write : Combinator → Text
  | .descendant => [' ']
  | .child => [' ', '>', ' ']
  | .next => [' ', '+', ' ']
  | .sibling => [' ', '~', ' ']
  | .column => [' ', '|', '|', ' ']

mutual

def Simple.write : Simple → Text
  | .className n => '.' :: n.write
  | .id n => '#' :: n.write
  | .attribute n m value => '[' :: (n.write ++ (m.write ++ (spellString value ++ [']'])))
  | .pseudo n => ':' :: n.write
  | .function n arguments => ':' :: (n.write ++ '(' :: (writeList arguments ++ [')']))

def writeSimples : List Simple → Text
  | [] => []
  | s :: rest => s.write ++ writeSimples rest

def Selector.write : Selector → Text
  | .typed n simples => n.write ++ writeSimples simples
  | .untyped first simples => first.write ++ writeSimples simples
  | .joined left c right => left.write ++ (c.write ++ right.write)

/-- Selectors with commas between them. -/
def writeList : List Selector → Text
  | [] => []
  | [s] => s.write
  | s :: rest => s.write ++ ',' :: ' ' :: writeList rest

end

/-! ## Classes -/

/-- What a simple selector says about classes: whether all that comes after it is global,
and the classes in it. -/
structure Mention where
  global : Bool
  classes : List Text

/-- The classes before the first bare `:global`. -/
def localClasses (ms : List Mention) : List Text :=
  (ms.takeWhile fun m => ! m.global).flatMap (·.classes)

mutual

def Simple.mention : Simple → Mention
  | .className n => ⟨false, [n.text]⟩
  | .id _ => ⟨false, []⟩
  | .attribute _ _ _ => ⟨false, []⟩
  | .pseudo n => ⟨isGlobal n.text, []⟩
  | .function n arguments =>
    ⟨false, if isGlobal n.text then [] else localClasses (mentionsOfList arguments)⟩

def mentionsOfSimples : List Simple → List Mention
  | [] => []
  | s :: rest => s.mention :: mentionsOfSimples rest

/-- What the simple selectors of a selector say, from left to right. -/
def Selector.mentions : Selector → List Mention
  | .typed _ simples => mentionsOfSimples simples
  | .untyped first simples => first.mention :: mentionsOfSimples simples
  | .joined left _ right => left.mentions ++ right.mentions

def mentionsOfList : List Selector → List Mention
  | [] => []
  | s :: rest => s.mentions ++ mentionsOfList rest

end

/-- The classes that a selector mentions. -/
def Selector.classes (s : Selector) : List Text := localClasses s.mentions

/-! ## Components -/

def Identifier.token (n : Identifier) : Token := .ident n.text

def Matcher.token : Matcher → Token
  | .equal => .delim '='
  | m => .sign m.write

def Combinator.tokens : Combinator → List Token
  | .descendant => [.blank]
  | .child => [.blank, .delim '>', .blank]
  | .next => [.blank, .delim '+', .blank]
  | .sibling => [.blank, .delim '~', .blank]
  | .column => [.blank, .delim '|', .delim '|', .blank]

mutual

/-- The components of a simple selector that is written out. -/
def Simple.components : Simple → List Component
  | .className n => [.token (.delim '.'), .token n.token]
  | .id n => [.token (.hash n.text)]
  | .attribute n m value =>
    [.block .square [.token n.token, .token m.token, .token (.string (shown value))]]
  | .pseudo n => [.token .colon, .token n.token]
  | .function n arguments => [.token .colon, .block (.function n.text) (componentsOfList arguments)]

def componentsOfSimples : List Simple → List Component
  | [] => []
  | s :: rest => s.components ++ componentsOfSimples rest

def Selector.components : Selector → List Component
  | .typed n simples => .token n.token :: componentsOfSimples simples
  | .untyped first simples => first.components ++ componentsOfSimples simples
  | .joined left c right => left.components ++ (c.tokens.map .token ++ right.components)

def componentsOfList : List Selector → List Component
  | [] => []
  | [s] => s.components
  | s :: rest => s.components ++ .token .comma :: .token .blank :: componentsOfList rest

end

/-! ## Reading back -/

/-- A text that cannot make anything else of an identifier before it. -/
structure EndsIdent (after : Text) : Prop where
  name : EndsName after
  arrow : after.head? ≠ some '>'
  call : after.head? ≠ some '('

theorem EndsIdent.nil : EndsIdent [] := ⟨.nil, nofun, nofun⟩

theorem EndsIdent.cons {c : Char} (h : c ∈ (".#[: ,)=~|^$*" : Text)) (after : Text) :
    EndsIdent (c :: after) := by
  have signs : (".#[: ,)=~|^$*" : Text).all fun c =>
      !isNamePart c && c != '\\' && c != '>' && c != '(' := by decide
  have sign := List.all_eq_true.mp signs c h
  simp only [Bool.and_eq_true, Bool.not_eq_true', bne_iff_ne] at sign
  obtain ⟨⟨name, arrow⟩, call⟩ := sign
  exact ⟨.cons name after, by simpa using arrow, by simpa using call⟩

theorem Identifier.reads (n : Identifier) {after : Text} (h : EndsIdent after) :
    Reads (n.write ++ after) [n.token] after :=
  reads_ident n.ne_nil n.real h.name h.arrow h.call

theorem Matcher.reads (m : Matcher) (after : Text) : Reads (m.write ++ after) [m.token] after := by
  cases m <;> exact .of_takeToken rfl (by simp)

/-- A text that does not begin with a blank. -/
def Inked (t : Text) : Prop := ∀ c ∈ t.head?, isCssBlank c = false

theorem reads_blank {after : Text} (h : Inked after) : Reads (' ' :: after) [.blank] after := by
  have kept : after.dropWhile isCssBlank = after := by
    cases after with
    | nil => rfl
    | cons c rest => rw [List.dropWhile_cons, h c rfl, if_neg Bool.false_ne_true]
  refine .of_takeToken (c := ' ') ?_ (Nat.le_refl _)
  show (some Token.blank, after.dropWhile isCssBlank) = _
  rw [kept]

theorem Combinator.reads (c : Combinator) {after : Text} (h : Inked after) :
    Reads (c.write ++ after) c.tokens after := by
  have spaced (signs : Text) {ts : List Token} (inked : Inked (signs ++ ' ' :: after))
      (read : Reads (signs ++ ' ' :: after) ts (' ' :: after)) :
      Reads (' ' :: (signs ++ ' ' :: after)) (.blank :: (ts ++ [.blank])) after :=
    (reads_blank inked).trans (read.trans (reads_blank h))
  cases c with
  | descendant => exact reads_blank h
  | child => exact spaced ['>'] (by rintro _ ⟨⟩; rfl) (.of_takeToken rfl (by simp))
  | next => exact spaced ['+'] (by rintro _ ⟨⟩; rfl) (.of_takeToken rfl (by simp))
  | sibling => exact spaced ['~'] (by rintro _ ⟨⟩; rfl) (.of_takeToken rfl (by simp))
  | column =>
    exact spaced ['|', '|'] (by rintro _ ⟨⟩; rfl)
      ((Reads.of_takeToken rfl (by simp)).trans (.of_takeToken rfl (by simp)))

/-- A simple selector begins with a sign. -/
theorem Simple.write_eq_cons (s : Simple) :
    ∃ c rest, s.write = c :: rest ∧ c ∈ (".#[:" : Text) := by
  cases s <;> exact ⟨_, _, rfl, by decide⟩

theorem Simple.endsIdent (s : Simple) (after : Text) : EndsIdent (s.write ++ after) := by
  obtain ⟨c, rest, write, sign⟩ := s.write_eq_cons
  have signs : (".#[:" : Text) ⊆ (".#[: ,)=~|^$*" : Text) := by decide
  rw [write]
  exact .cons (signs sign) _

theorem endsIdent_simples (simples : List Simple) {after : Text} (h : EndsIdent after) :
    EndsIdent (writeSimples simples ++ after) := by
  cases simples with
  | nil => exact h
  | cons s rest =>
    rw [writeSimples, List.append_assoc]
    exact s.endsIdent _

theorem Identifier.inked (n : Identifier) (after : Text) : Inked (n.write ++ after) := by
  intro c hc
  have begins := startsName_spellName_append n.ne_nil after
  obtain ⟨rest, written⟩ := List.head?_eq_some_iff.mp hc
  rw [← Identifier.write, written] at begins
  obtain ⟨rfl, _⟩ | ⟨rfl, _⟩ | hstart := startsName_cases begins
  · rfl
  · rfl
  · exact isCssBlank_of_isNameStart hstart

theorem Simple.inked (s : Simple) (after : Text) : Inked (s.write ++ after) := by
  obtain ⟨c, rest, write, sign⟩ := s.write_eq_cons
  have signs : (".#[:" : Text).all (isCssBlank · == false) := by decide
  rw [write]
  rintro _ ⟨⟩
  exact beq_iff_eq.mp (List.all_eq_true.mp signs c sign)

theorem Selector.inked : ∀ (s : Selector) (after : Text), Inked (s.write ++ after)
  | .typed n simples, after => by
    rw [Selector.write, List.append_assoc]
    exact n.inked _
  | .untyped first simples, after => by
    rw [Selector.write, List.append_assoc]
    exact first.inked _
  | .joined left c right, after => by
    rw [Selector.write, List.append_assoc]
    exact left.inked _

theorem flattenAll_tokens (ts : List Token) : flattenAll (ts.map .token) = ts := by
  induction ts with
  | nil => rfl
  | cons t ts ih => rw [List.map_cons, flattenAll, Component.flatten, ih, List.singleton_append]

theorem Combinator.endsIdent (c : Combinator) (after : Text) : EndsIdent (c.write ++ after) := by
  cases c <;> exact .cons (by decide) _

mutual

/-- A simple selector that is written out is cut into its components. -/
theorem Simple.reads : ∀ (s : Simple) {after : Text}, EndsIdent after →
    Reads (s.write ++ after) (flattenAll s.components) after
  | .className n, after, h => (reads_point n.ne_nil after).trans (n.reads h)
  | .id n, after, h => reads_hash n.ne_nil n.real h.name
  | .attribute n m value, after, h => by
    rw [Simple.write, Simple.components]
    simp only [List.cons_append, List.append_assoc]
    have opening : Reads ('[' :: (n.write ++ (m.write ++ (spellString value ++ (']' :: after)))))
        [.openSquare] _ := .of_takeToken rfl (Nat.le_refl _)
    have closing : Reads (']' :: after) [.closeSquare] after := .of_takeToken rfl (Nat.le_refl _)
    have ends : EndsIdent (m.write ++ (spellString value ++ (']' :: after))) := by
      cases m <;> exact .cons (by decide) _
    have name := n.reads ends
    exact opening.trans (name.trans ((m.reads _).trans ((reads_string value _).trans closing)))
  | .pseudo n, after, h =>
    (Reads.of_takeToken (c := ':') rfl (Nat.le_refl _)).trans (n.reads h)
  | .function n arguments, after, h => by
    rw [Simple.write, Simple.components]
    simp only [List.cons_append, List.append_assoc]
    have colon : Reads (':' :: (n.write ++ '(' :: (writeList arguments ++ ')' :: after)))
        [.colon] _ := .of_takeToken rfl (Nat.le_refl _)
    have closing : Reads (')' :: after) [.closeParen] after := .of_takeToken rfl (Nat.le_refl _)
    have name := reads_function n.ne_nil n.real n.notAddress (writeList arguments ++ ')' :: after)
    have ends : EndsIdent (')' :: after) := .cons (by decide) _
    have inside := reads_list arguments ends
    have read := colon.trans (name.trans (inside.trans closing))
    simpa [flattenAll, Component.flatten, Opener.token, Opener.closing] using read

theorem reads_simples : ∀ (simples : List Simple) {after : Text}, EndsIdent after →
    Reads (writeSimples simples ++ after) (flattenAll (componentsOfSimples simples)) after
  | [], after, h => by
    rw [writeSimples, componentsOfSimples]
    exact .refl after
  | s :: rest, after, h => by
    rw [writeSimples, componentsOfSimples, flattenAll_append, List.append_assoc]
    exact (s.reads (endsIdent_simples rest h)).trans (reads_simples rest h)

/-- So is a selector. -/
theorem Selector.reads : ∀ (s : Selector) {after : Text}, EndsIdent after →
    Reads (s.write ++ after) (flattenAll s.components) after
  | .typed n simples, after, h => by
    rw [Selector.write, Selector.components, flattenAll, List.append_assoc]
    exact (n.reads (endsIdent_simples simples h)).trans (reads_simples simples h)
  | .untyped first simples, after, h => by
    rw [Selector.write, Selector.components, flattenAll_append, List.append_assoc]
    exact (first.reads (endsIdent_simples simples h)).trans (reads_simples simples h)
  | .joined left c right, after, h => by
    rw [Selector.write, Selector.components, flattenAll_append, flattenAll_append,
      flattenAll_tokens, List.append_assoc, List.append_assoc]
    exact (left.reads (c.endsIdent _)).trans ((c.reads (right.inked after)).trans (right.reads h))

theorem reads_list : ∀ (ss : List Selector) {after : Text}, EndsIdent after →
    Reads (writeList ss ++ after) (flattenAll (componentsOfList ss)) after
  | [], after, h => .refl after
  | [s], after, h => by
    rw [writeList, componentsOfList]
    exact s.reads h
  | s :: next :: rest, after, h => by
    rw [writeList, componentsOfList, flattenAll_append, List.append_assoc]
    · have comma : Reads (',' :: ' ' :: (writeList (next :: rest) ++ after)) [.comma] _ :=
        .of_takeToken rfl (Nat.le_refl _)
      have inked : Inked (writeList (next :: rest) ++ after) := by
        cases rest with
        | nil => exact next.inked _
        | cons last rest =>
          rw [writeList, List.append_assoc]
          · exact next.inked _
          · nofun
      refine (s.reads (.cons (by decide) _)).trans ?_
      exact comma.trans ((reads_blank inked).trans (reads_list (next :: rest) h))
    · nofun
    · nofun

end

/-! ## Brackets -/

theorem Identifier.plain_token (n : Identifier) : n.token.Plain :=
  ⟨rfl, fun o => by cases o <;> rfl⟩

theorem Matcher.plain_token (m : Matcher) : m.token.Plain := by
  cases m <;> exact ⟨rfl, fun o => by cases o <;> rfl⟩

theorem Combinator.plain_tokens (c : Combinator) : ∀ t ∈ c.tokens, t.Plain := by
  have signs (sign : Char) : (Token.delim sign).Plain := ⟨rfl, fun o => by cases o <;> rfl⟩
  have blank : Token.blank.Plain := ⟨rfl, fun o => by cases o <;> rfl⟩
  cases c <;> simp [Combinator.tokens, signs, blank]

mutual

theorem Simple.matched : ∀ (s : Simple), ∀ c ∈ s.components, c.Matched
  | .className n => by
    have point : (Token.delim '.').Plain := ⟨rfl, fun o => by cases o <;> rfl⟩
    simp [Simple.components, Component.Matched.token, point, n.plain_token]
  | .id n => by
    have hash : (Token.hash n.text).Plain := ⟨rfl, fun o => by cases o <;> rfl⟩
    simp [Simple.components, Component.Matched.token, hash]
  | .attribute n m value => by
    have string : (Token.string (shown value)).Plain := ⟨rfl, fun o => by cases o <;> rfl⟩
    refine List.forall_mem_singleton.mpr (.block .square ?_)
    simp [Component.Matched.token, string, n.plain_token, m.plain_token]
  | .pseudo n => by
    have colon : Token.colon.Plain := ⟨rfl, fun o => by cases o <;> rfl⟩
    simp [Simple.components, Component.Matched.token, colon, n.plain_token]
  | .function n arguments => by
    have colon : Token.colon.Plain := ⟨rfl, fun o => by cases o <;> rfl⟩
    refine List.forall_mem_cons.mpr ⟨.token colon, List.forall_mem_singleton.mpr ?_⟩
    exact .block _ (matched_list arguments)

theorem matched_simples : ∀ (simples : List Simple), ∀ c ∈ componentsOfSimples simples, c.Matched
  | [] => nofun
  | s :: rest => List.forall_mem_append.mpr ⟨s.matched, matched_simples rest⟩

theorem Selector.matched : ∀ (s : Selector), ∀ c ∈ s.components, c.Matched
  | .typed n simples =>
    List.forall_mem_cons.mpr ⟨.token n.plain_token, matched_simples simples⟩
  | .untyped first simples =>
    List.forall_mem_append.mpr ⟨first.matched, matched_simples simples⟩
  | .joined left c right => by
    refine List.forall_mem_append.mpr ⟨left.matched, List.forall_mem_append.mpr ⟨?_, right.matched⟩⟩
    exact List.forall_mem_map.mpr fun t ht => .token (c.plain_tokens t ht)

theorem matched_list : ∀ (ss : List Selector), ∀ c ∈ componentsOfList ss, c.Matched
  | [] => nofun
  | [s] => s.matched
  | s :: next :: rest => by
    have comma : Token.comma.Plain := ⟨rfl, fun o => by cases o <;> rfl⟩
    have blank : Token.blank.Plain := ⟨rfl, fun o => by cases o <;> rfl⟩
    refine List.forall_mem_append.mpr ⟨s.matched, ?_⟩
    refine List.forall_mem_cons.mpr ⟨.token comma, List.forall_mem_cons.mpr ⟨.token blank, ?_⟩⟩
    exact matched_list (next :: rest)

end

/-- A selector that is written out has the components of its tree. -/
theorem Selector.components_write (s : Selector) : Css.components s.write = s.components := by
  have read := s.reads .nil
  rw [List.append_nil] at read
  rw [Css.components, read.tokens_eq, componentsOf_flatten s.matched]

/-! ## The scan -/

open Classes (scan within ends ofToken enters)

/-- The classes that mentions leave before those that come later. -/
def localThen (ms : List Mention) (later : List Text) : List Text :=
  localClasses ms ++ if ms.any (·.global) then [] else later

theorem localThen_nil (later : List Text) : localThen [] later = later := rfl

theorem localThen_cons (m : Mention) (ms : List Mention) (later : List Text) :
    localThen (m :: ms) later = if m.global then [] else m.classes ++ localThen ms later := by
  obtain ⟨global, classes⟩ := m
  cases global <;> simp [localThen, localClasses]

theorem localThen_append (ms ns : List Mention) (later : List Text) :
    localThen (ms ++ ns) later = localThen ms (localThen ns later) := by
  induction ms with
  | nil => rfl
  | cons m ms ih => rw [List.cons_append, localThen_cons, localThen_cons, ih]

theorem localThen_empty (ms : List Mention) : localThen ms [] = localClasses ms := by
  simp [localThen]

/-- A token that stands for nothing to the next one is passed. -/
theorem scan_token {t : Token} (names : ∀ n, t ≠ .ident n) (mark : Classes.Mark.ofToken t = .other)
    (rest : List Component) : scan .other (.token t :: rest) = scan .other rest := by
  have passed : ends .other t = false := by cases t <;> simp_all [ends]
  have nothing : ofToken .other t = [] := by cases t <;> simp_all [ofToken]
  simp [scan, within, passed, nothing, mark]

theorem scan_combinator (c : Combinator) (rest : List Component) :
    scan .other (c.tokens.map .token ++ rest) = scan .other rest := by
  cases c <;>
    simp [Combinator.tokens, scan, within, ends, ofToken, Classes.Mark.ofToken]

mutual

/-- The scan of a simple selector finds what it mentions, and goes on unless that is the bare
`:global`. -/
theorem Simple.scan_components : ∀ (s : Simple) (rest : List Component),
    scan .other (s.components ++ rest) = localThen [s.mention] (scan .other rest)
  | .className n, rest => by
    simp [Simple.components, Simple.mention, Identifier.token, localThen_cons, localThen_nil, scan,
      within, ends, ofToken, Classes.Mark.ofToken]
  | .id n, rest => by
    simp [Simple.components, Simple.mention, localThen_cons, localThen_nil, scan, within, ends,
      ofToken, Classes.Mark.ofToken]
  | .attribute n m value, rest => by
    simp [Simple.components, Simple.mention, localThen_cons, localThen_nil, scan, within, enters]
  | .pseudo n, rest => by
    simp [Simple.components, Simple.mention, Identifier.token, localThen_cons, localThen_nil, scan,
      within, ends, ofToken, Classes.Mark.ofToken]
  | .function n arguments, rest => by
    have inside := scan_list arguments []
    rw [List.append_nil, scan, localThen_empty] at inside
    cases global : isGlobal n.text <;>
      simp [Simple.components, Simple.mention, localThen_cons, localThen_nil, scan, within, ends,
        ofToken, enters, Classes.Mark.ofToken, inside, global]

theorem scan_simples : ∀ (simples : List Simple) (rest : List Component),
    scan .other (componentsOfSimples simples ++ rest) =
      localThen (mentionsOfSimples simples) (scan .other rest)
  | [], rest => rfl
  | s :: simples, rest => by
    rw [componentsOfSimples, List.append_assoc, s.scan_components, scan_simples simples rest,
      mentionsOfSimples, ← localThen_append, List.singleton_append]

/-- So does the scan of a selector. -/
theorem Selector.scan_components : ∀ (s : Selector) (rest : List Component),
    scan .other (s.components ++ rest) = localThen s.mentions (scan .other rest)
  | .typed n simples, rest => by
    rw [Selector.components, List.cons_append, Selector.mentions, ← scan_simples simples rest]
    simp [Identifier.token, scan, within, ends, ofToken, Classes.Mark.ofToken]
  | .untyped first simples, rest => by
    rw [Selector.components, List.append_assoc, first.scan_components, scan_simples simples rest,
      Selector.mentions, ← localThen_append, List.singleton_append]
  | .joined left c right, rest => by
    rw [Selector.components, List.append_assoc, left.scan_components, List.append_assoc,
      scan_combinator, right.scan_components, Selector.mentions, localThen_append]

theorem scan_list : ∀ (ss : List Selector) (rest : List Component),
    scan .other (componentsOfList ss ++ rest) = localThen (mentionsOfList ss) (scan .other rest)
  | [], rest => rfl
  | [s], rest => by
    rw [componentsOfList, mentionsOfList, mentionsOfList, List.append_nil, s.scan_components]
  | s :: next :: others, rest => by
    rw [componentsOfList, List.append_assoc, s.scan_components, List.cons_append, List.cons_append,
      scan_token (by simp) rfl, scan_token (by simp) rfl, scan_list (next :: others) rest]
    · show _ = localThen (s.mentions ++ mentionsOfList (next :: others)) _
      rw [localThen_append]
    · nofun

end

/-- The scan of a selector that is written out finds the classes of its tree: those of its
simple selectors from left to right, without those in `:global(...)`, and without those that
follow a bare `:global` in the same arguments, or in the whole selector. -/
theorem ofSelector_write (s : Selector) : Classes.ofSelector s.write = s.classes := by
  have scanned := s.scan_components []
  rw [List.append_nil, scan, localThen_empty] at scanned
  rw [Classes.ofSelector, s.components_write, scanned, Selector.classes]

end StyleTypings.Css
