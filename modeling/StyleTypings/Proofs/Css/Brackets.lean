/-
Brackets — components written out as tokens and matched again.

A component is the token of its bracket, the tokens of what it holds, and the token that
closes it.  Matching the brackets of such tokens gives the components back
(`componentsOf_flatten`), provided that no token among the components is a bracket itself.
-/
import StyleTypings.Css.Component

namespace StyleTypings.Css

/-- The token that opens a bracket. -/
def Opener.token : Opener → Token
  | .function name => .function name
  | .paren => .openParen
  | .square => .openSquare
  | .curly => .openCurly

/-- The token that closes a bracket. -/
def Opener.closing : Opener → Token
  | .function _ => .closeParen
  | .paren => .closeParen
  | .square => .closeSquare
  | .curly => .closeCurly

theorem Opener.opener?_token (o : Opener) : o.token.opener? = some o := by cases o <;> rfl

theorem Opener.closedBy_closing (o : Opener) : o.closedBy o.closing = true := by cases o <;> rfl

theorem Opener.opener?_closing (o : Opener) : o.closing.opener? = none := by cases o <;> rfl

/-- Whether a token opens no bracket and closes none. -/
structure Token.Plain (t : Token) : Prop where
  opener : t.opener? = none
  closes : ∀ o : Opener, o.closedBy t = false

mutual

/-- The tokens of a component. -/
def Component.flatten : Component → List Token
  | .token t => [t]
  | .block o content => o.token :: flattenAll content ++ [o.closing]

/-- The tokens of components, in order. -/
def flattenAll : List Component → List Token
  | [] => []
  | c :: rest => c.flatten ++ flattenAll rest

end

theorem flattenAll_append (cs ds : List Component) :
    flattenAll (cs ++ ds) = flattenAll cs ++ flattenAll ds := by
  induction cs with
  | nil => rfl
  | cons c cs ih => rw [List.cons_append, flattenAll, flattenAll, ih, List.append_assoc]

/-- Components in which all brackets are matched. -/
inductive Component.Matched : Component → Prop where
  | token {t : Token} (plain : t.Plain) : Matched (.token t)
  | block (o : Opener) {content : List Component} (h : ∀ c ∈ content, Matched c) :
    Matched (.block o content)

namespace Nesting

/-- Components put where reading stands, one after the other. -/
def addAll (n : Nesting) (cs : List Component) : Nesting := cs.foldl (fun n c => n.add c) n

theorem step_plain {t : Token} (h : t.Plain) (n : Nesting) : n.step t = n.add (.token t) := by
  rw [step, h.opener]
  rcases n with ⟨_ | ⟨⟨o, content⟩, opened⟩, outside⟩
  · rfl
  · simp [h.closes]

theorem step_token (o : Opener) (n : Nesting) :
    n.step o.token = { n with opened := (o, []) :: n.opened } := by
  rw [step, o.opener?_token]

/-- What is put into an open bracket is its content, last first. -/
theorem addAll_opened (cs : List Component) (o : Opener) (content : List Component)
    (opened : List (Opener × List Component)) (outside : List Component) :
    addAll ⟨(o, content) :: opened, outside⟩ cs =
      ⟨(o, cs.reverse ++ content) :: opened, outside⟩ := by
  induction cs generalizing content with
  | nil => rfl
  | cons c cs ih =>
    show addAll ⟨(o, c :: content) :: opened, outside⟩ cs = _
    rw [ih, List.reverse_cons, List.append_assoc, List.singleton_append]

theorem addAll_outside (cs outside : List Component) :
    addAll ⟨[], outside⟩ cs = ⟨[], cs.reverse ++ outside⟩ := by
  induction cs generalizing outside with
  | nil => rfl
  | cons c cs ih =>
    show addAll ⟨[], c :: outside⟩ cs = _
    rw [ih, List.reverse_cons, List.append_assoc, List.singleton_append]

/-- The token that closes the innermost bracket puts it, with all it holds, where reading
stood before. -/
theorem step_closing (o : Opener) (cs : List Component) (n : Nesting) :
    (addAll { n with opened := (o, []) :: n.opened } cs).step o.closing =
      n.add (.block o cs) := by
  rw [addAll_opened, step, o.opener?_closing]
  simp [o.closedBy_closing, close]

mutual

/-- The tokens of a component put it where reading stands. -/
theorem foldl_step_flatten : ∀ c : Component, c.Matched → ∀ n : Nesting,
    c.flatten.foldl step n = n.add c
  | .token t, .token plain, n => by
    rw [Component.flatten]
    exact step_plain plain n
  | .block o content, .block _ h, n => by
    rw [Component.flatten, List.cons_append, List.foldl_cons, List.foldl_append, step_token,
      foldl_step_flattenAll content h]
    exact step_closing o content n

theorem foldl_step_flattenAll : ∀ cs : List Component, (∀ c ∈ cs, c.Matched) → ∀ n : Nesting,
    (flattenAll cs).foldl step n = n.addAll cs
  | [], _, n => by
    rw [flattenAll]
    rfl
  | c :: rest, h, n => by
    obtain ⟨hc, hrest⟩ := List.forall_mem_cons.mp h
    rw [flattenAll, List.foldl_append, foldl_step_flatten c hc, foldl_step_flattenAll rest hrest]
    rfl

end

/-- A component put before everything outside the brackets. -/
def behind (c : Component) (n : Nesting) : Nesting := { n with outside := n.outside ++ [c] }

theorem add_behind (c d : Component) (n : Nesting) :
    (n.behind c).add d = (n.add d).behind c := by
  obtain ⟨_ | ⟨⟨o, content⟩, opened⟩, outside⟩ := n <;> rfl

theorem close_behind (c : Component) (n : Nesting) : (n.behind c).close = n.close.behind c := by
  obtain ⟨_ | ⟨⟨o, content⟩, opened⟩, outside⟩ := n
  · rfl
  · exact add_behind c (.block o content.reverse) ⟨opened, outside⟩

theorem step_behind (c : Component) (t : Token) (n : Nesting) :
    (n.behind c).step t = (n.step t).behind c := by
  obtain ⟨opened, outside⟩ := n
  rw [step, step]
  cases t.opener? with
  | some o => rfl
  | none =>
    cases opened with
    | nil => rfl
    | cons o opened =>
      let n : Nesting := ⟨o :: opened, outside⟩
      show (if o.1.closedBy t then (n.behind c).close else (n.behind c).add (.token t)) =
        behind c (if o.1.closedBy t then n.close else n.add (.token t))
      rw [close_behind, add_behind]
      split <;> rfl

theorem foldl_step_behind (c : Component) (ts : List Token) (n : Nesting) :
    ts.foldl step (n.behind c) = (ts.foldl step n).behind c := by
  induction ts generalizing n with
  | nil => rfl
  | cons t ts ih => rw [List.foldl_cons, List.foldl_cons, step_behind, ih]

theorem closeAll_behind (c : Component) (k : Nat) (n : Nesting) :
    (n.behind c).closeAll k = c :: n.closeAll k := by
  induction k generalizing n with
  | zero => simp [closeAll, behind]
  | succ k ih => rw [closeAll, closeAll, close_behind, ih]

end Nesting

/-- Matching the brackets of components that have been written out gives them back. -/
theorem componentsOf_flatten {cs : List Component} (h : ∀ c ∈ cs, c.Matched) :
    componentsOf (flattenAll cs) = cs := by
  rw [componentsOf, Nesting.foldl_step_flattenAll cs h, Nesting.addAll_outside]
  simp [Nesting.closeAll]

/-- A token that is no bracket is a component before all others. -/
theorem componentsOf_cons {t : Token} (plain : t.Plain) (ts : List Token) :
    componentsOf (t :: ts) = .token t :: componentsOf ts := by
  have first : Nesting.step ⟨[], []⟩ t = Nesting.behind (.token t) ⟨[], []⟩ :=
    Nesting.step_plain plain _
  rw [componentsOf, List.foldl_cons, first, Nesting.foldl_step_behind]
  exact Nesting.closeAll_behind _ _ _

end StyleTypings.Css
