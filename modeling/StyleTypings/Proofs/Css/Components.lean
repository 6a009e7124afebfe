/-
Components — nothing but the tokens of a text.

Matching the brackets keeps the tokens: what holds of all tokens of a text holds of
all tokens in its components.  The classes that a selector mentions are names of
identifiers, so each begins some suffix of the selector (`mem_ofSelector`).
-/
import StyleTypings.Classes.Scan
import StyleTypings.Proofs.Css.Tokens

namespace StyleTypings.Css

/-- All tokens in a component satisfy a predicate. -/
inductive Component.Over (P : Token → Prop) : Component → Prop where
  | token {t : Token} (h : P t) : Over P (.token t)
  | block {o : Opener} {content : List Component} (h : ∀ c ∈ content, Over P c) :
    Over P (.block o content)

/-- All tokens taken in so far satisfy a predicate. -/
structure Nesting.Over (P : Token → Prop) (n : Nesting) : Prop where
  outside : ∀ c ∈ n.outside, c.Over P
  opened : ∀ f ∈ n.opened, ∀ c ∈ f.2, c.Over P

namespace Nesting

variable {P : Token → Prop} {n : Nesting}

theorem Over.add {c : Component} (hc : c.Over P) (h : n.Over P) : (n.add c).Over P := by
  rcases n with ⟨_ | ⟨⟨o, content⟩, opened⟩, outside⟩
  · refine ⟨?_, h.opened⟩
    rintro d (_ | ⟨_, hd⟩)
    · exact hc
    · exact h.outside d hd
  · refine ⟨h.outside, ?_⟩
    rintro f (_ | ⟨_, hf⟩) d hd
    · cases hd with
      | head => exact hc
      | tail _ hd => exact h.opened _ List.mem_cons_self d hd
    · exact h.opened f (List.mem_cons_of_mem _ hf) d hd

theorem Over.close (h : n.Over P) : n.close.Over P := by
  rcases n with ⟨_ | ⟨⟨o, content⟩, opened⟩, outside⟩
  · exact h
  · refine Over.add (.block fun c hc => ?_) ⟨h.outside, fun f hf => ?_⟩
    · exact h.opened _ List.mem_cons_self c (List.mem_reverse.mp hc)
    · exact h.opened f (List.mem_cons_of_mem _ hf)

theorem Over.step {t : Token} (ht : P t) (h : n.Over P) : (n.step t).Over P := by
  unfold Nesting.step
  split
  · refine ⟨h.outside, ?_⟩
    rintro f (_ | ⟨_, hf⟩)
    · exact nofun
    · exact h.opened f hf
  · split
    · split
      · exact h.close
      · exact h.add (.token ht)
    · exact h.add (.token ht)

theorem Over.foldl {ts : List Token} (hts : ∀ t ∈ ts, P t) (h : n.Over P) :
    (ts.foldl Nesting.step n).Over P := by
  induction ts generalizing n with
  | nil => exact h
  | cons t rest ih =>
    exact ih (fun u hu => hts u (List.mem_cons_of_mem t hu)) (h.step (hts t List.mem_cons_self))

theorem Over.closeAll (k : Nat) (h : n.Over P) : ∀ c ∈ n.closeAll k, c.Over P := by
  induction k generalizing n with
  | zero => exact fun c hc => h.outside c (List.mem_reverse.mp hc)
  | succ k ih => exact ih h.close

end Nesting

/-- What holds of all tokens holds of all tokens in their components. -/
theorem componentsOf_over {P : Token → Prop} {ts : List Token} (h : ∀ t ∈ ts, P t) :
    ∀ c ∈ componentsOf ts, c.Over P := by
  have empty : Nesting.Over P ⟨[], []⟩ := ⟨nofun, nofun⟩
  exact Nesting.Over.closeAll _ (empty.foldl h)

end StyleTypings.Css

namespace StyleTypings.Classes

open Css

variable {P : Token → Prop} {name : Text}

theorem ofToken_eq {before : Mark} {t : Token} (h : name ∈ ofToken before t) : t = .ident name := by
  unfold ofToken at h
  split at h
  · split at h
    · rw [List.mem_singleton.mp h]
    · cases h
  · cases h

mutual

/-- The classes inside a component are names of identifiers in it. -/
theorem mem_within (before : Mark) :
    ∀ c : Component, c.Over P → name ∈ within before c → P (.ident name)
  | .token t, .token ht, h => by
    rw [within] at h
    exact ofToken_eq h ▸ ht
  | .block opener content, .block hcontent, h => by
    rw [within] at h
    split at h
    · exact mem_scan .other content hcontent h
    · cases h

theorem mem_scan (before : Mark) :
    ∀ cs : List Component, (∀ c ∈ cs, c.Over P) → name ∈ scan before cs → P (.ident name)
  | [], _, h => by
    rw [scan] at h
    cases h
  | .token t :: rest, hover, h => by
    rw [scan] at h
    split at h
    · cases h
    · rcases List.mem_append.mp h with hfirst | hlater
      · exact mem_within before (.token t) (hover _ List.mem_cons_self) hfirst
      · exact mem_scan _ rest (fun c hc => hover c (List.mem_cons_of_mem _ hc)) hlater
  | .block opener content :: rest, hover, h => by
    rw [scan] at h
    rcases List.mem_append.mp h with hfirst | hlater
    · exact mem_within before (.block opener content) (hover _ List.mem_cons_self) hfirst
    · exact mem_scan _ rest (fun c hc => hover c (List.mem_cons_of_mem _ hc)) hlater

end

/-- Every class that a selector mentions is the name at the beginning of some suffix of
the selector. -/
theorem mem_ofSelector {selector : Text} (h : name ∈ ofSelector selector) :
    ∃ s, s <:+ selector ∧ (takeName 0 s).1 = name :=
  ident_mem_tokens (mem_scan .other _ (componentsOf_over fun _ ht => ht) h)

end StyleTypings.Classes
