/-
Likeness — scopes in which the same names stand for like bodies.

Two style sheets are compared body by body.  Which bodies are alike is left open here, and
so is which tags belong together; from the two follows when bindings, frames and scopes
are alike:

  definitions  their tags belong together, their preludes are the same, their bodies alike
  frames       every symbol is declared by the same number of bindings, alike in order
  scopes       their frames are alike, from the innermost on

Only the bindings of one symbol have an order in a frame, since nothing looks at two
symbols at once.

Less is asked of scopes that agree (`Scope.Agree`).  They give the same values to all
variables, and a symbol that is called stands for like definitions or bodies in both; in
how many frames they come to that, and what they say of the other symbols, is open.  Like
scopes agree, whatever is called (`Scope.Like.agree`).  If like bodies declare frames that
agree, then nodes that call no more ask in such scopes for like tasks or for the same error
(`statementTask_like`, `blockTask_like`).
-/
import StyleTypings.Less.Evaluation
import StyleTypings.Proofs.Variables
import Mathlib.Data.List.Forall2
import Mathlib.Data.Option.Basic
import Mathlib.Logic.Relator

namespace StyleTypings.Less

/-! ## Symbols -/

/-- What a binding is about: a name of one of the three kinds. -/
inductive Symbol where
  | variable (name : Text)
  | mixin (name : Text)
  | detached (name : Text)
deriving DecidableEq, Repr

/-- What a binding is about. -/
def Binding.symbol {ι : Type} : Binding ι → Symbol
  | .variable name _ => .variable name
  | .mixin name _ => .mixin name
  | .detached name _ => .detached name

/-- The bindings of one symbol, in order. -/
def Frame.about {ι : Type} (f : Frame ι) (x : Symbol) : Frame ι := f.filter (·.symbol = x)

/-- A lookup that goes by one symbol looks at the bindings of that symbol only. -/
theorem Frame.filterMap_about {ι β : Type} {look : Binding ι → Option β} {x : Symbol}
    (only : ∀ b : Binding ι, b.symbol ≠ x → look b = none) (f : Frame ι) :
    (f.about x).filterMap look = f.filterMap look := by
  rw [Frame.about, List.filterMap_filter]
  refine List.filterMap_congr fun b _ => ?_
  by_cases h : b.symbol = x
  · simp [h]
  · simp [h, only b h]

section Lookups

variable {ι : Type} {name : Text} {b : Binding ι}

theorem Binding.rawValue?_eq_none (h : b.symbol ≠ .variable name) : b.rawValue? name = none := by
  cases b <;> simp_all [Binding.symbol, Binding.rawValue?]

theorem Binding.mixin?_eq_none (h : b.symbol ≠ .mixin name) : b.mixin? name = none := by
  cases b <;> simp_all [Binding.symbol, Binding.mixin?]

theorem Binding.detached?_eq_none (h : b.symbol ≠ .detached name) :
    b.detached? name = none := by
  cases b <;> simp_all [Binding.symbol, Binding.detached?]

end Lookups

/-! ## Results -/

/-- The same error, or values that are related. -/
inductive ResultLike {ε α β : Type} (R : α → β → Prop) : Except ε α → Except ε β → Prop where
  | ok {a : α} {b : β} (h : R a b) : ResultLike R (.ok a) (.ok b)
  | error (e : ε) : ResultLike R (.error e) (.error e)

theorem ResultLike.symm {ε α β : Type} {R : α → β → Prop} {r : Except ε α} {r' : Except ε β}
    (h : ResultLike R r r') : ResultLike (flip R) r' r := by
  cases h with
  | ok h => exact .ok h
  | error e => exact .error e

theorem ResultLike.bind {ε α β α' β' : Type} {R : α → β → Prop} {S : α' → β' → Prop}
    {r : Except ε α} {r' : Except ε β} {f : α → Except ε α'} {f' : β → Except ε β'}
    (h : ResultLike R r r') (hf : ∀ a b, R a b → ResultLike S (f a) (f' b)) :
    ResultLike S (r >>= f) (r' >>= f') := by
  cases h with
  | ok h => exact hf _ _ h
  | error e => exact .error e

theorem ResultLike.bind_same {ε α α' β' : Type} {S : α' → β' → Prop} {r : Except ε α}
    {f : α → Except ε α'} {f' : α → Except ε β'} (hf : ∀ a, ResultLike S (f a) (f' a)) :
    ResultLike S (r >>= f) (r >>= f') := by
  cases r with
  | ok a => exact hf a
  | error e => exact .error e

/-- Lists that are related entry by entry have related last entries. -/
theorem getLast?_forall₂ {α β : Type} {R : α → β → Prop} {l : List α} {l' : List β}
    (h : List.Forall₂ R l l') : Option.Rel R l.getLast? l'.getLast? := by
  rw [List.getLast?_eq_head?_reverse, List.getLast?_eq_head?_reverse]
  replace h := List.rel_reverse h
  generalize l.reverse = r, l'.reverse = r' at h
  cases h with
  | nil => exact .none
  | cons hlast _ => exact .some hlast

theorem isEmpty_forall₂ {α β : Type} {R : α → β → Prop} {l : List α} {l' : List β}
    (h : List.Forall₂ R l l') : l.isEmpty = l'.isEmpty := by
  cases h <;> rfl

section Like

variable {ι κ : Type} (T : ι → κ → Prop) (B : List (Node ι) → List (Node κ) → Prop)

/-! ## Bindings -/

structure Definition.Like (d : Definition ι) (d' : Definition κ) : Prop where
  tag : T d.tag d'.tag
  prelude : d.prelude = d'.prelude
  body : B d.body d'.body

inductive Binding.Like : Binding ι → Binding κ → Prop where
  | variable (name value : Text) : Like (.variable name value) (.variable name value)
  | mixin {d : Definition ι} {d' : Definition κ} (name : Text) (h : d.Like T B d') :
    Like (.mixin name d) (.mixin name d')
  | detached {nodes : List (Node ι)} {nodes' : List (Node κ)} (name : Text) (h : B nodes nodes') :
    Like (.detached name nodes) (.detached name nodes')

/-- Every symbol is declared by like bindings, in order. -/
def Frame.Like (f : Frame ι) (f' : Frame κ) : Prop :=
  ∀ x, List.Forall₂ (Binding.Like T B) (f.about x) (f'.about x)

abbrev Scope.Like : Scope ι → Scope κ → Prop := List.Forall₂ (Frame.Like T B)

variable {T B}

namespace Binding.Like

variable {b : Binding ι} {b' : Binding κ}

theorem symbol (h : b.Like T B b') : b.symbol = b'.symbol := by
  cases h <;> rfl

theorem rawValue? (h : b.Like T B b') (name : Text) :
    Option.Rel Eq (b.rawValue? name) (b'.rawValue? name) := by
  cases h with
  | «variable» n value =>
    rw [Binding.rawValue?, Binding.rawValue?]
    split
    · exact .some rfl
    · exact .none
  | mixin => exact .none
  | detached => exact .none

theorem mixin? (h : b.Like T B b') (name : Text) :
    Option.Rel (Definition.Like T B) (b.mixin? name) (b'.mixin? name) := by
  cases h with
  | «variable» => exact .none
  | mixin n hd =>
    rw [Binding.mixin?, Binding.mixin?]
    split
    · exact .some hd
    · exact .none
  | detached => exact .none

theorem detached? (h : b.Like T B b') (name : Text) :
    Option.Rel B (b.detached? name) (b'.detached? name) := by
  cases h with
  | «variable» => exact .none
  | mixin => exact .none
  | detached n hnodes =>
    rw [Binding.detached?, Binding.detached?]
    split
    · exact .some hnodes
    · exact .none

end Binding.Like

/-! ## Frames -/

namespace Frame.Like

variable {f g : Frame ι} {f' g' : Frame κ}

/-- Frames with like bindings one after another. -/
theorem of_forall₂ (h : List.Forall₂ (Binding.Like T B) f f') : f.Like T B f' := by
  intro x
  induction h with
  | nil => exact .nil
  | @cons b b' rest rest' hb _ ih =>
    simp only [Frame.about, List.filter_cons, ← hb.symbol]
    split
    · exact .cons hb ih
    · exact ih

theorem append (h : f.Like T B f') (h' : g.Like T B g') : (f ++ g).Like T B (f' ++ g') := by
  intro x
  rw [Frame.about, Frame.about, List.filter_append, List.filter_append]
  exact List.rel_append (h x) (h' x)

end Frame.Like

/-! ### Lookups -/

section Lookups

variable {f : Frame ι} {f' : Frame κ} {name : Text}

/-- A lookup that goes by one symbol finds the like where the bindings of that symbol are
alike. -/
theorem filterMap_like {α β : Type} {R : α → β → Prop} {x : Symbol}
    {look : Binding ι → Option α} {look' : Binding κ → Option β}
    (h : List.Forall₂ (Binding.Like T B) (f.about x) (f'.about x))
    (only : ∀ b : Binding ι, b.symbol ≠ x → look b = none)
    (only' : ∀ b : Binding κ, b.symbol ≠ x → look' b = none)
    (like : ∀ b b', b.Like T B b' → Option.Rel R (look b) (look' b')) :
    List.Forall₂ R (f.filterMap look) (f'.filterMap look') := by
  rw [← Frame.filterMap_about only, ← Frame.filterMap_about only']
  exact List.rel_filterMap like h

theorem frame_rawValue?_eq
    (h : List.Forall₂ (Binding.Like T B) (f.about (.variable name)) (f'.about (.variable name))) :
    f.rawValue? name = f'.rawValue? name := by
  have hvalues := filterMap_like h (fun _ => Binding.rawValue?_eq_none)
    (fun _ => Binding.rawValue?_eq_none) fun _ _ hb => hb.rawValue? name
  rw [List.forall₂_eq_eq_eq] at hvalues
  rw [Frame.rawValue?, Frame.rawValue?, hvalues]

theorem frame_mixins_like
    (h : List.Forall₂ (Binding.Like T B) (f.about (.mixin name)) (f'.about (.mixin name))) :
    List.Forall₂ (Definition.Like T B) (f.mixins name) (f'.mixins name) :=
  filterMap_like h (fun _ => Binding.mixin?_eq_none) (fun _ => Binding.mixin?_eq_none)
    fun _ _ hb => hb.mixin? name

theorem frame_detached?_like
    (h : List.Forall₂ (Binding.Like T B) (f.about (.detached name)) (f'.about (.detached name))) :
    Option.Rel B (f.detached? name) (f'.detached? name) := by
  have hbodies := filterMap_like h (fun _ => Binding.detached?_eq_none)
    (fun _ => Binding.detached?_eq_none) fun _ _ hb => hb.detached? name
  exact getLast?_forall₂ hbodies

end Lookups

/-! ### Frames of nodes -/

theorem statement_bindings_like (tag : ι) (tag' : κ) (text : Text) :
    List.Forall₂ (Binding.Like T B) (Node.statement tag text).bindings
      (Node.statement tag' text).bindings := by
  rw [Node.bindings, Node.bindings]
  split
  · exact .cons (.variable _ _) .nil
  · exact .nil

theorem block_bindings_like {tag : ι} {tag' : κ} (prelude : Text) {body : List (Node ι)}
    {body' : List (Node κ)} (tags : T tag tag') (h : B body body') :
    List.Forall₂ (Binding.Like T B) (Node.block tag prelude body).bindings
      (Node.block tag' prelude body').bindings := by
  rw [Node.bindings, Node.bindings]
  split
  · exact .cons (.detached _ h) .nil
  · induction Signature.names prelude with
    | nil => exact .nil
    | cons name names ih => exact .cons (.mixin name ⟨tags, rfl, h⟩) ih

/-! ## Scopes -/

namespace Scope.Like

variable {s : Scope ι} {s' : Scope κ}

/-- Values for parameters change nothing about the other symbols. -/
theorem withValues (h : s.Like T B s') (values : List (Text × Text)) :
    (s.withValues values).Like T B (s'.withValues values) := by
  have hvalues : Frame.Like T B (values.map fun v => .variable v.1 v.2)
      (values.map fun v => .variable v.1 v.2) := by
    refine .of_forall₂ ?_
    induction values with
    | nil => exact .nil
    | cons v rest ih => exact .cons (.variable v.1 v.2) ih
  cases h with
  | nil => exact .cons hvalues .nil
  | cons hf houter => exact .cons (hf.append hvalues) houter

theorem enter (hs : s.Like T B s')
    (frames : ∀ nodes nodes', B nodes nodes' → (bindingsOf nodes).Like T B (bindingsOf nodes'))
    {nodes : List (Node ι)} {nodes' : List (Node κ)} (h : B nodes nodes') :
    (s.enter nodes).Like T B (s'.enter nodes') :=
  .cons (frames _ _ h) hs

end Scope.Like

/-! ### Scopes that agree -/

/-- Whether a symbol is looked up where only certain mixins and detached rule sets are
called.  Any variable may be. -/
def Symbol.IsRead (called : Symbol → Prop) : Symbol → Prop
  | .variable _ => True
  | .mixin name => called (.mixin name)
  | .detached name => called (.detached name)

variable (T B) in
/-- The symbols that are looked up are declared by like bindings, in order. -/
def Frame.Agree (called : Symbol → Prop) (f : Frame ι) (f' : Frame κ) : Prop :=
  ∀ x, x.IsRead called → List.Forall₂ (Binding.Like T B) (f.about x) (f'.about x)

theorem Frame.Like.agree {f : Frame ι} {f' : Frame κ} (h : f.Like T B f') (called : Symbol → Prop) :
    f.Agree T B called f' :=
  fun x _ => h x

variable (T B) in
/-- Variables have the same values in two scopes, and every symbol that is called stands for
like definitions or bodies in them. -/
structure Scope.Agree (called : Symbol → Prop) (s : Scope ι) (s' : Scope κ) : Prop where
  rawValue? : s.rawValue? = s'.rawValue?
  mixins : ∀ name, called (.mixin name) →
    List.Forall₂ (Definition.Like T B) (s.mixins name) (s'.mixins name)
  detached? : ∀ name, called (.detached name) → Option.Rel B (s.detached? name) (s'.detached? name)

section Values

variable {s : Scope ι} {s' : Scope κ} (h : s.rawValue? = s'.rawValue?)

include h

theorem Scope.text_congr : s.text = s'.text := by
  funext name
  exact (Scope.within_congr Scope.maxDepth fun other _ => congrFun h other).1

theorem Scope.value_congr : s.value = s'.value := by
  funext name
  exact (Scope.within_congr Scope.maxDepth fun other _ => congrFun h other).2

theorem Scope.interpolate_congr (t : Text) : s.interpolate t = s'.interpolate t := by
  rw [Scope.interpolate, Scope.interpolate, Scope.text_congr h]

theorem Scope.guardHolds_congr (guard : Option Text) : s.guardHolds guard = s'.guardHolds guard := by
  cases guard with
  | none => rfl
  | some t => rw [Scope.guardHolds, Scope.guardHolds, Scope.value_congr h]

theorem Scope.arguments_congr (written : Option Text) :
    s.arguments written = s'.arguments written := by
  have hargument : s.argument = s'.argument := by
    funext t
    rw [Scope.argument, Scope.argument, Scope.value_congr h, Scope.text_congr h]
  have hadd : s.addArgument = s'.addArgument := by
    funext a item
    rw [Scope.addArgument, Scope.addArgument, hargument]
  cases written with
  | none => rfl
  | some t => rw [Scope.arguments, Scope.arguments, hadd]

theorem selectionIn_congr (guard : Option Text) : selectionIn s guard = selectionIn s' guard := by
  cases guard with
  | none => rfl
  | some t => rw [selectionIn, selectionIn, Scope.value_congr h]

end Values

/-! What a scope says with one more frame, or with values for parameters. -/

namespace Scope

variable (s : Scope ι) (f : Frame ι) (name : Text)

theorem rawValue?_cons : rawValue? (f :: s) name = (f.rawValue? name).or (s.rawValue? name) := by
  rw [rawValue?, List.findSome?_cons]
  cases f.rawValue? name <;> rfl

theorem detached?_cons : detached? (f :: s) name = (f.detached? name).or (s.detached? name) := by
  rw [detached?, List.findSome?_cons]
  cases f.detached? name <;> rfl

theorem mixins_cons :
    mixins (f :: s) name = if f.mixins name = [] then s.mixins name else f.mixins name := by
  rw [mixins]
  cases f.mixins name <;> rfl

variable (values : List (Text × Text))

theorem rawValue?_withValues :
    (s.withValues values).rawValue? name =
      (Frame.rawValue? (values.map fun v => Binding.variable (ι := ι) v.1 v.2) name).or
        (s.rawValue? name) := by
  cases s with
  | nil => exact rawValue?_cons [] _ name
  | cons g outer =>
    rw [withValues, rawValue?_cons, rawValue?_cons, ← Option.or_assoc]
    congr 1
    rw [Frame.rawValue?, List.filterMap_append, List.getLast?_append]
    rfl

theorem mixins_withValues : (s.withValues values).mixins name = s.mixins name := by
  have hvalues : Frame.mixins (values.map fun v => Binding.variable (ι := ι) v.1 v.2) name = [] := by
    simp [Frame.mixins, Binding.mixin?]
  cases s with
  | nil => rw [withValues, mixins_cons, if_pos hvalues]
  | cons g outer =>
    have hframe : Frame.mixins (g ++ values.map fun v => Binding.variable v.1 v.2) name =
        g.mixins name := by
      rw [Frame.mixins, List.filterMap_append]
      exact (congrArg _ hvalues).trans (List.append_nil _)
    rw [withValues, mixins_cons, mixins_cons, hframe]

theorem detached?_withValues : (s.withValues values).detached? name = s.detached? name := by
  have hvalues : (values.map fun v => Binding.variable (ι := ι) v.1 v.2).filterMap
      (Binding.detached? name) = [] := by
    simp [Binding.detached?]
  cases s with
  | nil =>
    rw [withValues, detached?_cons, Frame.detached?, hvalues]
    rfl
  | cons g outer =>
    rw [withValues, detached?_cons, detached?_cons, Frame.detached?, List.filterMap_append, hvalues,
      List.append_nil]
    rfl

end Scope

namespace Scope.Agree

variable {called : Symbol → Prop} {s : Scope ι} {s' : Scope κ}

theorem nil : Scope.Agree T B called ([] : Scope ι) ([] : Scope κ) :=
  ⟨rfl, fun _ _ => .nil, fun _ _ => .none⟩

theorem cons {f : Frame ι} {f' : Frame κ} (hf : f.Agree T B called f')
    (h : s.Agree T B called s') : Scope.Agree T B called (f :: s) (f' :: s') where
  rawValue? := by
    funext name
    rw [rawValue?_cons, rawValue?_cons, frame_rawValue?_eq (hf (.variable name) trivial), h.rawValue?]
  mixins name hname := by
    have hds := frame_mixins_like (hf (.mixin name) hname)
    rw [mixins_cons, mixins_cons]
    generalize f.mixins name = ds, f'.mixins name = ds' at hds
    cases hds with
    | nil => exact h.mixins name hname
    | cons hd hds => exact .cons hd hds
  detached? name hname := by
    have hbody := frame_detached?_like (hf (.detached name) hname)
    rw [detached?_cons, detached?_cons]
    generalize f.detached? name = o, f'.detached? name = o' at hbody
    cases hbody with
    | none => exact h.detached? name hname
    | some hbody => exact .some hbody

/-- A frame that declares no symbol that is looked up can be put on one of the scopes. -/
theorem cons_left {f : Frame ι} (nothing : ∀ x, x.IsRead called → f.about x = [])
    (h : s.Agree T B called s') : Scope.Agree T B called (f :: s) s' where
  rawValue? := by
    funext name
    have hf : f.rawValue? name = none := by
      rw [Frame.rawValue?, ← Frame.filterMap_about fun _ => Binding.rawValue?_eq_none,
        nothing (.variable name) trivial]
      rfl
    rw [rawValue?_cons, hf, Option.none_or, h.rawValue?]
  mixins name hname := by
    have hf : f.mixins name = [] := by
      rw [Frame.mixins, ← Frame.filterMap_about fun _ => Binding.mixin?_eq_none,
        nothing (.mixin name) hname]
      rfl
    rw [mixins_cons, if_pos hf]
    exact h.mixins name hname
  detached? name hname := by
    have hf : f.detached? name = none := by
      rw [Frame.detached?, ← Frame.filterMap_about fun _ => Binding.detached?_eq_none,
        nothing (.detached name) hname]
      rfl
    rw [detached?_cons, hf, Option.none_or]
    exact h.detached? name hname

theorem withValues (h : s.Agree T B called s') (values : List (Text × Text)) :
    (s.withValues values).Agree T B called (s'.withValues values) where
  rawValue? := by
    have hvalues (name : Text) :
        Frame.rawValue? (values.map fun v => Binding.variable (ι := ι) v.1 v.2) name =
          Frame.rawValue? (values.map fun v => Binding.variable (ι := κ) v.1 v.2) name := by
      simp [Frame.rawValue?, List.filterMap_map, Function.comp_def, Binding.rawValue?]
    funext name
    rw [rawValue?_withValues, rawValue?_withValues, hvalues, h.rawValue?]
  mixins name hname := by
    rw [mixins_withValues, mixins_withValues]
    exact h.mixins name hname
  detached? name hname := by
    rw [detached?_withValues, detached?_withValues]
    exact h.detached? name hname

end Scope.Agree

theorem Scope.Like.agree {s : Scope ι} {s' : Scope κ} (h : s.Like T B s')
    (called : Symbol → Prop) : s.Agree T B called s' := by
  induction h with
  | nil => exact .nil
  | cons hf _ ih => exact ih.cons (hf.agree called)

/-! ## Nodes and tasks -/

variable (T B)

/-- Nodes that are the same but for their tags, the files they come from, and their
bodies. -/
inductive Node.Like : Node ι → Node κ → Prop where
  | statement (tag : ι) (tag' : κ) (text : Text) : Like (.statement tag text) (.statement tag' text)
  | block {tag : ι} {tag' : κ} {body : List (Node ι)} {body' : List (Node κ)} (prelude : Text)
      (tags : T tag tag') (h : B body body') : Like (.block tag prelude body) (.block tag' prelude body')
  | imported {nodes : List (Node ι)} {nodes' : List (Node κ)} (file file' : Location)
      (reference : Bool) (h : B nodes nodes') :
    Like (.imported file reference nodes) (.imported file' reference nodes')

structure Candidate.Like (c : Candidate ι) (c' : Candidate κ) : Prop where
  definition : c.definition.Like T B c'.definition
  signature : c.signature = c'.signature

inductive Task.Like : Task ι → Task κ → Prop where
  | none (declares : Bool) : Like (.none declares) (.none declares)
  | ruleset {nodes : List (Node ι)} {nodes' : List (Node κ)} (selectors : List Text)
      (h : B nodes nodes') : Like (.ruleset selectors nodes) (.ruleset selectors nodes')
  | imported {nodes : List (Node ι)} {nodes' : List (Node κ)} (reference : Bool)
      (h : B nodes nodes') : Like (.imported reference nodes) (.imported reference nodes')
  | detached {nodes : List (Node ι)} {nodes' : List (Node κ)} (h : B nodes nodes') :
    Like (.detached nodes) (.detached nodes')
  | expansions {cs : List (Candidate ι)} {cs' : List (Candidate κ)} (call : Call) (a : Arguments)
      (h : List.Forall₂ (Candidate.Like T B) cs cs') :
    Like (.expansions call a cs) (.expansions call a cs')

variable {T B}

theorem candidates_like {ds : List (Definition ι)} {ds' : List (Definition κ)}
    (h : List.Forall₂ (Definition.Like T B) ds ds') (name : Text) (a : Arguments) :
    List.Forall₂ (Candidate.Like T B) (candidates name a ds) (candidates name a ds') := by
  refine List.rel_filterMap ?_ h
  intro d d' hd
  simp only [hd.prelude]
  cases (Signature.forCall? d'.prelude name).filter (·.accepts a) with
  | none => exact .none
  | some signature => exact .some ⟨hd, rfl⟩

/-- What a candidate's body sees, like a body that is entered. -/
theorem Candidate.Like.scope {s : Scope ι} {s' : Scope κ} (hs : s.Like T B s')
    (frames : ∀ nodes nodes', B nodes nodes' → (bindingsOf nodes).Like T B (bindingsOf nodes'))
    {c : Candidate ι} {c' : Candidate κ} (h : c.Like T B c') (a : Arguments) :
    (c.scope s a).Like T B (c'.scope s' a) := by
  rw [Candidate.scope, Candidate.scope, h.signature]
  exact (hs.enter frames h.definition.body).withValues _

/-! ### What is asked for -/

/-- The symbols that a statement calls. -/
def Statement.calls : Statement → List Symbol
  | .call c => c.path.map .mixin
  | .detachedCall name => [.detached name]
  | _ => []

section Tasks

variable {s : Scope ι} {s' : Scope κ}

/-- What a block asks for depends on its scope by the values of variables alone. -/
theorem blockTask_like (hs : s.rawValue? = s'.rawValue?) (context : List Text) (prelude : Text)
    {body : List (Node ι)} {body' : List (Node κ)} (h : B body body') :
    ResultLike (Task.Like T B) (s.blockTask context prelude body)
      (s'.blockTask context prelude body') := by
  unfold Scope.blockTask
  split
  · split
    · exact .ok (.ruleset context h)
    · exact .ok (.none false)
  · split
    · exact .ok (.none false)
    · rw [Scope.selectorBlockTask, Scope.selectorBlockTask]
      simp only [Scope.guardHolds_congr hs, Scope.interpolate_congr hs]
      refine .bind_same fun holds => ?_
      split
      · exact .bind_same fun list => .ok (.ruleset _ h)
      · exact .ok (.none false)

variable {called : Symbol → Prop} (hs : s.Agree T B called s')
  (frames : ∀ nodes nodes', B nodes nodes' →
    (bindingsOf nodes).Agree T B called (bindingsOf nodes'))

include hs frames

theorem Scope.Agree.enter {nodes : List (Node ι)} {nodes' : List (Node κ)} (h : B nodes nodes') :
    (s.enter nodes).Agree T B called (s'.enter nodes') :=
  hs.cons (frames _ _ h)

theorem Candidate.Like.agree {c : Candidate ι} {c' : Candidate κ} (h : c.Like T B c')
    (a : Arguments) : (c.scope s a).Agree T B called (c'.scope s' a) := by
  rw [Candidate.scope, Candidate.scope, h.signature]
  exact (hs.enter frames h.definition.body).withValues _

theorem Scope.Agree.find {path : List Text} (hpath : ∀ name ∈ path, called (.mixin name)) :
    List.Forall₂ (Definition.Like T B) (s.find path) (s'.find path) := by
  induction path generalizing s s' with
  | nil => exact .nil
  | cons name names ih =>
    have hds := hs.mixins name (hpath name List.mem_cons_self)
    cases names with
    | nil => exact hds
    | cons next names =>
      refine List.rel_flatMap hds ?_
      intro d d' hd
      exact ih (Scope.Agree.enter .nil frames hd.body) fun other hother =>
        hpath other (List.mem_cons_of_mem name hother)

variable [DecidableEq ι] [DecidableEq κ] {expanding : List ι} {expanding' : List κ}
  (same : ∀ {tag tag'}, T tag tag' → expanding.contains tag = expanding'.contains tag')

include same

theorem selection_like {c : Candidate ι} {c' : Candidate κ} (h : c.Like T B c') (a : Arguments) :
    c.selection s a expanding = c'.selection s' a expanding' := by
  have hreentry : c.isReentry expanding = c'.isReentry expanding' := by
    rw [Candidate.isReentry, Candidate.isReentry, h.signature, same h.definition.tag]
  rw [Candidate.selection, Candidate.selection, hreentry,
    selectionIn_congr (h.agree hs frames a).rawValue?, h.signature]

/-- Of like candidates like ones are selected, in the same way. -/
theorem selected_like {cs : List (Candidate ι)} {cs' : List (Candidate κ)}
    (h : List.Forall₂ (Candidate.Like T B) cs cs') (a : Arguments) :
    ResultLike (List.Forall₂ fun r r' => r.1.Like T B r'.1 ∧ r.2 = r'.2)
      (selected s a expanding cs) (selected s' a expanding' cs') := by
  induction h with
  | nil => exact .ok .nil
  | @cons c c' rest rest' hc _ ih =>
    rw [selected, selected, selection_like hs frames same hc a]
    refine .bind_same fun here => .bind ih fun others others' hothers => .ok ?_
    cases here with
    | none => exact hothers
    | some selection => exact .cons ⟨hc, rfl⟩ hothers

omit [DecidableEq ι] [DecidableEq κ] hs frames same in
theorem expanded_like {chosen : List (Candidate ι × Selection)}
    {chosen' : List (Candidate κ × Selection)}
    (h : List.Forall₂ (fun r r' => r.1.Like T B r'.1 ∧ r.2 = r'.2) chosen chosen') :
    List.Forall₂ (Candidate.Like T B) (expanded chosen) (expanded chosen') := by
  have hdefault : chosen.any (·.2 == .always) = chosen'.any (·.2 == .always) := by
    induction h with
    | nil => rfl
    | cons hr _ ih => rw [List.any_cons, List.any_cons, hr.2, ih]
  rw [expanded, expanded, hdefault]
  refine List.rel_map (fun _ _ hr => hr.1) (List.rel_filter ?_ h)
  intro r r' hr
  simp only [hr.2]

theorem callTask_like (call : Call) (hpath : ∀ name ∈ call.path, called (.mixin name)) :
    ResultLike (Task.Like T B) (s.callTask expanding call) (s'.callTask expanding' call) := by
  have hfind := hs.find frames hpath
  simp only [Scope.callTask, isEmpty_forall₂ hfind, Scope.arguments_congr hs.rawValue?]
  split
  · exact .error _
  · refine .bind_same fun a => ?_
    have hmatching := candidates_like hfind (call.path.getLast?.getD []) a
    rw [isEmpty_forall₂ hmatching]
    split
    · exact .error _
    · exact .bind (selected_like hs frames same hmatching a) fun _ _ hchosen =>
        .ok (.expansions call a (expanded_like hchosen))

/-- A statement asks for like tasks where the scopes agree about all that it calls. -/
theorem statementTask_like {text : Text} (hcalls : ∀ x ∈ (Statement.ofText text).calls, called x) :
    ResultLike (Task.Like T B) (s.statementTask expanding text)
      (s'.statementTask expanding' text) := by
  rw [Scope.statementTask, Scope.statementTask]
  cases hstatement : Statement.ofText text with
  | declaration => exact .ok (.none true)
  | call c =>
    rw [hstatement] at hcalls
    exact callTask_like hs frames same c fun name hname => hcalls _ (List.mem_map_of_mem hname)
  | detachedCall name =>
    rw [hstatement] at hcalls
    have hbody := hs.detached? name (hcalls _ List.mem_cons_self)
    simp only
    generalize s.detached? name = o, s'.detached? name = o' at hbody
    cases hbody with
    | none => exact .error _
    | some hbody => exact .ok (.detached hbody)
  | inert => exact .ok (.none false)

end Tasks

section Unique

variable [DecidableEq ι] [DecidableEq κ] {expanding : List ι} {expanding' : List κ}

theorem contains_like (unique : Relator.BiUnique T) (hexpanding : List.Forall₂ T expanding expanding')
    {tag : ι} {tag' : κ} (h : T tag tag') : expanding.contains tag = expanding'.contains tag' := by
  induction hexpanding with
  | nil => rfl
  | @cons a b _ _ hab _ ih =>
    rw [List.contains_cons, List.contains_cons, ih]
    congr 1
    exact Bool.eq_iff_iff.mpr (by simpa using Relator.rel_eq unique h hab)

/-- Like nodes ask for like tasks in like scopes. -/
theorem task_like {s : Scope ι} {s' : Scope κ} (hs : s.Like T B s')
    (frames : ∀ nodes nodes', B nodes nodes' → (bindingsOf nodes).Like T B (bindingsOf nodes'))
    (unique : Relator.BiUnique T) (hexpanding : List.Forall₂ T expanding expanding')
    (context : List Text) {n : Node ι} {n' : Node κ} (h : n.Like T B n') :
    ResultLike (Task.Like T B) (s.task expanding context n) (s'.task expanding' context n') := by
  have agree : s.Agree T B (fun _ => True) s' := hs.agree _
  cases h with
  | statement tag tag' text =>
    exact statementTask_like agree (fun _ _ hnodes => (frames _ _ hnodes).agree _)
      (contains_like unique hexpanding) fun _ _ => trivial
  | block prelude _ hbody => exact blockTask_like agree.rawValue? context prelude hbody
  | imported file file' reference hnodes => exact .ok (.imported reference hnodes)

end Unique

end Like

end StyleTypings.Less
