/-
Evaluation — from the nodes of a style sheet to its rule sets.

A block makes a rule set out of its selectors if anything inside it is declared for
them.  Its place in the output is taken when the block begins, so a block stands
before the blocks inside it.  Calls expand the body of a mixin or detached rule set
where they stand, in a scope that hangs below the caller's.

A mixin call proceeds in this order: find the definitions, evaluate the arguments,
keep the definitions that take them, leave out plain rule sets that are being
expanded already, evaluate the guards, and expand what they select.  `default()` in
a guard holds when no definition is selected without it.

Every step into a body costs one of a given depth.  The depth bounds nothing else,
so a run that ends ends in the same way at any greater depth.
-/
import StyleTypings.Less.Scope
import StyleTypings.Less.Selector
import StyleTypings.Less.Statement

namespace StyleTypings.Less

/-- A rule set: the selectors it applies to. -/
structure Ruleset where
  selectors : List Text
deriving DecidableEq, Repr

/-- The rule sets of a style sheet, in order. -/
abbrev Stylesheet := List Ruleset

/-- All selectors of a style sheet, in order. -/
def Stylesheet.selectors (s : Stylesheet) : List Text := s.flatMap (·.selectors)

/-- How far an evaluation has come. -/
structure Progress (ι : Type) where
  /-- A place for every block that has begun; it stays empty unless the block has
  declarations. -/
  places : Array (Option Ruleset)
  /-- The definitions being expanded, innermost first. -/
  expanding : List ι

/-- An evaluation changes the progress, also when it stops with an error. -/
abbrev Eval (ι α : Type) := ExceptT Halt (StateM (Progress ι)) α

namespace Eval

variable {ι : Type}

/-- The result of something that can fail, as an evaluation. -/
def ofExcept {α : Type} (r : Except CompileError α) : Eval ι α :=
  match r with
  | .ok a => pure a
  | .error e => throw (.error e)

/-- What an evaluation comes to from some progress on, and how far it has come then. -/
def runFrom {α : Type} (m : Eval ι α) (p : Progress ι) : Except Halt α × Progress ι := m.run.run p

/-- An evaluation during which one more definition is being expanded.  Whatever comes of
it, the innermost one is taken away again. -/
def whileExpanding {α : Type} (tag : ι) (m : Eval ι α) : Eval ι α :=
  .mk fun p =>
    let (result, q) := m.runFrom { p with expanding := tag :: p.expanding }
    (result, { q with expanding := q.expanding.tail })

end Eval

/-! ## Selection of definitions -/

/-- When a definition is expanded. -/
inductive Selection where
  | always
  /-- The guard holds only when `default()` does. -/
  | ifDefault
  /-- The guard holds only when `default()` does not. -/
  | unlessDefault
deriving DecidableEq, Repr

/-- The selection for a guard that holds or not, with `default()` and without. -/
def Selection.ofGuard : Bool → Bool → Option Selection
  | true, true => some .always
  | true, false => some .ifDefault
  | false, true => some .unlessDefault
  | false, false => none

/-- Whether a selection comes to expansion, given what `default()` is. -/
def Selection.expands (isDefault : Bool) : Selection → Bool
  | .always => true
  | .ifDefault => isDefault
  | .unlessDefault => ! isDefault

section Calls

variable {ι : Type}

/-- A definition with the signature it is called under. -/
structure Candidate (ι : Type) where
  definition : Definition ι
  signature : Signature

/-- The definitions that take the arguments of a call by a name. -/
def candidates (name : Text) (a : Arguments) (ds : List (Definition ι)) : List (Candidate ι) :=
  ds.filterMap fun d =>
    ((Signature.forCall? d.prelude name).filter (·.accepts a)).map (Candidate.mk d)

/-- The scope in which a candidate's body is expanded. -/
def Candidate.scope (c : Candidate ι) (caller : Scope ι) (a : Arguments) : Scope ι :=
  (caller.enter c.definition.body).withValues (c.signature.bind a)

/-- Whether the candidate is a plain rule set that is being expanded already. -/
def Candidate.isReentry [DecidableEq ι] (expanding : List ι) (c : Candidate ι) : Bool :=
  ! c.signature.parametric && expanding.contains c.definition.tag

/-- The selection that a guard makes in a scope. -/
def selectionIn (s : Scope ι) : Option Text → Except CompileError (Option Selection)
  | none => .ok (some .always)
  | some t => do
    let guard ← Guard.read t
    let withDefault ← guard.holds s.value (some true)
    let without ← guard.holds s.value (some false)
    return Selection.ofGuard withDefault without

/-- The selection of one candidate; none for a plain rule set that is being expanded
already, whose guard is not looked at. -/
def Candidate.selection [DecidableEq ι] (caller : Scope ι) (a : Arguments) (expanding : List ι)
    (c : Candidate ι) : Except CompileError (Option Selection) :=
  if c.isReentry expanding then .ok none else selectionIn (c.scope caller a) c.signature.guard

/-- The candidates that have a selection, in order. -/
def selected [DecidableEq ι] (caller : Scope ι) (a : Arguments) (expanding : List ι) :
    List (Candidate ι) → Except CompileError (List (Candidate ι × Selection))
  | [] => .ok []
  | c :: rest => do
    let here ← c.selection caller a expanding
    let others ← selected caller a expanding rest
    return (here.map fun s => (c, s)).toList ++ others

/-- The candidates that come to expansion.  `default()` holds when none is selected
whatever it is. -/
def expanded (cs : List (Candidate ι × Selection)) : List (Candidate ι) :=
  let isDefault := ! cs.any (·.2 == .always)
  (cs.filter (·.2.expands isDefault)).map (·.1)

end Calls

/-! ## Tasks -/

/-- What a node of a body asks for. -/
inductive Task (ι : Type) where
  /-- Nothing but to say whether it declares something for the context. -/
  | none (declares : Bool)
  /-- A rule set with given selectors. -/
  | ruleset (selectors : List Text) (nodes : List (Node ι))
  /-- The nodes of an imported file, where the directive stands. -/
  | imported (reference : Bool) (nodes : List (Node ι))
  /-- The body of a detached rule set, where the call stands. -/
  | detached (nodes : List (Node ι))
  /-- The bodies of the definitions that a mixin call selects, in order. -/
  | expansions (call : Call) (arguments : Arguments) (definitions : List (Candidate ι))

namespace Scope

variable {ι : Type}

/-- What a mixin call asks for. -/
def callTask [DecidableEq ι] (s : Scope ι) (expanding : List ι) (call : Call) :
    Except CompileError (Task ι) :=
  let definitions := s.find call.path
  if definitions.isEmpty then .error (.undefinedMixin call.text)
  else do
    let a ← s.arguments call.arguments
    let matching := candidates (call.path.getLast?.getD []) a definitions
    if matching.isEmpty then .error (.noMatchingMixin call.text)
    else
      let chosen ← selected s a expanding matching
      return .expansions call a (expanded chosen)

/-- What a statement asks for. -/
def statementTask [DecidableEq ι] (s : Scope ι) (expanding : List ι) (text : Text) :
    Except CompileError (Task ι) :=
  match Statement.ofText text with
  | .declaration => .ok (.none true)
  | .call c => s.callTask expanding c
  | .detachedCall name =>
    match s.detached? name with
    | some nodes => .ok (.detached nodes)
    | none => .error (.undefinedVariable name)
  | .inert => .ok (.none false)

def guardHolds (s : Scope ι) : Option Text → Except CompileError Bool
  | none => .ok true
  | some t => do (← Guard.read t).holds s.value none

/-- What a block asks for that is no at-rule.  It may have a guard. -/
def selectorBlockTask (s : Scope ι) (context : List Text) (prelude : Text)
    (nodes : List (Node ι)) : Except CompileError (Task ι) := do
  let (list, guard) := Selector.splitGuard prelude
  if ← s.guardHolds guard then
    let list ← s.interpolate list
    return .ruleset (Selector.join context (Selector.withoutExtends list)) nodes
  else return .none false

/-- What a block asks for.  At-rules that hold no rule sets, definitions of detached
rule sets and mixins with parameters give no output where they stand. -/
def blockTask (s : Scope ι) (context : List Text) (prelude : Text) (nodes : List (Node ι)) :
    Except CompileError (Task ι) :=
  match prelude with
  | '@' :: atRule =>
    if (detachedName? prelude).isNone && Selector.bubbles atRule then .ok (.ruleset context nodes)
    else .ok (.none false)
  | _ =>
    if Signature.isParametric prelude then .ok (.none false)
    else s.selectorBlockTask context prelude nodes

/-- What a node asks for in a scope, given the definitions being expanded and the
selectors of the context. -/
def task [DecidableEq ι] (s : Scope ι) (expanding : List ι) (context : List Text) :
    Node ι → Except CompileError (Task ι)
  | .statement _ text => s.statementTask expanding text
  | .block _ prelude nodes => s.blockTask context prelude nodes
  | .imported _ reference nodes => .ok (.imported reference nodes)

end Scope

/-! ## Bodies -/

/-- How many mixins can be expanded inside each other. -/
def maxExpansions : Nat := 256

/-- How the nodes of a body are evaluated: in a scope, for the selectors of a
context, and with output or without.  The result says whether anything is declared
for the context. -/
abbrev BodyEval (ι : Type) := Scope ι → List (Node ι) → List Text → Bool → Eval ι Bool

section Bodies

variable {ι : Type} (body : BodyEval ι)

/-- A rule set with given selectors: its place, and its body. -/
def evalRuleset (s : Scope ι) (selectors : List Text) (nodes : List (Node ι)) (output : Bool) :
    Eval ι Unit := do
  let before ← get
  modify fun p => { p with places := p.places.push none }
  let declares ← body (s.enter nodes) nodes selectors output
  if declares && output && ! selectors.isEmpty then
    modify fun p =>
      { p with places := p.places.setIfInBounds before.places.size (some ⟨selectors⟩) }

def evalExpansion (s : Scope ι) (call : Call) (a : Arguments) (context : List Text) (output : Bool)
    (c : Candidate ι) : Eval ι Bool := do
  let p ← get
  if maxExpansions ≤ p.expanding.length then
    throw (.error (.mixinRecursion call.text maxExpansions))
  else
    Eval.whileExpanding c.definition.tag (body (c.scope s a) c.definition.body context output)

/-- Whether any of the candidates declares something; all are expanded, in order. -/
def evalExpansions (s : Scope ι) (call : Call) (a : Arguments) (context : List Text)
    (output : Bool) : List (Candidate ι) → Eval ι Bool
  | [] => pure false
  | c :: rest => do
    let here ← evalExpansion body s call a context output c
    let others ← evalExpansions s call a context output rest
    return here || others

/-- What a node asks for, done. -/
def evalTask (s : Scope ι) (context : List Text) (output : Bool) : Task ι → Eval ι Bool
  | .none declares => pure declares
  | .ruleset selectors nodes => do
    evalRuleset body s selectors nodes output
    return false
  | .imported reference nodes => body s nodes context (output && ! reference)
  | .detached nodes => body (s.enter nodes) nodes context output
  | .expansions call a cs => evalExpansions body s call a context output cs

variable [DecidableEq ι]

/-- A node of a body. -/
def evalNode (s : Scope ι) (context : List Text) (output : Bool) (n : Node ι) : Eval ι Bool := do
  let p ← get
  let t ← Eval.ofExcept (s.task p.expanding context n)
  evalTask body s context output t

/-- The nodes of a body, in order. -/
def evalNodes (s : Scope ι) (context : List Text) (output : Bool) : List (Node ι) → Eval ι Bool
  | [] => pure false
  | n :: rest => do
    let here ← evalNode body s context output n
    let others ← evalNodes s context output rest
    return here || others

end Bodies

/-- The evaluation of a body to a depth. -/
def evalBody {ι : Type} [DecidableEq ι] : Nat → BodyEval ι
  | 0, _, _, _, _ => throw .unfinished
  | depth + 1, s, nodes, context, output => evalNodes (evalBody depth) s context output nodes

/-- The result of evaluating the nodes of a style sheet to a depth, and how far the
evaluation has come. -/
def runWithin {ι : Type} [DecidableEq ι] (depth : Nat) (nodes : List (Node ι)) :
    Except Halt Bool × Progress ι :=
  (evalBody depth (Scope.enter [] nodes) nodes [] true).runFrom ⟨#[], []⟩

/-- The rule sets of a style sheet, evaluated to a depth. -/
def evaluateWithin {ι : Type} [DecidableEq ι] (depth : Nat) (nodes : List (Node ι)) :
    Except Halt Stylesheet :=
  let (result, progress) := runWithin depth nodes
  result.map fun _ => progress.places.toList.reduceOption

end StyleTypings.Less
