/-
Compilation — the rule sets of a file.

A style sheet is loaded with all it imports and then evaluated.  Errors of loading
therefore come before errors of evaluation, wherever they stand.

Loading and evaluation are given a depth that style sheets do not reach unless they
never end.  It is a large number, and no bound that is computed from them: a chain of
imports may go through longer and longer spellings of one path until the system
refuses them, and what a body comes to depends on guards.
-/
import StyleTypings.Less.Import
import StyleTypings.Less.Evaluation

namespace StyleTypings.Less

def importDepth : Nat := 10000

/-- The depth to which bodies are evaluated. -/
def evaluationDepth : Nat := 10000

/-- The rule sets of a style sheet that has been loaded. -/
def evaluate (nodes : List (Node Nat)) : Except Halt Stylesheet :=
  evaluateWithin evaluationDepth (numbered nodes)

def loadFile (disk : Disk) (path : Path) : Except Halt (List (Node Nat)) :=
  ((load disk importDepth path).run []).map (·.1)

/-- The nodes of a text taken for the content of a file, with all it imports. -/
def loadSource (disk : Disk) (source : Text) (path : Path) : Except Halt (List (Node Nat)) :=
  ((loadText disk (load disk importDepth) source path).run []).map (·.1)

/-- The rule sets of a file. -/
def compile (disk : Disk) (path : Path) : Except Halt Stylesheet := do
  evaluate (← loadFile disk path)

/-- The rule sets of a text taken for the content of a file. -/
def compileSource (disk : Disk) (source : Text) (path : Path) : Except Halt Stylesheet := do
  evaluate (← loadSource disk source path)

end StyleTypings.Less
