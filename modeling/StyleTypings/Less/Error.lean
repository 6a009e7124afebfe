/-
Errors of style sheets — why a style sheet has no rule sets.

An error is a cause; its wording is the one function `message`.  A compilation
can also come to no end, since a detached rule set may call itself and a file may
load itself again and again.  Both are bounded by a depth, and running out of depth
is kept apart from the errors, as `Halt.unfinished`.
-/
import StyleTypings.Files.Disk

namespace StyleTypings.Less

/-- What is wrong with the text of a style sheet. -/
inductive Fault where
  | unterminatedString
  | unterminatedComment
  | unterminatedInterpolation
  | missingParenthesis
  | missingBrace
  | unexpectedBrace
  | malformedImport
deriving DecidableEq, Repr

/-- The wording of a fault. -/
def Fault.message : Fault → Text
  | .unterminatedString => ("unterminated string" : Text)
  | .unterminatedComment => ("unterminated block comment" : Text)
  | .unterminatedInterpolation => ("unterminated interpolation" : Text)
  | .missingParenthesis => ("missing closing ')'" : Text)
  | .missingBrace => ("missing closing '\x7d'" : Text)
  | .unexpectedBrace => ("unexpected '\x7d'" : Text)
  | .malformedImport => ("malformed @import" : Text)

/-- A fault with the line it is reported at. -/
structure Flaw where
  line : Nat
  fault : Fault
deriving DecidableEq, Repr

inductive CompileError where
  /-- A file cannot be read. -/
  | io (path : Path) (error : FileError)
  | malformed (path : Path) (flaw : Flaw)
  /-- An import leads to no file. -/
  | missingImport (importer : Path) (specifier : Text) (resolved : Path)
  | undefinedVariable (name : Text)
  | undefinedMixin (call : Text)
  /-- There are definitions, but none takes the arguments. -/
  | noMatchingMixin (call : Text)
  | mixinRecursion (call : Text) (limit : Nat)
  | unsupportedGuard (guard : Text)
  | invalidOperation (operation : Text)
deriving DecidableEq, Repr

/-- The wording of an error. -/
def CompileError.message : CompileError → Text
  | .io path error => ("failed to read " : Text) ++ path.text ++ (": " : Text) ++ error.message
  | .malformed path flaw =>
    path.text ++ [':'] ++ Text.ofNat flaw.line ++ (": " : Text) ++ flaw.fault.message
  | .missingImport importer specifier resolved =>
    importer.text ++ (": '" : Text) ++ specifier ++ ("' wasn't found (tried " : Text) ++
      resolved.text ++ [')']
  | .undefinedVariable name => ("variable @" : Text) ++ name ++ (" is undefined" : Text)
  | .undefinedMixin call => call ++ (" is undefined" : Text)
  | .noMatchingMixin call => ("no matching definition was found for " : Text) ++ call
  | .mixinRecursion call limit =>
    call ++ (" nests more than " : Text) ++ Text.ofNat limit ++ (" mixin calls" : Text)
  | .unsupportedGuard guard => ("guard 'when " : Text) ++ guard ++ ("' can't be evaluated" : Text)
  | .invalidOperation operation => ("operation on an invalid type: " : Text) ++ operation

/-- What stands behind an error: the reason why a file cannot be read. -/
def CompileError.source? : CompileError → Option Text
  | .io _ error => some error.message
  | _ => none

/-- Why a compilation stops without a result. -/
inductive Halt where
  | error (e : CompileError)
  /-- The allowed depth is used up. -/
  | unfinished
deriving DecidableEq, Repr

instance : Coe CompileError Halt := ⟨.error⟩

/-- The wording of a halt, with what stands behind it. -/
def Halt.message : Halt → Text
  | .error e =>
    match e.source? with
    | some reason => e.message ++ (": " : Text) ++ reason
    | none => e.message
  | .unfinished => ("the style sheet does not come to an end" : Text)

end StyleTypings.Less
