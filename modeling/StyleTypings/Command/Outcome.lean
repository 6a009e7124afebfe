/-
Outcomes — what a run has done with each file.
-/
import StyleTypings.Files.Path

namespace StyleTypings

/-- What has become of one style sheet. -/
inductive Outcome where
  /-- Its declarations have been written. -/
  | generated (output : Path)
  /-- It has no classes, so nothing has been written. -/
  | noClassNames
  /-- Its declarations are as they should be. -/
  | upToDate (output : Path)
  /-- Its declarations are missing or not as they should be. -/
  | different (output : Path)
  /-- It is gone, and so are its declarations. -/
  | removed (output : Path)
  | failed (message : Text)
deriving DecidableEq, Repr

/-- What has become of a style sheet, and the warnings about it. -/
structure FileReport where
  file : Path
  outcome : Outcome
  warnings : List Text
deriving DecidableEq, Repr

namespace FileReport

/-- Whether the file could not be processed. -/
def isFailure (r : FileReport) : Bool :=
  match r.outcome with
  | .failed _ => true
  | _ => false

/-- Whether the declarations are not as they should be. -/
def isDifferent (r : FileReport) : Bool :=
  match r.outcome with
  | .different _ => true
  | _ => false

end FileReport

/-- What a run has done. -/
structure Summary where
  pattern : Text
  files : List FileReport
  ignored : Nat
  skipped : Nat
  /-- Whether declarations have been checked and not written. -/
  listDifferent : Bool
deriving DecidableEq, Repr

namespace Summary

/-- How many files could not be processed. -/
def failures (s : Summary) : Nat := s.files.countP (·.isFailure)

/-- How many files have declarations that are not as they should be. -/
def differences (s : Summary) : Nat := s.files.countP (·.isDifferent)

/-- Whether everything is as it should be. -/
def succeeds (s : Summary) : Bool := s.failures == 0 && s.differences == 0

end Summary

end StyleTypings
