import Montage.Files.Basic

/-!
# Failures

The classes of failure that a run keeps apart: a tool that ran and failed, a name that never
resolved, and an input for which no content was found. Positions of tasks count from one.
-/

namespace Montage

inductive Failure where
  /-- Settings, a transcript or an input that cannot be used. -/
  | validation (message : String)
  /-- A document that is no list of tasks. -/
  | plan (message : String)
  | io (e : IoError)
  /-- A program that could not be run, failed, or took too long. -/
  | tool (tool message : String)
  /-- A known operation that failed. -/
  | execution (step : String) (position : Nat) (message : String)
  /-- A name that stands for nothing when its task is reached. -/
  | unresolved (step : String) (position : Nat) (name : String) (available : List String)
  /-- A name whose content was never found. -/
  | blocked (step : String) (position : Nat) (name : String)
  | internal (message : String)
  deriving DecidableEq, Repr

namespace Failure

/-- A task as it is named in a failure. -/
def site (step : String) (position : Nat) : String :=
  "[" ++ step ++ " #" ++ toString position ++ "]: "

def message : Failure → String
  | .validation m => "Validation error: " ++ m
  | .plan m => "Plan error: " ++ m
  | .io e => "IO error: " ++ e.message
  | .tool label m => "Tool error [" ++ label ++ "]: " ++ m
  | .execution step position m => "Execution error " ++ site step position ++ m
  | .unresolved step position name available =>
    "Unresolved reference " ++ site step position ++ "'" ++ name ++ "' not found (available: " ++
      ", ".intercalate available ++ ")"
  | .blocked step position name =>
    "Blocked " ++ site step position ++ "no content was found for '" ++ name ++ "'"
  | .internal m => "Internal error: " ++ m

def position? : Failure → Option Nat
  | .execution _ position _ => some position
  | .unresolved _ position _ _ => some position
  | .blocked _ position _ => some position
  | _ => none

/-- The failure that this one was made of, if it is a failure of an operation on files. -/
def cause? : Failure → Option IoError
  | .io e => some e
  | _ => none

end Failure

end Montage
