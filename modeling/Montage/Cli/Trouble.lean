import Montage.Failure

/-!
# Trouble

A command that fails says what it could not do, and then why: a chain of messages, each the cause of
the one before.
-/

namespace Montage

structure Trouble where
  message : String
  /-- Each the cause of the one before. -/
  causes : List String

namespace Trouble

def ofMessage (message : String) : Trouble := ⟨message, []⟩

/-- A failure, with the failed operation on files as its cause if it was one. -/
def ofFailure (e : Failure) : Trouble := ⟨e.message, e.cause?.toList.map IoError.message⟩

/-- What could not be done because of this. -/
def within (message : String) (t : Trouble) : Trouble := ⟨message, t.message :: t.causes⟩

/-- With further lines of a message moved in. -/
def indented (blanks : Nat) (s : String) : String :=
  ("\n" ++ String.ofList (List.replicate blanks ' ')).intercalate (Text.splitAt '\n' s)

/-- Causes with numbers from `n` on. -/
def numbered (n : Nat) : List String → List String
  | [] => []
  | s :: ss => ("    " ++ toString n ++ ": " ++ indented 7 s) :: numbered (n + 1) ss

/-- What is said of the trouble. A single cause needs no number. -/
def text (t : Trouble) : String :=
  "Error: " ++ t.message ++
    (match t.causes with
      | [] => ""
      | [cause] => "\n\nCaused by:\n    " ++ indented 4 cause
      | causes => "\n\nCaused by:\n" ++ "\n".intercalate (numbered 0 causes)) ++
    "\n"

end Trouble

end Montage
