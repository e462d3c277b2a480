import Montage.Log.Directive

/-!
# Log filters

A filter says which log lines are shown. It is written as directives between commas. Of the
directives that concern a line, the one that asks for most decides.
-/

namespace Montage.Log

structure Filter where
  directives : List Directive

namespace Filter

def parts (s : String) : List String := (Text.splitAt ',' s).filter (· ≠ "")

/-- The filter of a text. What is no directive is passed over; where there is none, only errors are
shown. -/
def ofText (s : String) : Filter :=
  match (parts s).filterMap fun d => (Directive.ofText d).toOption with
  | [] => ⟨[{ Directive.ofOrigin "" with threshold := some .error }]⟩
  | ds => ⟨ds⟩

/-- What is said about the texts that are passed over. -/
def complaints (s : String) : List String :=
  (parts s).filterMap fun d => match Directive.ofText d with
    | .error e => some ("ignoring `" ++ d ++ "`: " ++ e.message)
    | .ok _ => none

/-- Of the directives for a line, the last of those that no other outdoes. -/
def directiveFor? (f : Filter) (l : Line) : Option Directive :=
  f.directives.foldl (fun best d =>
    if d.concerns l && !best.any (·.outdoes d) then some d else best) none

def shows (f : Filter) (l : Line) : Bool :=
  (f.directiveFor? l).any fun d => d.threshold.shows l.level

end Filter

end Montage.Log
