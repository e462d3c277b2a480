import Montage.Text.Blank
import Montage.Text.Alphanumeric
import Montage.Text.Lowercase

/-!
# Queries

A search for media begins with the query of the plan and goes on with its alternatives. Then come
two shortened forms of the query, made of its long words. No query is tried twice.
-/

namespace Montage.Query

/-- The words of a query that are longer than three bytes. -/
def longWords (query : String) : List String :=
  (Text.words query).filter fun w => 3 < w.utf8ByteSize

/-- Two long words of a query of three or more, then one of a query of two or more. -/
def shortened (query : String) : List String :=
  match longWords query with
  | a :: b :: rest => (if rest.isEmpty then [] else [a ++ " " ++ b]) ++ [a]
  | _ => []

/-- Each text where it comes first. -/
def distinct (seen : List String) : List String → List String
  | [] => []
  | s :: ss => if seen.contains s then distinct seen ss else s :: distinct (s :: seen) ss

def all (query : String) (alternatives : List String) : List String :=
  let query := Text.trim query
  distinct [] ((query :: alternatives.map Text.trim).filter (· ≠ "") ++ shortened query)

/-- The words by which files are found: runs of letters and digits of more than one byte, in small
letters. -/
def words (s : String) : List String :=
  ((Text.Chars.split (fun c => !Text.isAlphanumeric c) s.toList).map String.ofList).filter
      (fun w => 1 < w.utf8ByteSize)
    |>.map Text.lowercase

/-- A query as a part of a file name. -/
def slug (query : String) : String :=
  let cs := (Text.trim query).toList.map fun c => if Text.isAlphanumeric c then c else '_'
  String.ofList (cs.take 30)

end Montage.Query
