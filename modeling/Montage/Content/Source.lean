import Montage.Content.Query
import Montage.Scratch
import Montage.Log.Basic

/-!
# Content sources

A content source finds media for a query. It puts what it finds into the scratch directory of the
run, or says where it is. How a source behaves may depend on the number of the request, so that any
behaviour in one run is that of some source.
-/

namespace Montage

inductive MediaKind where
  | video
  | image
  deriving DecidableEq, Repr

namespace MediaKind

def extensions : MediaKind → List String
  | video => ["mp4", "mov", "mkv", "webm", "m4v"]
  | image => ["jpg", "jpeg", "png", "webp"]

/-- How the names of found files begin. -/
def stem : MediaKind → String
  | video => "stock_video"
  | image => "stock_image"

end MediaKind

structure Request (T : Type) where
  query : String
  kind : MediaKind
  maxDuration : Option T
  orientation : String
  deriving BEq, Repr

/-- What comes of a request: a file, nothing, or a failure. -/
structure Fetched where
  answer : Except Failure (Option Path)
  scratch : Scratch
  files : Files
  log : List Log.Line

structure ContentSource (T : Type) where
  name : String
  /-- The request with this number. -/
  fetch : Nat → Request T → Scratch → Files → Fetched

def ContentSource.nothing {T : Type} : ContentSource T where
  name := "none"
  fetch _ _ scratch files := ⟨.ok none, scratch, files, []⟩

/-- What comes of a search with several queries. -/
structure Search (T : Type) where
  found : Option Path
  scratch : Scratch
  files : Files
  requests : List (Request T)
  log : List Log.Line

namespace ContentSource
variable {T : Type}

def origin : String := "cf_pipeline::source"

/-- A search with queries in order. A source that fails has found nothing for that query. -/
def searchFrom (source : ContentSource T) (template : Request T) (asked : Nat) (scratch : Scratch)
    (files : Files) : List String → Search T
  | [] => ⟨none, scratch, files, [], []⟩
  | query :: queries =>
    let request := { template with query }
    let reply := source.fetch asked request scratch files
    match reply.answer with
    | .ok (some p) =>
      { found := some p
        scratch := reply.scratch
        files := reply.files
        requests := [request]
        log := reply.log ++
          [⟨.info, origin, source.name ++ " found '" ++ query ++ "': " ++ p.text⟩] }
    | .ok none =>
      let rest := source.searchFrom template (asked + 1) reply.scratch reply.files queries
      { rest with
        requests := request :: rest.requests
        log := reply.log ++
          ⟨.debug, origin, source.name ++ " has nothing for '" ++ query ++ "'"⟩ :: rest.log }
    | .error e =>
      let rest := source.searchFrom template (asked + 1) reply.scratch reply.files queries
      { rest with
        requests := request :: rest.requests
        log := reply.log ++
          ⟨.warn, origin, source.name ++ " failed for '" ++ query ++ "': " ++ e.message⟩ ::
            rest.log }

/-- A search with the query of a request and with all that may stand in for it. -/
def search (source : ContentSource T) (template : Request T) (alternatives : List String)
    (asked : Nat) (scratch : Scratch) (files : Files) : Search T :=
  let queries := Query.all template.query alternatives
  if queries.isEmpty then
    ⟨none, scratch, files, [], [⟨.warn, origin, "Fetch has no usable query"⟩]⟩
  else
    let result := source.searchFrom template asked scratch files queries
    match result.found with
    | some _ => result
    | none =>
      let names := ", ".intercalate (queries.map fun q => "'" ++ q ++ "'")
      { result with
        log := result.log ++ [⟨.warn, origin, "No content found for any of: " ++ names⟩] }

end ContentSource

end Montage
