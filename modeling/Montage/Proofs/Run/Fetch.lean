import Mathlib.Tactic.SplitIfs
import Montage.Run.Basic

/-!
# What a fetch can come to

A task that asks for no content is left alone, and so is one whose file would have no name. For the
others the content source is searched: with nothing found the name is blocked, and otherwise it is
published, and a file of the scratch directory has to be removed. These three are all there is, and
what holds of a fetch is read off them.
-/

namespace Montage

namespace Setup
variable {T : Type} {t : Task T} {s : RunState T}

theorem isSome_requestOf? (t : Task T) : (requestOf? t).isSome = t.isFetch := by
  obtain ⟨op, output, inputs⟩ := t
  cases op <;> rfl

/-- Behind a search. -/
def searched (search : Search T) (s : RunState T) : RunState T :=
  { s with
    scratch := search.scratch
    files := search.files
    asked := s.asked + search.requests.length }.note
      (search.requests.map Event.asked ++ search.log.map Event.reported)

/-- With a name for what was found. -/
def named (name : String) (p : Path) (s : RunState T) : RunState T :=
  (if p.isUnder s.scratch.dir then { s with registry := s.registry.track p } else s).publish
    (some name) p .sideArtifact

theorem named_eq (name : String) (p : Path) (s : RunState T) :
    named name p s = { s with
      registry := (if p.isUnder s.scratch.dir then s.registry.track p else s.registry).publish
        (some name) p .sideArtifact } := by
  unfold named
  split_ifs
  · rfl
  · rfl

theorem fetch_eq (su : Setup T) {request : Request T} {alternatives : List String}
    {name : String} (hrequest : requestOf? t = some (request, alternatives))
    (houtput : t.output = some name) (s : RunState T) :
    su.fetch t s =
      let search := su.content.search request alternatives s.asked s.scratch s.files
      match search.found with
      | some p => (named name p (searched search s), .done)
      | none => ({ searched search s with registry := s.registry.block name },
          .skipped ("no content found, '" ++ name ++ "' is blocked")) := by
  unfold fetch
  rw [hrequest, houtput]
  dsimp only
  generalize su.content.search request alternatives s.asked s.scratch s.files = search
  cases search.found with
  | some p => rfl
  | none => rfl

/-- What is asked for a task, for which name, and what the search for it comes to. -/
structure Seeks (su : Setup T) (t : Task T) (s : RunState T) (request : Request T)
    (alternatives : List String) (name : String) (search : Search T) : Prop where
  asked : requestOf? t = some (request, alternatives)
  output : t.output = some name
  search : su.content.search request alternatives s.asked s.scratch s.files = search

theorem Seeks.isFetch {su : Setup T} {request : Request T} {alternatives : List String}
    {name : String} {search : Search T} (h : su.Seeks t s request alternatives name search) :
    t.isFetch = true := by
  rw [← isSome_requestOf?, h.asked, Option.isSome_some]

/-- What a fetch can come to, and the state that it leaves then. -/
inductive Sought (su : Setup T) (t : Task T) (s : RunState T) : RunState T → Outcome → Prop
  | aside {reason : String} (h : t.isFetch = false ∨ t.output = none) :
      Sought su t s s (.skipped reason)
  | missed {request : Request T} {alternatives : List String} {name : String} {search : Search T}
      (h : Seeks su t s request alternatives name search) (hfound : search.found = none) :
      Sought su t s { searched search s with registry := s.registry.block name }
        (.skipped ("no content found, '" ++ name ++ "' is blocked"))
  | found {request : Request T} {alternatives : List String} {name : String} {search : Search T}
      {p : Path} {r : Registry} (h : Seeks su t s request alternatives name search)
      (hfound : search.found = some p)
      (hr : r = if p.isUnder search.scratch.dir then s.registry.track p else s.registry) :
      Sought su t s { searched search s with registry := r.publish (some name) p .sideArtifact }
        .done

/-- It comes to one of these. -/
theorem sought (su : Setup T) (t : Task T) (s : RunState T) :
    Sought su t s (su.fetch t s).1 (su.fetch t s).2 := by
  cases hrequest : requestOf? t with
  | none =>
    have hfetch : t.isFetch = false := by rw [← isSome_requestOf?, hrequest, Option.isSome_none]
    unfold fetch
    rw [hrequest]
    exact .aside (.inl hfetch)
  | some asked =>
    obtain ⟨request, alternatives⟩ := asked
    cases houtput : t.output with
    | none =>
      unfold fetch
      rw [hrequest, houtput]
      exact .aside (.inr houtput)
    | some name =>
      rw [su.fetch_eq hrequest houtput]
      dsimp only
      generalize hsearch : su.content.search request alternatives s.asked s.scratch s.files = search
      have h : Seeks su t s request alternatives name search := ⟨hrequest, houtput, hsearch⟩
      cases hfound : search.found with
      | none => exact .missed h hfound
      | some p =>
        dsimp only
        rw [named_eq]
        exact .found h hfound rfl

end Setup

end Montage
