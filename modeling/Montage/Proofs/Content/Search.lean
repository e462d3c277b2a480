import Montage.Content.Source
import Montage.Proofs.Content.Query

/-!
# Searches

A search asks a content source for one query after the other until there is a file. What the source
replies may depend on what it was asked before, and on the scratch directory and the files that it
left, so the replies to several queries are taken one behind the other. Main statement: whatever the
source does, a search asks it for a beginning of what there is to try, up to the first reply with a
file, and comes to nothing exactly if no query would be replied to with a file.
-/

namespace Montage

/-- The file that is found, if there is one. -/
def Fetched.found? (reply : Fetched) : Option Path := reply.answer.toOption.join

theorem Fetched.found?_eq_some {reply : Fetched} {p : Path} :
    reply.found? = some p ↔ reply.answer = .ok (some p) := by
  unfold found?
  cases reply.answer with
  | error e => simp [Except.toOption]
  | ok found => simp [Except.toOption]

namespace ContentSource
variable {T : Type} (source : ContentSource T) (template : Request T)

/-! ## One request of a search -/

section
variable {source template} {asked : Nat} {scratch : Scratch} {files : Files} {query : String}

/-- With nothing found for a query, the search goes on. -/
theorem searchFrom_cons_of_misses (queries : List String)
    (h : (source.fetch asked { template with query } scratch files).found? = none) :
    let reply := source.fetch asked { template with query } scratch files
    let rest := source.searchFrom template (asked + 1) reply.scratch reply.files queries
    let search := source.searchFrom template asked scratch files (query :: queries)
    search.found = rest.found ∧ search.scratch = rest.scratch ∧ search.files = rest.files ∧
      search.requests = { template with query } :: rest.requests := by
  intro reply rest search
  simp only [search, searchFrom]
  split
  · rename_i p hanswer
    rw [Fetched.found?, hanswer] at h
    exact absurd h (by simp [Except.toOption])
  · exact ⟨rfl, rfl, rfl, rfl⟩
  · exact ⟨rfl, rfl, rfl, rfl⟩

/-- What is found for a query ends the search. -/
theorem searchFrom_cons_of_gives (queries : List String) {p : Path}
    (h : (source.fetch asked { template with query } scratch files).found? = some p) :
    let reply := source.fetch asked { template with query } scratch files
    let search := source.searchFrom template asked scratch files (query :: queries)
    search.found = some p ∧ search.scratch = reply.scratch ∧ search.files = reply.files ∧
      search.requests = [{ template with query }] := by
  intro reply search
  simp only [search, searchFrom]
  rw [Fetched.found?_eq_some.mp h]
  exact ⟨rfl, rfl, rfl, rfl⟩

end

/-- What a search finds, and where it leaves off, does not depend on what it reports. -/
theorem search_eq (alternatives : List String) (asked : Nat) (scratch : Scratch) (files : Files) :
    let search := source.search template alternatives asked scratch files
    let result :=
      source.searchFrom template asked scratch files (Query.all template.query alternatives)
    search.found = result.found ∧ search.scratch = result.scratch ∧
      search.files = result.files ∧ search.requests = result.requests := by
  unfold ContentSource.search
  dsimp only
  by_cases hempty : (Query.all template.query alternatives).isEmpty = true
  · rw [if_pos hempty, List.isEmpty_iff.mp hempty]
    exact ⟨rfl, rfl, rfl, rfl⟩
  · rw [if_neg hempty]
    generalize source.searchFrom template asked scratch files
      (Query.all template.query alternatives) = result
    split
    · exact ⟨rfl, rfl, rfl, rfl⟩
    · exact ⟨rfl, rfl, rfl, rfl⟩

/-! ## The replies to queries -/

/-- The replies to queries in turn, each from where the reply before left off. -/
def replies (asked : Nat) (scratch : Scratch) (files : Files) : List String → List Fetched
  | [] => []
  | query :: queries =>
    let reply := source.fetch asked { template with query } scratch files
    reply :: replies (asked + 1) reply.scratch reply.files queries

/-- What a search of some queries comes to when these are `tried`. -/
structure Asks (asked : Nat) (scratch : Scratch) (files : Files) (queries tried : List String)
    (search : Search T) : Prop where
  isPrefix : tried <+: queries
  requests : search.requests = tried.map fun query => { template with query }
  /-- There is no file but in the last reply. -/
  misses : ∀ reply ∈ (source.replies template asked scratch files tried).dropLast,
    reply.found? = none
  found : search.found =
    (source.replies template asked scratch files tried).getLast?.bind Fetched.found?
  exhausted : search.found = none → tried = queries
  /-- The last request is the last thing that the source does. -/
  leaves : (search.scratch, search.files) =
    ((source.replies template asked scratch files tried).getLast?.map
      fun reply => (reply.scratch, reply.files)).getD (scratch, files)

namespace Asks
variable {source template} {asked : Nat} {scratch : Scratch} {files : Files} {query : String}
  {queries tried : List String}

/-- With a file, nothing else is asked. -/
theorem of_gives {p : Path} (queries : List String)
    (hreply : (source.fetch asked { template with query } scratch files).found? = some p) :
    source.Asks template asked scratch files (query :: queries) [query]
      (source.searchFrom template asked scratch files (query :: queries)) := by
  obtain ⟨hfound, hscratch, hfiles, hrequests⟩ := searchFrom_cons_of_gives queries hreply
  refine ⟨⟨queries, rfl⟩, hrequests, by simp [replies], ?_, ?_, ?_⟩
  · rw [hfound]
    exact hreply.symm
  · rw [hfound]
    exact nofun
  · rw [hscratch, hfiles]
    rfl

/-- Without one, the rest is asked. -/
theorem of_misses
    (hreply : (source.fetch asked { template with query } scratch files).found? = none)
    (h : let reply := source.fetch asked { template with query } scratch files
      source.Asks template (asked + 1) reply.scratch reply.files queries tried
        (source.searchFrom template (asked + 1) reply.scratch reply.files queries)) :
    source.Asks template asked scratch files (query :: queries) (query :: tried)
      (source.searchFrom template asked scratch files (query :: queries)) := by
  obtain ⟨hfound, hscratch, hfiles, hrequests⟩ := searchFrom_cons_of_misses queries hreply
  obtain ⟨htried, hrest, hmisses, hlast, hexhausted, hleaves⟩ := h
  generalize hreplies : source.replies template (asked + 1) _ _ tried = rest
    at hmisses hlast hleaves
  have hcons : source.replies template asked scratch files (query :: tried) =
      source.fetch asked { template with query } scratch files :: rest := by
    rw [replies, hreplies]
  refine ⟨(List.prefix_cons_inj query).mpr htried, ?_, ?_, ?_, ?_, ?_⟩
  · rw [hrequests, hrest, List.map_cons]
  -- The last reply is the last of the rest, or this one where nothing else is asked.
  · rw [hcons]
    cases rest with
    | nil => exact nofun
    | cons next rest =>
      rw [List.dropLast_cons_cons, List.forall_mem_cons]
      exact ⟨hreply, hmisses⟩
  · rw [hfound, hlast, hcons, List.getLast?_cons]
    cases rest.getLast? with
    | none => exact hreply.symm
    | some last => rfl
  · rw [hfound]
    exact fun hnone => congrArg _ (hexhausted hnone)
  · rw [hscratch, hfiles, hleaves, hcons, List.getLast?_cons]
    cases rest.getLast? with
    | none => rfl
    | some last => rfl

/-- What is reported makes no difference. -/
theorem congr {result search : Search T}
    (h : source.Asks template asked scratch files queries tried result)
    (hfound : search.found = result.found) (hscratch : search.scratch = result.scratch)
    (hfiles : search.files = result.files) (hrequests : search.requests = result.requests) :
    source.Asks template asked scratch files queries tried search := by
  refine ⟨h.isPrefix, ?_, h.misses, ?_, ?_, ?_⟩
  · rw [hrequests, h.requests]
  · rw [hfound, h.found]
  · rw [hfound]
    exact h.exhausted
  · rw [hscratch, hfiles, h.leaves]

end Asks

theorem searchFrom_asks (asked : Nat) (scratch : Scratch) (files : Files) (queries : List String) :
    ∃ tried, source.Asks template asked scratch files queries tried
      (source.searchFrom template asked scratch files queries) := by
  induction queries generalizing asked scratch files with
  | nil => exact ⟨[], List.prefix_rfl, rfl, by simp [replies], rfl, fun _ => rfl, rfl⟩
  | cons query queries ih =>
    cases hreply : (source.fetch asked { template with query } scratch files).found? with
    | some p => exact ⟨[query], .of_gives queries hreply⟩
    | none =>
      obtain ⟨tried, h⟩ := ih (asked + 1) _ _
      exact ⟨query :: tried, .of_misses hreply h⟩

/-- A search finds the first file that there is for a query. -/
theorem found_searchFrom (asked : Nat) (scratch : Scratch) (files : Files) (queries : List String) :
    (source.searchFrom template asked scratch files queries).found =
      (source.replies template asked scratch files queries).findSome? Fetched.found? := by
  induction queries generalizing asked scratch files with
  | nil => rfl
  | cons query queries ih =>
    rw [replies, List.findSome?_cons]
    cases hreply : (source.fetch asked { template with query } scratch files).found? with
    | some p => exact (searchFrom_cons_of_gives queries hreply).1
    | none => exact (searchFrom_cons_of_misses queries hreply).1.trans (ih ..)

/-- A search tries the query, the alternatives and the shortened forms, and asks for a beginning of
these, each once, up to the first file. -/
theorem search_asks (alternatives : List String) (asked : Nat) (scratch : Scratch)
    (files : Files) :
    let queries := Query.all template.query alternatives
    let search := source.search template alternatives asked scratch files
    Query.Tries template.query alternatives queries ∧
      (∃ tried, source.Asks template asked scratch files queries tried search ∧ tried.Nodup) ∧
      (search.found = none ↔
        ∀ reply ∈ source.replies template asked scratch files queries, reply.found? = none) := by
  intro queries search
  obtain ⟨hfound, hscratch, hfiles, hrequests⟩ :=
    source.search_eq template alternatives asked scratch files
  have htries := Query.tries_all template.query alternatives
  obtain ⟨tried, h⟩ := source.searchFrom_asks template asked scratch files queries
  refine ⟨htries, ⟨tried, h.congr hfound hscratch hfiles hrequests, ?_⟩, ?_⟩
  · exact htries.nodup.sublist h.isPrefix.sublist
  · rw [hfound, found_searchFrom, List.findSome?_eq_none_iff]

end ContentSource

end Montage
