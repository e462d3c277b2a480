import Montage.Proofs.Content.Search
import Montage.Proofs.Run.Abreast
import Montage.Proofs.Run.Told

/-!
# Fetches abreast

A content source answers by a function of the request if the request alone decides what is found:
nothing, a file that is put into the scratch directory, or one that is elsewhere or is put there.
Then a fetch that is completed in one of two runs abreast is completed in the other as well, with
alike files, and one that is passed over in the first leaves them abreast.
-/

namespace Montage

/-- What a content source has for a request. -/
inductive Find where
  | nothing
  /-- Put at the next path of the scratch directory. -/
  | copied (stem extension : String) (bytes : ByteArray)
  /-- At a path outside, and put there if these are bytes. -/
  | elsewhere (p : Path) (bytes? : Option ByteArray)

namespace Find

/-- How many paths are taken for it. -/
def taken : Find → Nat
  | copied .. => 1
  | _ => 0

/-- It lies where the content source may put it. -/
def Lies (g : Ground) : Find → Prop
  | nothing => True
  | copied stem extension _ => '/' ∉ stem.toList ∧ Scratch.Plain extension
  | elsewhere p bytes? => ¬ g.own (p.lands g.start.here) ∧
      (bytes?.isSome = true → g.changed (p.lands g.start.here))

/-- With the file put where it is found. -/
def put (fs : Files) (p : Path) : Option ByteArray → Except IoError Files
  | some bytes => fs.write p bytes
  | none => .ok fs

/-- The reply with nothing found. -/
def Misses (fs : Files) (reply : Fetched) : Prop :=
  reply.answer.toOption.join = none ∧ reply.files = fs

/-- The reply with a file found. -/
def Gives (out : Files) (p : Path) (reply : Fetched) : Prop :=
  reply.answer = .ok (some p) ∧ reply.files = out

/-- The reply of a content source to a request that comes to this, from a scratch directory and
files. -/
def Describes (find : Find) (s : Scratch) (fs : Files) (reply : Fetched) : Prop :=
  match find with
  | nothing => Misses fs reply
  | copied stem extension bytes => ∃ out, fs.write (s.next stem extension) bytes = .ok out ∧
      Gives out (s.next stem extension) reply
  | elsewhere p bytes? => match put fs p bytes? with
    | .ok out => Gives out p reply
    | .error _ => Misses fs reply

end Find

/-- A content source answers by a function of the request, as long as no more than `limit` paths are
given out. It may take paths that it leaves empty: `spare` for a request. -/
def ContentSource.Answers {T : Type} (content : ContentSource T) (answer : Request T → Find)
    (spare : Request T → Nat) (g : Ground) (limit : Nat) : Prop :=
  ∀ (n : Nat) (request : Request T) (s : Scratch) (fs : Files), g.scratch.Later s →
    (answer request).Lies g ∧
    (content.fetch n request s fs).scratch =
      { s with issued := s.issued + spare request + (answer request).taken } ∧
    (Scratch.Underway g.scratch g.changed g.start s fs →
      s.issued + spare request + (answer request).taken ≤ limit →
      (answer request).Describes { s with issued := s.issued + spare request } fs
        (content.fetch n request s fs))

namespace ContentSource
variable {T : Type} {content : ContentSource T} {answer : Request T → Find}
  {spare : Request T → Nat} {g : Ground} {limit : Nat}

/-- A search leaves off where the first request does, or where the rest of it does. -/
theorem searchFrom_cons_scratch (content : ContentSource T) (template : Request T) (asked : Nat)
    (s : Scratch) (fs : Files) (query : String) (queries : List String) :
    let reply := content.fetch asked { template with query } s fs
    let search := content.searchFrom template asked s fs (query :: queries)
    search.scratch = reply.scratch ∨ search.scratch =
      (content.searchFrom template (asked + 1) reply.scratch reply.files queries).scratch := by
  dsimp only [ContentSource.searchFrom]
  split
  · exact .inl rfl
  · exact .inr rfl
  · exact .inr rfl

namespace Answers

theorem later_fetch (h : content.Answers answer spare g limit) (asked : Nat) (request : Request T)
    {s : Scratch} (fs : Files) (hs : g.scratch.Later s) :
    s.Later (content.fetch asked request s fs).scratch := by
  obtain ⟨-, hscratch, -⟩ := h asked request s fs hs
  rw [hscratch]
  exact ⟨rfl, rfl, by dsimp only; omega⟩

/-- A search gives no path back. -/
theorem later_searchFrom (h : content.Answers answer spare g limit) (template : Request T)
    (asked : Nat) {s : Scratch} (fs : Files) (hs : g.scratch.Later s) (queries : List String) :
    s.Later (content.searchFrom template asked s fs queries).scratch := by
  induction queries generalizing asked s fs with
  | nil => exact .refl s
  | cons query queries ih =>
    have hlater := h.later_fetch asked { template with query } fs hs
    rcases content.searchFrom_cons_scratch template asked s fs query queries with heq | heq
    · rw [heq]
      exact hlater
    · rw [heq]
      exact hlater.trans (ih (asked + 1) _ (hs.trans hlater))

theorem later_searchFrom_cons (h : content.Answers answer spare g limit) (template : Request T)
    (asked : Nat) {s : Scratch} (fs : Files) (hs : g.scratch.Later s) (query : String)
    (queries : List String) :
    (content.fetch asked { template with query } s fs).scratch.Later
      (content.searchFrom template asked s fs (query :: queries)).scratch := by
  rcases content.searchFrom_cons_scratch template asked s fs query queries with heq | heq
  · rw [heq]
    exact .refl _
  · rw [heq]
    exact h.later_searchFrom template (asked + 1) _ (hs.trans (h.later_fetch _ _ fs hs)) queries

end Answers

end ContentSource

/-! ## Two runs -/

/-- Two runs on their way: their files agree but at the places of the directory, and the second has
taken no more paths. -/
structure Twins.Level (w : Twins) (s : Scratch) (fs : Files) (s' : Scratch) (fs' : Files) :
    Prop where
  first : Scratch.Underway w.first.scratch w.first.changed w.first.start s fs
  second : Scratch.Underway w.other w.first.changed w.first.start s' fs'
  agree : fs.Agree w.first.own fs'
  issued : s'.issued ≤ s.issued

/-- Something is found in both runs: files that are alike. -/
structure Twins.Found (w : Twins) (s : Scratch) (fs : Files) (s' : Scratch) (fs' : Files)
    (t : Scratch) (out : Files) (t' : Scratch) (out' : Files) (p p' : Path) : Prop where
  goes : Scratch.Goes w.first.scratch w.first.changed w.first.start s fs t out
  goes' : Scratch.Goes w.other w.first.changed w.first.start s' fs' t' out'
  agree : out.Agree w.first.own out'
  issued : t'.issued ≤ t.issued
  alike : w.Alike t out t' out' p p'

namespace Setup
variable {T : Type} {su : Setup T} {t : Task T}

/-- A fetch takes the paths that its search takes. -/
theorem scratch_fetch (su : Setup T) {request : Request T} {alternatives : List String}
    {name : String} (hrequest : requestOf? t = some (request, alternatives))
    (houtput : t.output = some name) (s : RunState T) :
    (su.fetch t s).1.scratch =
      (su.content.search request alternatives s.asked s.scratch s.files).scratch := by
  rw [su.fetch_eq hrequest houtput]
  generalize su.content.search request alternatives s.asked s.scratch s.files = search
  dsimp only
  cases search.found with
  | some p =>
    dsimp only
    rw [named_eq]
    rfl
  | none => rfl

/-- A fetch gives no path back. -/
theorem later_fetch {answer : Request T → Find} {spare : Request T → Nat} {g : Ground} {limit : Nat}
    (h : su.content.Answers answer spare g limit) {s : RunState T}
    (hs : g.scratch.Later s.scratch) (t : Task T) :
    s.scratch.Later (su.fetch t s).1.scratch := by
  have hsought := sought su t s
  generalize su.fetch t s = result at hsought ⊢
  obtain ⟨out, outcome⟩ := result
  have hsearched {request : Request T} {alternatives : List String} {name : String}
      {search : Search T} (hseeks : su.Seeks t s request alternatives name search) :
      s.scratch.Later search.scratch := by
    rw [← hseeks.search, (su.content.search_eq ..).2.1]
    exact h.later_searchFrom request s.asked s.files hs _
  cases hsought with
  | aside _ => exact .refl _
  | missed hseeks _ => exact hsearched hseeks
  | found hseeks _ _ => exact hsearched hseeks

end Setup

/-- A file that is put at the next path. -/
theorem Ground.goes_next {g : Ground} {s : Scratch} {fs out : Files} {stem extension : String}
    (h : Scratch.Underway g.scratch g.changed g.start s fs) (hstem : '/' ∉ stem.toList)
    (hextension : Scratch.Plain extension) {bytes : ByteArray}
    (hwrite : fs.write (s.next stem extension) bytes = .ok out) :
    Scratch.Goes g.scratch g.changed g.start s fs s.advance out ∧ fs.Agree g.own out ∧
      g.scratch.Spent s.advance (s.next stem extension) := by
  have hnext : s.next stem extension = g.scratch.pathAt s.issued stem extension :=
    h.later.pathAt_eq ..
  have hspent : g.scratch.Spent s.advance (s.next stem extension) :=
    ⟨_, stem, extension, h.later.issued, Nat.lt_succ_self _, hstem, hextension, hnext⟩
  have htouch := Files.touches_of_write hwrite
  refine ⟨?_, .of_touches htouch fun q hq => ?_, hspent⟩
  · exact (h.goes (.advance (.refl s))).touch g.digits.hex
      (fun q hq => g.own_changed q (g.owns q hq)) (Nat.le_refl _) (Nat.lt_succ_self _)
      h.later.issued hstem hextension (hnext ▸ htouch)
  · refine g.owns q (Files.lands_of_locate hq ▸ ?_)
    rw [h.here_eq]
    exact hspent.owns g.start.here

namespace Twins
variable {T : Type} {w : Twins} {s s' t t' : Scratch} {fs fs' : Files}

/-- Paths are given out in both. -/
theorem Level.later (h : w.Level s fs s' fs') (ht : s.Later t) (ht' : s'.Later t')
    (hissued : t'.issued ≤ t.issued) : w.Level t fs t' fs' :=
  ⟨(h.first.goes ht).underway, (h.second.goes ht').underway, h.agree, hissued⟩

/-- Paths that were taken before do not matter. -/
theorem Level.found_later (h : w.Level s fs s' fs') (ht : s.Later t) (ht' : s'.Later t')
    {u u' : Scratch} {out out' : Files} {p p' : Path}
    (hfound : w.Found t fs t' fs' u out u' out' p p') :
    w.Found s fs s' fs' u out u' out' p p' :=
  ⟨(h.first.goes ht).trans hfound.goes, (h.second.goes ht').trans hfound.goes', hfound.agree,
    hfound.issued, hfound.alike⟩

/-- A file is put at the next path in both. -/
theorem Level.copied (h : w.Level s fs s' fs') {stem extension : String}
    (hstem : '/' ∉ stem.toList) (hextension : Scratch.Plain extension) {bytes : ByteArray}
    {out out' : Files} (hwrite : fs.write (s.next stem extension) bytes = .ok out)
    (hwrite' : fs'.write (s'.next stem extension) bytes = .ok out') :
    w.Found s fs s' fs' s.advance out s'.advance out' (s.next stem extension)
      (s'.next stem extension) := by
  obtain ⟨hgoes, hown, hspent⟩ := Ground.goes_next h.first hstem hextension hwrite
  obtain ⟨hgoes', hown', hspent'⟩ :=
    Ground.goes_next (g := w.second) h.second hstem hextension hwrite'
  have hread := (Files.readable_of_write hwrite').trans (Files.readable_of_write hwrite).symm
  exact ⟨hgoes, hgoes', (hown.symm.trans h.agree).trans hown', Nat.succ_le_succ h.issued,
    .taken hspent hspent' hread⟩

/-- A file that lies elsewhere is put there in both, or in neither. -/
theorem Level.elsewhere (h : w.Level s fs s' fs') {p : Path} {bytes? : Option ByteArray}
    (hlies : (Find.elsewhere p bytes?).Lies w.first) :
    (∃ e e', Find.put fs p bytes? = .error e ∧ Find.put fs' p bytes? = .error e') ∨
      ∃ out out', Find.put fs p bytes? = .ok out ∧ Find.put fs' p bytes? = .ok out' ∧
        w.Found s fs s' fs' s out s' out' p p := by
  obtain ⟨hown, hchanged⟩ := hlies
  cases bytes? with
  | none => exact .inr ⟨fs, fs', rfl, rfl, h.first.goes (.refl s), h.second.goes (.refl s'),
      h.agree, h.issued, .elsewhere hown⟩
  | some bytes =>
    have hown' : ¬ w.first.own (p.lands fs.here) := by rwa [h.first.here_eq]
    cases hwrite : fs.write p bytes with
    | error e =>
      obtain ⟨e', he'⟩ := h.agree.write_error hown' hwrite
      exact .inl ⟨e, e', hwrite, he'⟩
    | ok out =>
      obtain ⟨out', hwrite', hagree'⟩ := h.agree.write hown' hwrite
      refine .inr ⟨out, out', hwrite, hwrite', ?_, ?_, hagree', h.issued, .elsewhere hown⟩
      · exact h.first.goes_elsewhere (fun h => hown (w.first.owns _ h)) (hchanged rfl)
          (Files.touches_of_write hwrite)
      · exact h.second.goes_elsewhere (fun h => hown (w.owns _ h)) (hchanged rfl)
          (Files.touches_of_write hwrite')

variable {content : ContentSource T} {answer : Request T → Find} {spare : Request T → Nat}
  {limit : Nat}

section Requests
variable (hcontent : content.Answers answer spare w.first limit)
  (hcontent' : content.Answers answer spare w.second limit)
include hcontent hcontent'

/-- The same request is answered alike in both. -/
theorem Level.fetch_cases (h : w.Level s fs s' fs') (n n' : Nat) (request : Request T)
    (hlimit : (content.fetch n request s fs).scratch.issued ≤ limit) :
    let reply := content.fetch n request s fs
    let reply' := content.fetch n' request s' fs'
    reply'.scratch.issued ≤ reply.scratch.issued ∧
      ((Find.Misses fs reply ∧ Find.Misses fs' reply') ∨
        ∃ out out' p p', Find.Gives out p reply ∧ Find.Gives out' p' reply' ∧
          w.Found s fs s' fs' reply.scratch out reply'.scratch out' p p') := by
  intro reply reply'
  obtain ⟨hlies, hscratch, hdescribes⟩ := hcontent n request s fs h.first.later
  obtain ⟨-, hscratch', hdescribes'⟩ := hcontent' n' request s' fs' h.second.later
  rw [hscratch] at hlimit
  have hissued : s'.issued + spare request ≤ s.issued + spare request :=
    Nat.add_le_add_right h.issued _
  have hspared : s.Later { s with issued := s.issued + spare request } :=
    ⟨rfl, rfl, Nat.le_add_right ..⟩
  have hspared' : s'.Later { s' with issued := s'.issued + spare request } :=
    ⟨rfl, rfl, Nat.le_add_right ..⟩
  have hlevel := h.later hspared hspared' hissued
  have hreply := hdescribes h.first hlimit
  have hreply' := hdescribes' h.second (Nat.le_trans (Nat.add_le_add_right hissued _) hlimit)
  rw [show reply.scratch = _ from hscratch, show reply'.scratch = _ from hscratch']
  refine ⟨Nat.add_le_add_right hissued _, ?_⟩
  cases hanswer : answer request with
  | nothing =>
    rw [hanswer] at hreply hreply'
    exact .inl ⟨hreply, hreply'⟩
  | copied stem extension bytes =>
    rw [hanswer] at hlies hreply hreply'
    obtain ⟨out, hwrite, hgives⟩ := hreply
    obtain ⟨out', hwrite', hgives'⟩ := hreply'
    have hfound := hlevel.copied hlies.1 hlies.2 hwrite hwrite'
    exact .inr ⟨out, out', _, _, hgives, hgives', h.found_later hspared hspared' hfound⟩
  | elsewhere p bytes? =>
    rw [hanswer] at hlies hreply hreply'
    unfold Find.Describes at hreply hreply'
    dsimp only at hreply hreply'
    obtain ⟨e, e', herror, herror'⟩ | ⟨out, out', hput, hput', hfound⟩ := hlevel.elsewhere hlies
    · rw [herror] at hreply
      rw [herror'] at hreply'
      exact .inl ⟨hreply, hreply'⟩
    · rw [hput] at hreply
      rw [hput'] at hreply'
      exact .inr ⟨out, out', p, p, hreply, hreply', h.found_later hspared hspared' hfound⟩

/-- A search comes to nothing in both and leaves the files, or finds something in both. -/
theorem Level.searchFrom_cases (h : w.Level s fs s' fs') (template : Request T) (n n' : Nat)
    (queries : List String)
    (hlimit : (content.searchFrom template n s fs queries).scratch.issued ≤ limit) :
    let search := content.searchFrom template n s fs queries
    let search' := content.searchFrom template n' s' fs' queries
    search.found = none ∧ search.files = fs ∨
      ∃ p p', search.found = some p ∧ search'.found = some p' ∧
        w.Found s fs s' fs' search.scratch search.files search'.scratch search'.files p p' := by
  intro search search'
  induction queries generalizing n n' s s' with
  | nil => exact .inl ⟨rfl, rfl⟩
  | cons query queries ih =>
    -- what follows takes no path back, so the limit holds behind the first request
    have hone : (content.fetch n { template with query } s fs).scratch.issued ≤ limit :=
      Nat.le_trans
        (hcontent.later_searchFrom_cons template n fs h.first.later query queries).issued hlimit
    have hlater := hcontent.later_fetch n { template with query } fs h.first.later
    have hlater' := hcontent'.later_fetch n' { template with query } fs' h.second.later
    obtain ⟨hissued, hmisses | hgives⟩ :=
      h.fetch_cases hcontent hcontent' n n' { template with query } hone
    · obtain ⟨⟨hnone, hkeep⟩, hnone', hkeep'⟩ := hmisses
      obtain ⟨hfound, hscratch, hfiles, -⟩ :=
        ContentSource.searchFrom_cons_of_misses queries hnone
      obtain ⟨hfound', hscratch', hfiles', -⟩ :=
        ContentSource.searchFrom_cons_of_misses queries hnone'
      rw [hkeep] at hfound hscratch hfiles
      rw [hkeep'] at hfound' hscratch' hfiles'
      rw [hscratch] at hlimit
      have hrest := ih (h.later hlater hlater' hissued) (n + 1) (n' + 1) hlimit
      dsimp only [search, search']
      rw [hfound, hscratch, hfiles, hfound', hscratch', hfiles']
      obtain hnothing | ⟨p, p', hp, hp', hboth⟩ := hrest
      · exact .inl hnothing
      · exact .inr ⟨p, p', hp, hp', h.found_later hlater hlater' hboth⟩
    · obtain ⟨out, out', p, p', ⟨hok, rfl⟩, ⟨hok', rfl⟩, hboth⟩ := hgives
      obtain ⟨hfound, hscratch, hfiles, -⟩ :=
        ContentSource.searchFrom_cons_of_gives queries (Fetched.found?_eq_some.mpr hok)
      obtain ⟨hfound', hscratch', hfiles', -⟩ :=
        ContentSource.searchFrom_cons_of_gives queries (Fetched.found?_eq_some.mpr hok')
      dsimp only [search, search']
      rw [hscratch, hfiles, hscratch', hfiles']
      exact .inr ⟨p, p', hfound, hfound', hboth⟩

end Requests

namespace Abreast
variable {s s' out : RunState T} {t : Task T} {p p' : Path}

/-- After something is found in both. -/
theorem found (h : w.Abreast s s') {search search' : Search T}
    (hfound : w.Found s.scratch s.files s'.scratch s'.files search.scratch search.files
      search'.scratch search'.files p p') :
    w.Abreast (Setup.searched search s) (Setup.searched search' s') where
  first := hfound.goes.underway
  second := hfound.goes'.underway
  agree := hfound.agree
  issued := hfound.issued
  registry := h.registry.mono fun _ _ hp => hp.goes hfound.goes hfound.goes'
  tracks := h.tracks
  states := h.states
  states' := h.states'
  steps := h.steps
  skipped := h.skipped

/-- A search that comes to nothing leaves the runs abreast. -/
theorem missed (h : w.Abreast s s') {search : Search T} (hlater : s.scratch.Later search.scratch)
    (hfiles : search.files = s.files) (name : String) :
    w.Abreast { Setup.searched search s with registry := s.registry.block name } s' := by
  have hmoves : w.first.Moves s { s with scratch := search.scratch } :=
    ⟨Scratch.Underway.goes h.first hlater, .refl _, .refl .., rfl, rfl⟩
  have hmissed := (h.moves_first hmoves).block_first name
  rw [← hfiles] at hmissed
  exact ⟨hmissed.first, hmissed.second, hmissed.agree, hmissed.issued, hmissed.registry,
    hmissed.tracks, hmissed.states, hmissed.states', hmissed.steps, hmissed.skipped⟩

/-- Paths that are alike have to be removed in both runs. -/
theorem track (h : w.Abreast s s') (hp : w.Alike s.scratch s.files s'.scratch s'.files p p') :
    w.Abreast { s with registry := s.registry.track p }
      { s' with registry := s'.registry.track p' } := by
  have hregistry := h.registry.of_eq (Registry.track_names s.registry p)
    (Registry.track_current s.registry p) (Registry.track_produced s.registry p)
    (Registry.track_declared s.registry p) (Registry.track_names s'.registry p')
    (Registry.track_current s'.registry p') (Registry.track_produced s'.registry p')
    (Registry.track_declared s'.registry p') (Registry.track_blocked s'.registry p')
  have hstates {r : Registry} {p : Path} (hr : ∀ u ∈ r.transients, u.state = .produced) :
      ∀ u ∈ (r.track p).transients, u.state = .produced := by
    intro u hu
    rcases Registry.mem_track hu with hold | rfl
    · exact hr u hold
    · rfl
  refine ⟨h.first, h.second, h.agree, h.issued, hregistry, fun x hx => ?_, hstates h.states,
    hstates h.states', h.steps, h.skipped⟩
  rw [Registry.tracks_track, Registry.tracks_track, h.tracks x hx]
  cases hp with
  | elsewhere hown =>
    -- what is written like the path lands where it does, so it is none of the directory either
    have hsame {y : Path} (hy : y.same p = true) : s'.registry.Tracks y ↔ s.registry.Tracks y :=
      h.tracks y (Path.lands_eq_of_same hy _ ▸ hown)
    have hiff : (∀ y, s'.registry.Tracks y → ¬ y.same p = true) ↔
        ∀ y, s.registry.Tracks y → ¬ y.same p = true :=
      forall_congr' fun y => ⟨fun hy ht hp => hy ((hsame hp).mpr ht) hp,
        fun hy ht hp => hy ((hsame hp).mp ht) hp⟩
    rw [hiff]
  | taken hspent hspent' hread =>
    have hother : x ≠ p := by
      rintro rfl
      exact hx (w.first.owns _ (hspent.owns _))
    have hother' : x ≠ p' := by
      rintro rfl
      exact hx (w.owns _ (hspent'.owns _))
    rw [or_iff_left fun hp => hother' hp.1, or_iff_left fun hp => hother hp.1]

/-- What was found gets its name. It is removed at the end in both runs, or in neither. -/
theorem named (h : w.Abreast s s') (hp : w.Alike s.scratch s.files s'.scratch s'.files p p')
    (name : String) : w.Abreast (Setup.named name p s) (Setup.named name p' s') := by
  have hunder : p'.isUnder s'.scratch.dir = p.isUnder s.scratch.dir := by
    rw [(Scratch.Underway.later h.first).dir, (Scratch.Underway.later h.second).dir, w.dir]
    cases hp with
    | elsewhere hown => rfl
    | taken hspent hspent' hread =>
      rw [hspent.isUnder w.first.digits.hex, ← w.dir, hspent'.isUnder w.digits.hex]
  unfold Setup.named
  rw [hunder]
  split_ifs
  · exact (h.track hp).publish hp (some name) .sideArtifact
  · exact h.publish hp (some name) .sideArtifact

variable {su : Setup T} {answer : Request T → Find} {spare : Request T → Nat}
  {limit : Nat}

/-- A fetch that finds something in the first run finds something in the second. One that is passed
over in the first leaves the runs abreast, without the second doing anything. -/
theorem fetch_cases (h : w.Abreast s s') (hcontent : su.content.Answers answer spare w.first limit)
    (hcontent' : su.content.Answers answer spare w.second limit)
    (hlimit : (su.fetch t s).1.scratch.issued ≤ limit) :
    (∃ reason, (su.fetch t s).2 = .skipped reason ∧ w.Abreast (su.fetch t s).1 s') ∨
      (su.fetch t s).2 = .done ∧ (su.fetch t s').2 = .done ∧
        w.Abreast (su.fetch t s).1 (su.fetch t s').1 := by
  cases hrequest : Setup.requestOf? t with
  | none =>
    unfold Setup.fetch
    rw [hrequest]
    exact .inl ⟨_, rfl, h⟩
  | some asked =>
    obtain ⟨request, alternatives⟩ := asked
    cases houtput : t.output with
    | none =>
      unfold Setup.fetch
      rw [hrequest, houtput]
      exact .inl ⟨_, rfl, h⟩
    | some name =>
      rw [su.scratch_fetch hrequest houtput] at hlimit
      rw [su.fetch_eq hrequest houtput, su.fetch_eq hrequest houtput]
      obtain ⟨hfound, hscratch, hfiles, -⟩ :=
        su.content.search_eq request alternatives s.asked s.scratch s.files
      obtain ⟨hfound', hscratch', hfiles', -⟩ :=
        su.content.search_eq request alternatives s'.asked s'.scratch s'.files
      have hlater := hcontent.later_searchFrom request s.asked s.files
        (Scratch.Underway.later h.first) (Query.all request.query alternatives)
      have hlevel : w.Level s.scratch s.files s'.scratch s'.files :=
        ⟨h.first, h.second, h.agree, h.issued⟩
      have hcases := hlevel.searchFrom_cases hcontent hcontent' request s.asked s'.asked
        (Query.all request.query alternatives)
      dsimp only at hcases
      rw [← hscratch] at hlater
      rw [← hfound, ← hscratch, ← hfiles, ← hfound', ← hscratch', ← hfiles'] at hcases
      generalize su.content.search request alternatives s.asked s.scratch s.files = search
        at hlimit hlater hcases ⊢
      generalize su.content.search request alternatives s'.asked s'.scratch s'.files = search'
        at hcases ⊢
      dsimp only
      obtain ⟨hnone, hkeep⟩ | ⟨p, p', hp, hp', hboth⟩ := hcases hlimit
      · rw [hnone]
        exact .inl ⟨_, rfl, h.missed hlater hkeep name⟩
      · rw [hp, hp']
        exact .inr ⟨rfl, rfl, (h.found hboth).named hboth.alike name⟩

end Abreast

end Twins

end Montage
