import Montage.Proofs.Run.Parallel
import Montage.Proofs.Scratch.Spent

/-!
# Two runs abreast

Two runs on the same files may take different paths of the scratch directory, since they number them
as they come and draw other digits. They are abreast if the names stand for the same in both: for a
file that the scratch directory has not of its own, or for two files that the runs have made and
that hold the same. This is kept while the runs take paths and write to them, and when they publish
outputs that hold the same.
-/

namespace Montage

/-- Where a run moves: the scratch directory and the files that it began with, the places of the
directory, and the places that the run may change. -/
structure Ground where
  scratch : Scratch
  start : Files
  own : Place → Prop
  changed : Place → Prop
  digits : scratch.Digits
  ready : scratch.Ready start
  owns : ∀ q, scratch.Owns start.here q → own q
  own_changed : ∀ q, own q → changed q

/-! ## Tracked paths -/

namespace Registry
variable {r : Registry} {p x : Path}

/-- The path has to be removed. -/
def Tracks (r : Registry) (x : Path) : Prop := ∃ t ∈ r.transients, t.path = x

/-- Of paths that are written alike only one is tracked. -/
theorem tracks_track : (r.track p).Tracks x ↔
    r.Tracks x ∨ x = p ∧ ∀ y, r.Tracks y → ¬ y.same p = true := by
  unfold Tracks track
  split_ifs with hany
  · obtain ⟨t, ht, hsame⟩ := List.any_eq_true.mp hany
    exact ⟨.inl, fun h => h.resolve_right fun hp => hp.2 t.path ⟨t, ht, rfl⟩ hsame⟩
  · have hnone : ∀ y, (∃ t ∈ r.transients, t.path = y) → ¬ y.same p = true := by
      rintro y ⟨t, ht, rfl⟩ hsame
      exact hany (List.any_eq_true.mpr ⟨t, ht, hsame⟩)
    simp only [List.mem_append, List.mem_singleton]
    constructor
    · rintro ⟨t, ht | rfl, rfl⟩
      · exact .inl ⟨t, ht, rfl⟩
      · exact .inr ⟨rfl, hnone⟩
    · rintro (⟨t, ht, rfl⟩ | ⟨rfl, -⟩)
      · exact ⟨t, .inl ht, rfl⟩
      · exact ⟨_, .inr rfl, rfl⟩

/-- A sequence of paths tracked. -/
structure Tracking (own : Place → Prop) (here : Place) (r r' : Registry) : Prop where
  names : r'.names = r.names
  current : r'.current = r.current
  produced : r'.produced = r.produced
  declared : r'.declared = r.declared
  blocked : r'.blocked = r.blocked
  tracks : ∀ x, ¬ own (x.lands here) → (r'.Tracks x ↔ r.Tracks x)
  states : (∀ t ∈ r.transients, t.state = .produced) → ∀ t ∈ r'.transients, t.state = .produced

namespace Tracking
variable {own : Place → Prop} {here : Place} {r r' : Registry}

theorem refl (own : Place → Prop) (here : Place) (r : Registry) : Tracking own here r r :=
  ⟨rfl, rfl, rfl, rfl, rfl, fun _ _ => Iff.rfl, id⟩

theorem track (h : Tracking own here r r') (hp : own (p.lands here)) :
    Tracking own here r (r'.track p) where
  names := (track_names r' p).trans h.names
  current := (track_current r' p).trans h.current
  produced := (track_produced r' p).trans h.produced
  declared := (track_declared r' p).trans h.declared
  blocked := (track_blocked r' p).trans h.blocked
  tracks x hx := by
    rw [tracks_track, h.tracks x hx, or_iff_left]
    rintro ⟨rfl, -⟩
    exact hx hp
  states hr t ht := by
    rcases mem_track ht with hold | rfl
    · exact h.states hr t hold
    · rfl

theorem trans {r'' : Registry} (h : Tracking own here r r') (k : Tracking own here r' r'') :
    Tracking own here r r'' where
  names := k.names.trans h.names
  current := k.current.trans h.current
  produced := k.produced.trans h.produced
  declared := k.declared.trans h.declared
  blocked := k.blocked.trans h.blocked
  tracks x hx := (k.tracks x hx).trans (h.tracks x hx)
  states hr := k.states (h.states hr)

end Tracking

end Registry

/-! ## One run -/

/-- Between two states a run has taken paths, and has written to some of them. -/
structure Ground.Moves {T : Type} (g : Ground) (s t : RunState T) : Prop where
  goes : Scratch.Goes g.scratch g.changed g.start s.scratch s.files t.scratch t.files
  agree : s.files.Agree g.own t.files
  tracking : Registry.Tracking g.own g.start.here s.registry t.registry
  steps : t.steps = s.steps
  skipped : t.skipped = s.skipped

/-- A run is on its way. -/
def Ground.Underway {T : Type} (g : Ground) (s : RunState T) : Prop :=
  Scratch.Underway g.scratch g.changed g.start s.scratch s.files

namespace Ground.Moves
variable {T : Type} {g : Ground} {s t : RunState T} {stem extension : String} {n : Nat}

theorem refl (h : g.Underway s) : g.Moves s s where
  goes := Scratch.Underway.goes h (.refl s.scratch)
  agree := .refl s.files
  tracking := .refl ..
  steps := rfl
  skipped := rfl

theorem underway (h : g.Moves s t) : g.Underway t := h.goes.underway

theorem note (h : g.Moves s t) (events : List (Event T)) : g.Moves s (t.note events) :=
  ⟨h.goes, h.agree, h.tracking, h.steps, h.skipped⟩

/-- The next path of a run on its way. -/
theorem next_eq (h : g.Underway s) (stem extension : String) :
    s.scratch.next stem extension = g.scratch.pathAt s.scratch.issued stem extension :=
  Scratch.Later.pathAt_eq (Scratch.Underway.later h) ..

theorem take (h : g.Moves s t) (hstem : '/' ∉ stem.toList)
    (hextension : Scratch.Plain extension) :
    g.Moves s (t.take (t.scratch.next stem extension)) where
  goes := h.goes.trans (h.goes.underway.goes (.advance (.refl t.scratch)))
  agree := h.agree
  tracking := h.tracking.track (g.owns _ ⟨t.scratch.issued, stem, extension,
    h.goes.underway.later.issued, hstem, hextension, by rw [next_eq h.underway]⟩)
  steps := h.steps
  skipped := h.skipped

/-- A path is written to that was taken on the way. -/
theorem touch (h : g.Moves s t) (hs : g.Underway s) (hn : s.scratch.issued ≤ n)
    (hlt : n < t.scratch.issued) (hstem : '/' ∉ stem.toList)
    (hextension : Scratch.Plain extension) {out : Files}
    (hout : t.files.Touches out (g.scratch.pathAt n stem extension)) :
    g.Moves s { t with files := out } where
  goes := h.goes.touch g.digits.hex (fun q hq => g.own_changed q (g.owns q hq)) hn hlt
    (Nat.le_trans (Scratch.Underway.later hs).issued hn) hstem hextension hout
  agree := h.agree.trans <| .of_touches hout fun q hq => g.owns q
    ⟨n, stem, extension, Nat.le_trans (Scratch.Underway.later hs).issued hn, hstem, hextension,
      h.goes.underway.here_eq ▸ Files.lands_of_locate hq⟩
  tracking := h.tracking
  steps := h.steps
  skipped := h.skipped

theorem trans {u : RunState T} (h : g.Moves s t) (k : g.Moves t u) : g.Moves s u where
  goes := h.goes.trans k.goes
  agree := h.agree.trans k.agree
  tracking := h.tracking.trans k.tracking
  steps := k.steps.trans h.steps
  skipped := k.skipped.trans h.skipped

end Ground.Moves

/-! ## Two runs -/

/-- Two runs on the same files and with one scratch directory, which may draw other digits. -/
structure Twins where
  first : Ground
  other : Scratch
  dir : other.dir = first.scratch.dir
  issued : other.issued ≤ first.scratch.issued
  digits : other.Digits
  ready : other.Ready first.start
  owns : ∀ q, other.Owns first.start.here q → first.own q

namespace Twins

abbrev second (w : Twins) : Ground :=
  { w.first with
    scratch := w.other
    digits := w.digits
    ready := w.ready
    owns := w.owns }

/-- Paths that stand for the same in both runs: one that is none of the scratch directory, or two
that were given out and hold the same. -/
inductive Alike (w : Twins) (s : Scratch) (fs : Files) (s' : Scratch) (fs' : Files) :
    Path → Path → Prop
  | elsewhere {p : Path} (h : ¬ w.first.own (p.lands w.first.start.here)) :
      Alike w s fs s' fs' p p
  | taken {p p' : Path} (h : w.first.scratch.Spent s p) (h' : w.other.Spent s' p')
      (hread : fs'.readable p' = fs.readable p) : Alike w s fs s' fs' p p'

variable {w : Twins} {s t s' t' : Scratch} {fs out fs' out' : Files} {p p' : Path}

theorem Alike.goes (h : w.Alike s fs s' fs' p p')
    (g : Scratch.Goes w.first.scratch w.first.changed w.first.start s fs t out)
    (g' : Scratch.Goes w.other w.first.changed w.first.start s' fs' t' out') :
    w.Alike t out t' out' p p' := by
  cases h with
  | elsewhere h => exact .elsewhere h
  | taken h h' hread =>
    refine .taken (h.mono g.later) (h'.mono g'.later) ?_
    rw [Files.readable_congr (g'.kept p' h'), hread, Files.readable_congr (g.kept p h)]

theorem Alike.readable_eq (h : w.Alike s fs s' fs' p p') (hagree : fs.Agree w.first.own fs')
    (hhere : fs.here = w.first.start.here) : fs'.readable p' = fs.readable p := by
  cases h with
  | elsewhere h => exact hagree.readable_eq (hhere ▸ h)
  | taken h h' hread => exact hread

/-- Two runs stand alike. The second has skipped nothing and blocked nothing, and it has taken no
more paths than the first. -/
structure Abreast {T : Type} (w : Twins) (s s' : RunState T) : Prop where
  first : w.first.Underway s
  second : w.second.Underway s'
  agree : s.files.Agree w.first.own s'.files
  issued : s'.scratch.issued ≤ s.scratch.issued
  registry : s.registry.Parallel (w.Alike s.scratch s.files s'.scratch s'.files) s'.registry
  tracks : ∀ x, ¬ w.first.own (x.lands w.first.start.here) →
    (s'.registry.Tracks x ↔ s.registry.Tracks x)
  states : ∀ u ∈ s.registry.transients, u.state = .produced
  states' : ∀ u ∈ s'.registry.transients, u.state = .produced
  steps : s'.steps = s.steps
  skipped : s'.skipped = []

namespace Abreast
variable {T : Type} {w : Twins} {s t s' t' : RunState T} {p p' : Path}

/-- Both runs may go on, each for itself. -/
theorem moves (h : w.Abreast s s') (m : w.first.Moves s t) (m' : w.second.Moves s' t')
    (hissued : t'.scratch.issued ≤ t.scratch.issued) : w.Abreast t t' where
  first := m.underway
  second := m'.underway
  agree := (m.agree.symm.trans h.agree).trans m'.agree
  issued := hissued
  registry := (h.registry.mono fun _ _ hp => hp.goes m.goes m'.goes).of_eq m.tracking.names
    m.tracking.current m.tracking.produced m.tracking.declared m'.tracking.names
    m'.tracking.current m'.tracking.produced m'.tracking.declared m'.tracking.blocked
  tracks x hx := by
    rw [m'.tracking.tracks x hx, h.tracks x hx, m.tracking.tracks x hx]
  states := m.tracking.states h.states
  states' := m'.tracking.states h.states'
  steps := by rw [m'.steps, h.steps, m.steps]
  skipped := by rw [m'.skipped, h.skipped]

/-- The first may go on alone. -/
theorem moves_first (h : w.Abreast s s') (m : w.first.Moves s t) : w.Abreast t s' :=
  h.moves m (.refl h.second) (Nat.le_trans h.issued m.goes.later.issued)

/-- Outputs that are alike are published in both. -/
theorem publish (h : w.Abreast s s')
    (hp : w.Alike s.scratch s.files s'.scratch s'.files p p') (name? : Option String)
    (effect : ChainEffect) : w.Abreast (s.publish name? p effect) (s'.publish name? p' effect) where
  first := h.first
  second := h.second
  agree := h.agree
  issued := h.issued
  registry := h.registry.publish hp name? effect
  tracks x hx := by
    have hkeep (r : Registry) (p : Path) : (r.publish name? p effect).Tracks x ↔ r.Tracks x := by
      unfold Registry.Tracks
      rw [Registry.publish_transients]
    exact (hkeep s'.registry p').trans ((h.tracks x hx).trans (hkeep s.registry p).symm)
  states := by
    intro u hu
    exact h.states u (Registry.publish_transients s.registry name? p effect ▸ hu)
  states' := by
    intro u hu
    exact h.states' u (Registry.publish_transients s'.registry name? p' effect ▸ hu)
  steps := h.steps
  skipped := h.skipped

/-- A name may be blocked in the first alone. -/
theorem block_first (h : w.Abreast s s') (name : String) :
    w.Abreast { s with registry := s.registry.block name } s' where
  first := h.first
  second := h.second
  agree := h.agree
  issued := h.issued
  registry := h.registry.of_eq (Registry.block_names ..) (Registry.block_current ..)
    (Registry.block_produced ..) (Registry.block_declared ..) rfl rfl rfl rfl rfl
  tracks x hx := by
    unfold Registry.Tracks
    rw [Registry.block_transients]
    exact h.tracks x hx
  states := by
    intro u hu
    exact h.states u (Registry.block_transients s.registry name ▸ hu)
  states' := h.states'
  steps := h.steps
  skipped := h.skipped

/-- What is noted does not matter, nor what the first has skipped. -/
theorem note_first (h : w.Abreast s s') (events : List (Event T)) : w.Abreast (s.note events) s' :=
  ⟨h.first, h.second, h.agree, h.issued, h.registry, h.tracks, h.states, h.states', h.steps,
    h.skipped⟩

theorem note_second (h : w.Abreast s s') (events : List (Event T)) : w.Abreast s (s'.note events) :=
  ⟨h.first, h.second, h.agree, h.issued, h.registry, h.tracks, h.states, h.states', h.steps,
    h.skipped⟩

theorem skip_first (h : w.Abreast s s') (skip : Skipped) :
    w.Abreast { s with skipped := s.skipped ++ [skip] } s' :=
  ⟨h.first, h.second, h.agree, h.issued, h.registry, h.tracks, h.states, h.states', h.steps,
    h.skipped⟩

theorem count (h : w.Abreast s s') :
    w.Abreast { s with steps := s.steps + 1 } { s' with steps := s'.steps + 1 } :=
  ⟨h.first, h.second, h.agree, h.issued, h.registry, h.tracks, h.states, h.states',
    congrArg Nat.succ h.steps, h.skipped⟩

end Abreast

end Twins

end Montage
