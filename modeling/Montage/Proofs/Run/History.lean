import Mathlib.Data.List.Induction
import Montage.Proofs.Run.Accounting

/-!
# The history of a registry

A registry is used by calls in any order: files are tracked, published, kept and cleaned up, and
names are blocked. What it answers can be said from the calls alone. Main statement: a name stands
for the file that it was last given, and the names that stand for something are listed once each,
the source first and the others in the order in which they were first given; no name is lost; a
name is pending as long as it is declared and not given; no path is tracked twice; and the current
file is the last that was published on the main chain. The source is given its name at the start.
-/

namespace Montage

namespace Registry

/-- A call on a registry. -/
inductive Call where
  | track (p : Path)
  | publish (name? : Option String) (p : Path) (effect : ChainEffect)
  | block (name : String)
  | persist (p : Path)
  /-- With the files as they are when it is made. -/
  | cleanup (files : Files)

namespace Call

/-- The name that a call gives, with its file. -/
def given? : Call → Option (String × Path)
  | publish (some name) p _ => some (name, p)
  | _ => none

/-- The file that a call makes current. -/
def chained? : Call → Option Path
  | publish _ p .mainChain => some p
  | _ => none

end Call

def step (r : Registry) : Call → Registry
  | .track p => r.track p
  | .publish name? p effect => r.publish name? p effect
  | .block name => r.block name
  | .persist p => r.persist p
  | .cleanup files => (r.cleanup files).1

/-- The registry of a source behind calls. -/
def after (source : Path) (declared : List String) (calls : List Call) : Registry :=
  calls.foldl step (start source declared)

/-- The names that are given by the start and by calls, with their files. -/
def givenBy (source : Path) (calls : List Call) : List (String × Path) :=
  (sourceName, source) :: calls.filterMap Call.given?

theorem givenBy_append (source : Path) (calls more : List Call) :
    givenBy source (calls ++ more) = givenBy source calls ++ more.filterMap Call.given? := by
  rw [givenBy, List.filterMap_append]
  rfl

/-! ## What is swept -/

/-- A sweep keeps the paths, and what was not pending does not become so. -/
theorem sweep_transients (fs : Files) (ts : List Transient) :
    (sweep fs ts).transients.map Transient.path = ts.map Transient.path ∧
      ((∀ t ∈ ts, t.state ≠ .pending) → ∀ t ∈ (sweep fs ts).transients, t.state ≠ .pending) := by
  induction ts generalizing fs with
  | nil => exact ⟨rfl, fun h => h⟩
  | cons t ts ih =>
    simp only [sweep, List.forall_mem_cons]
    split_ifs
    · cases Scratch.discard t.path fs with
      | ok out =>
        obtain ⟨hpaths, hstates⟩ := ih out
        refine ⟨congrArg (t.path :: ·) hpaths, fun h => ?_⟩
        exact List.forall_mem_cons.mpr ⟨by simp, hstates h.2⟩
      | error e =>
        obtain ⟨hpaths, hstates⟩ := ih fs
        refine ⟨congrArg (t.path :: ·) hpaths, fun h => ?_⟩
        exact List.forall_mem_cons.mpr ⟨h.1, hstates h.2⟩
    · obtain ⟨hpaths, hstates⟩ := ih fs
      refine ⟨congrArg (t.path :: ·) hpaths, fun h => ?_⟩
      exact List.forall_mem_cons.mpr ⟨h.1, hstates h.2⟩

/-! ## The transients of a registry -/

/-- No path is tracked twice, and nothing that is tracked is pending. -/
structure TracksApart (r : Registry) : Prop where
  distinct : (r.transients.map Transient.path).Pairwise fun p q => p.same q = false
  settled : ∀ t ∈ r.transients, t.state ≠ .pending

namespace TracksApart
variable {r r' : Registry}

theorem congr (h : r.TracksApart) (htransients : r'.transients = r.transients) : r'.TracksApart :=
  ⟨htransients ▸ h.distinct, htransients ▸ h.settled⟩

theorem track (h : r.TracksApart) (p : Path) : (r.track p).TracksApart := by
  unfold Registry.track
  split_ifs with hany
  · exact h
  · have hnew : ∀ t ∈ r.transients, t.path.same p = false := by simpa using hany
    refine ⟨?_, List.forall_mem_append.mpr ⟨h.settled, List.forall_mem_singleton.mpr nofun⟩⟩
    rw [List.map_append, List.pairwise_append]
    refine ⟨h.distinct, List.pairwise_singleton _ _, fun q hq other hother => ?_⟩
    obtain ⟨t, ht, rfl⟩ := List.mem_map.mp hq
    obtain rfl := List.mem_singleton.mp hother
    exact hnew t ht

theorem persist (h : r.TracksApart) (p : Path) : (r.persist p).TracksApart where
  distinct := by
    have hpaths : (r.persist p).transients.map Transient.path =
        r.transients.map Transient.path := by
      rw [Registry.persist, List.map_map]
      refine List.map_congr_left fun t _ => ?_
      rw [Function.comp_apply]
      split_ifs <;> rfl
    rw [hpaths]
    exact h.distinct
  settled t ht := by
    obtain ⟨u, hu, rfl⟩ := List.mem_map.mp ht
    split_ifs
    · exact nofun
    · exact h.settled u hu

theorem cleanup (h : r.TracksApart) (files : Files) : (r.cleanup files).1.TracksApart where
  distinct := by
    rw [Registry.cleanup, (sweep_transients files r.transients).1]
    exact h.distinct
  settled := (sweep_transients files r.transients).2 h.settled

theorem step (h : r.TracksApart) (c : Call) : (r.step c).TracksApart := by
  cases c with
  | track p => exact h.track p
  | publish name? p effect => exact h.congr (publish_transients r name? p effect)
  | block name => exact h.congr (block_transients r name)
  | persist p => exact h.persist p
  | cleanup files => exact h.cleanup files

end TracksApart

/-! ## The names of a registry -/

theorem eraseDups_cons_eq_filter (a : String) (l : List String) :
    (a :: l).eraseDups = a :: l.eraseDups.filter (· ≠ a) := by
  induction l using List.reverseRecOn with
  | nil => rfl
  | append_singleton l b ih =>
    rw [← List.cons_append, List.eraseDups_append, ih, List.eraseDups_append, List.filter_append,
      List.cons_append]
    congr 2
    by_cases hb : b ∈ l
    · simp [List.removeAll, hb]
    · by_cases ha : b = a
      · subst ha
        simp [List.removeAll, hb]
      · simp [List.removeAll, hb, ha, List.eraseDups_cons]

/-- A registry says of names and of the current file what the calls say that were made. -/
structure Recalls (r : Registry) (source : Path) (declared : List String) (calls : List Call) :
    Prop where
  names : r.names = (givenBy source calls).reverse
  lists : r.Lists ((calls.filterMap Call.given?).map Prod.fst)
  declared : r.declared = declared
  current : r.current = (calls.filterMap Call.chained?).getLastD source

namespace Recalls
variable {r : Registry} {source : Path} {declared : List String} {calls : List Call}

theorem initial (source : Path) (declared : List String) :
    (start source declared).Recalls source declared [] :=
  ⟨rfl, .initial source declared, rfl, rfl⟩

/-- A call that gives no name and does not move the chain. -/
theorem aside (h : r.Recalls source declared calls) {r' : Registry} {c : Call}
    (hnames : r'.names = r.names) (hproduced : r'.produced = r.produced)
    (hdeclared : r'.declared = r.declared) (hcurrent : r'.current = r.current)
    (hgiven : c.given? = none) (hchained : c.chained? = none) :
    r'.Recalls source declared (calls ++ [c]) := by
  have hsame : (calls ++ [c]).filterMap Call.given? = calls.filterMap Call.given? := by
    simp [hgiven]
  have hchain : (calls ++ [c]).filterMap Call.chained? = calls.filterMap Call.chained? := by
    simp [hchained]
  exact ⟨by rw [hnames, h.names, givenBy, givenBy, hsame],
    by rw [hsame]; exact h.lists.congr hnames hproduced,
    hdeclared.trans h.declared, by rw [hcurrent, hchain, h.current]⟩

theorem publish (h : r.Recalls source declared calls) (name? : Option String) (p : Path)
    (effect : ChainEffect) :
    (r.publish name? p effect).Recalls source declared (calls ++ [.publish name? p effect]) where
  names := by
    rw [givenBy_append, List.reverse_append]
    cases name? <;> cases effect <;> simp [Registry.publish, bind, Call.given?, h.names]
  lists := by
    have hgiven : ((calls ++ [Call.publish name? p effect]).filterMap Call.given?).map Prod.fst =
        (calls.filterMap Call.given?).map Prod.fst ++ name?.toList := by
      cases name? <;> simp [Call.given?]
    rw [hgiven]
    exact h.lists.publish name? p effect
  declared := by
    rw [← h.declared]
    cases name? <;> cases effect <;> rfl
  current := by
    cases effect with
    | mainChain => simp [Call.chained?]
    | sideArtifact => simp [Call.chained?, h.current]

theorem step (h : r.Recalls source declared calls) (c : Call) :
    (r.step c).Recalls source declared (calls ++ [c]) := by
  cases c with
  | track p =>
    exact h.aside (track_names r p) (track_produced r p) (track_declared r p) (track_current r p)
      rfl rfl
  | publish name? p effect => exact h.publish name? p effect
  | block name =>
    exact h.aside (block_names r name) (block_produced r name) (block_declared r name)
      (block_current r name) rfl rfl
  | persist p => exact h.aside rfl rfl rfl rfl rfl rfl
  | cleanup files => exact h.aside rfl rfl rfl rfl rfl rfl

theorem resolve?_eq (h : r.Recalls source declared calls) (name : String) :
    r.resolve? name = (givenBy source calls).reverse.lookup name := by
  rw [resolve?, h.names]

theorem isSome_resolve? (h : r.Recalls source declared calls) (name : String) :
    (r.resolve? name).isSome = true ↔ name ∈ (givenBy source calls).map Prod.fst := by
  rw [h.lists.resolved, givenBy, List.map_cons, List.mem_cons]

theorem available_eq (h : r.Recalls source declared calls) :
    r.available = ((givenBy source calls).map Prod.fst).eraseDups := by
  rw [available, h.lists.produced, givenBy, List.map_cons, eraseDups_cons_eq_filter]

theorem nodup_available (h : r.Recalls source declared calls) : r.available.Nodup := by
  refine List.nodup_cons.mpr ⟨fun hmem => ?_, h.lists.nodup⟩
  rw [h.lists.produced, List.mem_filter] at hmem
  simp at hmem

/-- A name that stands for nothing is pending if it is declared; one that stands for a file never
is. -/
theorem state?_eq_pending (h : r.Recalls source declared calls) (htracks : r.TracksApart)
    (name : String) : r.state? name = some .pending ↔
      name ∈ declared ∧ name ∉ (givenBy source calls).map Prod.fst := by
  rw [← h.isSome_resolve?]
  unfold state?
  cases hname : r.resolve? name with
  | some p =>
    apply iff_of_false
    · dsimp only
      split
      · rename_i t ht
        intro hpending
        exact htracks.settled t (List.mem_reverse.mp (List.mem_of_find?_eq_some ht))
          (Option.some.inj hpending)
      · exact nofun
    · exact fun hno => hno.2 rfl
  | none => simp [isDeclared, h.declared]

end Recalls

/-! ## Behind calls -/

theorem after_append (source : Path) (declared : List String) (calls more : List Call) :
    after source declared (calls ++ more) = more.foldl step (after source declared calls) :=
  List.foldl_append

theorem tracksApart_after (source : Path) (declared : List String) (calls : List Call) :
    (after source declared calls).TracksApart := by
  induction calls using List.reverseRecOn with
  | nil => exact ⟨.nil, List.forall_mem_nil _⟩
  | append_singleton calls c ih =>
    rw [after_append]
    exact ih.step c

theorem recalls_after (source : Path) (declared : List String) (calls : List Call) :
    (after source declared calls).Recalls source declared calls := by
  induction calls using List.reverseRecOn with
  | nil => exact .initial source declared
  | append_singleton calls c ih =>
    rw [after_append]
    exact ih.step c

/-- What a registry answers behind any calls. -/
theorem answers_after_calls (source : Path) (declared : List String) (calls : List Call) :
    let r := after source declared calls
    let names := (givenBy source calls).map Prod.fst
    (r.available = names.eraseDups ∧ r.available.head? = some sourceName ∧ r.available.Nodup ∧
      ∀ name, name ∈ r.available ↔ (r.resolve? name).isSome = true) ∧
    (∀ name, r.resolve? name = (givenBy source calls).reverse.lookup name) ∧
    (∀ more name, (r.resolve? name).isSome = true →
      ((after source declared (calls ++ more)).resolve? name).isSome = true) ∧
    (∀ name, r.state? name = some .pending ↔ name ∈ declared ∧ name ∉ names) ∧
    ((r.transients.map Transient.path).Pairwise fun p q => p.same q = false) ∧
    r.current = (calls.filterMap Call.chained?).getLastD source := by
  intro r names
  have h : r.Recalls source declared calls := recalls_after source declared calls
  have htracks : r.TracksApart := tracksApart_after source declared calls
  refine ⟨⟨h.available_eq, rfl, h.nodup_available, fun name => ?_⟩, h.resolve?_eq,
    fun more name hname => ?_, h.state?_eq_pending htracks, htracks.distinct, h.current⟩
  · rw [h.available_eq, List.mem_eraseDups, h.isSome_resolve?]
  · rw [(recalls_after source declared (calls ++ more)).isSome_resolve?, givenBy_append,
      List.map_append]
    exact List.mem_append_left _ ((h.isSome_resolve? name).mp hname)

/-- Two files under one name, the first of them on the main chain, and one under the name of the
source. -/
def renamings : List Call :=
  [.track ⟨"/s/1.mp4"⟩, .publish (some "x") ⟨"/s/1.mp4"⟩ .mainChain, .block "y",
    .track ⟨"/s/./1.mp4"⟩, .publish (some sourceName) ⟨"/s/2.mp4"⟩ .sideArtifact,
    .persist ⟨"/s/1.mp4"⟩, .publish (some "x") ⟨"/s/3.mp4"⟩ .sideArtifact]

/-- Neither of the names is lost when more is given and blocked, and the source is listed once. -/
theorem answers_after_renamings :
    let r := after ⟨"/in.mp4"⟩ ["x", "y"] renamings
    let more := [.publish (some "y") ⟨"/s/4.mp4"⟩ .mainChain, .block "x"]
    r.available = [sourceName, "x"] ∧ r.resolve? "x" = some ⟨"/s/3.mp4"⟩ ∧
      r.resolve? sourceName = some ⟨"/s/2.mp4"⟩ ∧ r.state? "y" = some .pending ∧
      r.current = ⟨"/s/1.mp4"⟩ ∧
      ((after ⟨"/in.mp4"⟩ ["x", "y"] (renamings ++ more)).resolve? "x").isSome = true := by
  obtain ⟨⟨havailable, -⟩, hresolve, hkept, hpending, -, hcurrent⟩ :=
    answers_after_calls ⟨"/in.mp4"⟩ ["x", "y"] renamings
  have hx := hresolve "x"
  refine ⟨havailable.trans (by decide), hx, hresolve sourceName, (hpending "y").mpr (by decide),
    hcurrent, hkept _ "x" ?_⟩
  rw [hx]
  rfl

end Registry

end Montage
