import Montage.Proofs.Run.Taken

/-!
# Nothing is written twice

The paths that a run writes to are apart from all that it has referred to before: from the source,
from the files that names stood for or that were current, and from those that it has to remove. This
rests on three things: the source is there, no file is at the paths that the scratch directory gives
out, and the content source answers with a path that it was given or with one outside of the
directory. Main statement: so no call of the media tool and no sidecar changes an artifact, as long
as a call writes at most its output.
-/

namespace Montage

namespace Scratch

/-- A path that was given out, or one outside of the directory. -/
def Offers (s : Scratch) (here : Place) (p : Path) : Prop := s.Issued p ∨ s.Outside here p

theorem Later.offers_mono {s t : Scratch} {here : Place} {p : Path} (h : s.Later t)
    (hp : s.Offers here p) : t.Offers here p := by
  refine hp.imp h.issued_mono fun houtside => ?_
  unfold Outside at houtside ⊢
  rwa [h.dir]

theorem Later.hex {s t : Scratch} (h : s.Later t) (hs : s.Hex) : t.Hex := by
  unfold Hex
  rwa [h.uid]

/-- A path that is asked for with plain parts lands apart from all that were offered before. -/
theorem Offers.lands_ne {s : Scratch} {here : Place} {p : Path} {n : Nat}
    {stem extension : String} (h : s.Offers here p) (hs : s.Hex) (hn : s.issued ≤ n)
    (hstem : Plain stem) (hextension : Plain extension) :
    (s.pathAt n stem extension).lands here ≠ p.lands here := by
  obtain hissued | houtside := h
  · exact hissued.lands_ne hs hn hstem hextension here
  · exact houtside.lands_ne hs hstem hextension

end Scratch

/-- The tool does not change the working directory. -/
def MediaTool.Stays (tool : MediaTool) : Prop :=
  ∀ (n : Nat) (i : Invocation) (fs : Files), (tool.run n i fs).files.here = fs.here

theorem MediaTool.WritesOutput.stays {tool : MediaTool} (h : tool.WritesOutput) : tool.Stays :=
  fun n i fs => (h n i fs).here

/-- A request takes paths of the scratch directory at most, and what is found is one of those that
the directory has given out, or is outside of it. -/
def ContentSource.Offers {T : Type} (content : ContentSource T) (scratch : Scratch)
    (here : Place) : Prop :=
  ∀ (n : Nat) (request : Request T) (s : Scratch) (fs : Files), scratch.Later s →
    s.Later (content.fetch n request s fs).scratch ∧
      (content.fetch n request s fs).files.here = fs.here ∧
      ∀ p, (content.fetch n request s fs).answer = .ok (some p) →
        (content.fetch n request s fs).scratch.Offers here p

namespace ContentSource.Offers
variable {T : Type} {content : ContentSource T} {scratch s : Scratch} {here : Place}

theorem searchFrom (h : content.Offers scratch here) (template : Request T) (asked : Nat)
    (fs : Files) (hs : scratch.Later s) (queries : List String) :
    let search := content.searchFrom template asked s fs queries
    s.Later search.scratch ∧ search.files.here = fs.here ∧
      ∀ p, search.found = some p → search.scratch.Offers here p := by
  induction queries generalizing asked s fs with
  | nil => exact ⟨.refl s, rfl, nofun⟩
  | cons query queries ih =>
    intro search
    obtain ⟨hlater, hhere, hoffers⟩ := h asked { template with query } s fs hs
    cases hreply : (content.fetch asked { template with query } s fs).found? with
    | some p =>
      obtain ⟨hfound, hscratch, hfiles, -⟩ := searchFrom_cons_of_gives queries hreply
      rw [hfound, hscratch, hfiles]
      refine ⟨hlater, hhere, ?_⟩
      rintro q ⟨⟩
      exact hoffers p (Fetched.found?_eq_some.mp hreply)
    | none =>
      obtain ⟨hfound, hscratch, hfiles, -⟩ := searchFrom_cons_of_misses queries hreply
      rw [hfound, hscratch, hfiles]
      obtain ⟨hlater', hhere', hoffers'⟩ := ih (asked + 1) _ (hs.trans hlater)
      exact ⟨hlater.trans hlater', hhere'.trans hhere, hoffers'⟩

theorem search (h : content.Offers scratch here) (template : Request T)
    (alternatives : List String) (asked : Nat) (fs : Files) (hs : scratch.Later s) :
    let search := content.search template alternatives asked s fs
    s.Later search.scratch ∧ search.files.here = fs.here ∧
      ∀ p, search.found = some p → search.scratch.Offers here p := by
  intro search
  obtain ⟨hfound, hscratch, hfiles, -⟩ := content.search_eq template alternatives asked s fs
  rw [hfound, hscratch, hfiles]
  exact h.searchFrom template asked fs hs _

end ContentSource.Offers

/-- What a run has borrowed: each path that its registry refers to is the source, or was offered. -/
structure RunState.Lent {T : Type} (scratch : Scratch) (here : Place) (source : Path)
    (s : RunState T) : Prop where
  stays : s.files.here = here
  later : scratch.Later s.scratch
  refers : ∀ x, s.registry.Refers x → x = source ∨ s.scratch.Offers here x

namespace Setup
variable {T : Type} {su : Setup T} {scratch : Scratch} {here : Place} {source : Path}
  {s : RunState T} {t : Task T}

/-- A run does not forget what it was offered while paths are given out. -/
theorem lent_step (h : s.Lent scratch here source) {out : RunState T}
    (hhere : out.files.here = s.files.here) (hlater : s.scratch.Later out.scratch)
    (hrefers : ∀ x, out.registry.Refers x → s.registry.Refers x ∨ out.scratch.Offers here x) :
    out.Lent scratch here source where
  stays := hhere.trans h.stays
  later := h.later.trans hlater
  refers x hx := by
    rcases hrefers x hx with hbefore | hoffered
    · exact (h.refers x hbefore).imp_right hlater.offers_mono
    · exact .inr hoffered

theorem lent_fetch (hcontent : su.content.Offers scratch here) (h : s.Lent scratch here source)
    (t : Task T) : s.scratch.Later (su.fetch t s).1.scratch ∧
      (su.fetch t s).1.Lent scratch here source := by
  have hsought := sought su t s
  generalize su.fetch t s = result at hsought ⊢
  obtain ⟨out, outcome⟩ := result
  have hsearched {request : Request T} {alternatives : List String} {name : String}
      {search : Search T} (hseeks : su.Seeks t s request alternatives name search) :
      s.scratch.Later search.scratch ∧ search.files.here = s.files.here ∧
        ∀ p, search.found = some p → search.scratch.Offers here p := by
    rw [← hseeks.search]
    exact hcontent.search request alternatives s.asked s.files h.later
  cases hsought with
  | aside _ => exact ⟨.refl _, h⟩
  | missed hseeks _ =>
    obtain ⟨hlater, hhere, -⟩ := hsearched hseeks
    exact ⟨hlater, lent_step h hhere hlater fun x hx => .inl (Registry.refers_block hx)⟩
  | @found _ _ _ _ p r hseeks hfound hr =>
    obtain ⟨hlater, hhere, hoffers⟩ := hsearched hseeks
    refine ⟨hlater, lent_step h hhere hlater fun x hx => ?_⟩
    have hp := hoffers p hfound
    obtain hbefore | rfl := Registry.refers_publish hx
    · rw [hr] at hbefore
      split_ifs at hbefore
      · obtain hold | rfl := Registry.refers_track hbefore
        · exact .inl hold
        · exact .inr hp
      · exact .inl hbefore
    · exact .inr hp

variable [TimeScale T] [Spelled T]

theorem lent_runTask (htool : su.tool.Stays) (hcontent : su.content.Offers scratch here)
    (h : s.Lent scratch here source) (total position : Nat) (t : Task T) :
    s.scratch.Later (su.runTask total position t s).1.scratch ∧
      (su.runTask total position t s).1.Lent scratch here source := by
  cases hkind : t.kind? with
  | none =>
    rw [runTask_of_unknown su hkind]
    exact ⟨.refl _, h.stays, h.later, h.refers⟩
  | some k =>
    by_cases hfetch : k.isFetch = true
    · have hfetched := lent_fetch hcontent
        (s := s.note [.started position total t]) ⟨h.stays, h.later, h.refers⟩ t
      rw [runTask_of_kind su hkind]
      unfold act
      rw [if_pos hfetch]
      split
      · rename_i out hout
        rw [hout] at hfetched
        exact ⟨hfetched.1, hfetched.2.stays, hfetched.2.later, hfetched.2.refers⟩
      · rename_i out reason hout
        rw [hout] at hfetched
        exact ⟨hfetched.1, hfetched.2.stays, hfetched.2.later, hfetched.2.refers⟩
      · rename_i out e hout
        rw [hout] at hfetched
        exact hfetched
    · have hworks := works_runTask su hkind (by simpa using hfetch) total position s
      have hlater : s.scratch.Later (su.runTask total position t s).1.scratch := by
        rw [hworks.scratch]
        exact ⟨rfl, rfl, Nat.le_add_right _ _⟩
      refine ⟨hlater, lent_step h (hworks.here htool) hlater fun x hx => ?_⟩
      refine (hworks.refers x hx).imp_right fun hmem => .inl ?_
      obtain ⟨n, stem, extension, -, hn, -, hextension, rfl⟩ := mem_takes hmem
      refine ⟨n, stem, extension, ?_, hextension.2, (hlater.pathAt_eq n stem extension).symm⟩
      rw [hworks.scratch]
      exact hn

section
variable {ts : Plan T} {files : Files} {n : Nat} {x : Path}

/-- A file that the run has referred to when it had run some of the first `n` tasks. -/
def Referred (su : Setup T) (ts : Plan T) (source : Path) (scratch : Scratch) (files : Files)
    (n : Nat) (x : Path) : Prop :=
  ∃ m ≤ n, ∃ s, su.upTo ts source scratch files m = (s, .ok ()) ∧ s.registry.Refers x

theorem lent_upTo (htool : su.tool.Stays) (hcontent : su.content.Offers scratch files.here)
    (hn : n ≤ ts.length) (hs : su.upTo ts source scratch files n = (s, .ok ())) :
    s.Lent scratch files.here source ∧ ∀ x, su.Referred ts source scratch files n x →
      x = source ∨ s.scratch.Offers files.here x := by
  refine upTo_induction (P := fun n s => s.Lent scratch files.here source ∧
    ∀ x, su.Referred ts source scratch files n x → x = source ∨ s.scratch.Offers files.here x)
    ?_ ?_ hn hs
  · have hstart : ((RunState.start source ts scratch files).note
        [.began ts.length source su.tool.name]).Lent scratch files.here source := by
      refine ⟨rfl, .refl _, ?_⟩
      rintro x (⟨name, hname⟩ | hcurrent | ⟨u, hu, -⟩)
      · left
        have hlookup : [(sourceName, source)].lookup name = some x := hname
        rw [List.lookup_cons] at hlookup
        split at hlookup
        · exact (Option.some.inj hlookup).symm
        · exact absurd hlookup nofun
      · exact .inl hcurrent.symm
      · exact absurd hu List.not_mem_nil
    refine ⟨hstart, ?_⟩
    rintro x ⟨m, hm, s, hs, hx⟩
    obtain rfl : m = 0 := Nat.le_zero.mp hm
    obtain ⟨rfl, -⟩ := Prod.mk.inj hs
    exact hstart.refers x hx
  · intro m t s' out ht hs' hbefore hrun
    obtain ⟨hlater, hlent⟩ := lent_runTask htool hcontent hbefore.1 ts.length (m + 1) t
    rw [hrun] at hlater hlent
    refine ⟨hlent, ?_⟩
    rintro x ⟨m', hm', s'', hs'', hx⟩
    rcases Nat.lt_or_eq_of_le hm' with hlt | rfl
    · have hold := hbefore.2 x ⟨m', Nat.le_of_lt_succ hlt, s'', hs'', hx⟩
      exact hold.imp_right hlater.offers_mono
    · rw [upTo_succ_of_ok ht hs', hrun] at hs''
      obtain ⟨rfl, -⟩ := Prod.mk.inj hs''
      exact hlent.refers x hx

/-! ## What is written to -/

omit [TimeScale T] [Spelled T] in
theorem position?_of_target? {event : Event T} {position : Nat} {p : Path}
    (h : event.target? = some (position, p)) : event.position? = some position := by
  cases event with
  | wrote q p' => exact congrArg (Option.map Prod.fst) h
  | invoked q i fs => exact congrArg (Option.map Prod.fst) h
  | _ => exact absurd h nofun

/-- Only a transformation writes to anything. -/
theorem keeps_of_mem_eventsOf {event : Event T} {total position q : Nat} {p : Path}
    (hevent : event ∈ su.eventsOf total position t s) (htarget : event.target? = some (q, p)) :
    ∃ k, Keeps t k position s (su.takes position t s) event := by
  have hposition := position?_of_target? htarget
  have hquiet {events : List (Event T)} (hmem : event ∈ events)
      (hevents : ∀ e ∈ events, e.target? = none) : False := by
    rw [hevents event hmem] at htarget
    exact absurd htarget (by simp)
  cases hkind : t.kind? with
  | none =>
    unfold eventsOf at hevent
    rw [runTask_of_unknown su hkind, RunState.note, List.drop_left] at hevent
    exact (hquiet hevent (List.forall_mem_singleton.mpr rfl)).elim
  | some k =>
    by_cases hfetch : k.isFetch = true
    · obtain ⟨events, htrace, hevents⟩ := trace_fetch su t (s.note [.started position total t])
      have hall : ∃ last, (su.runTask total position t s).1.trace =
          s.trace ++ (.started position total t :: events ++ [last]) ∧ last.target? = none := by
        rw [runTask_of_kind su hkind]
        unfold act
        rw [if_pos hfetch]
        have hfound := (advances_fetch su t (s.note [.started position total t])).2.2
        split
        · rename_i out hout
          rw [hout] at htrace
          have htrace : out.trace = s.trace ++ [.started position total t] ++ events := htrace
          exact ⟨.completed position total t, by simp [RunState.note, htrace], rfl⟩
        · rename_i out reason hout
          rw [hout] at htrace
          have htrace : out.trace = s.trace ++ [.started position total t] ++ events := htrace
          exact ⟨.skipped ⟨position, t.op.typeName, reason⟩, by simp [RunState.note, htrace], rfl⟩
        · rename_i out e hout
          exact absurd (congrArg Prod.snd hout) (hfound e)
      obtain ⟨last, hlast, hnone⟩ := hall
      unfold eventsOf at hevent
      rw [hlast, List.drop_left] at hevent
      refine (hquiet hevent (List.forall_mem_append.mpr
        ⟨List.forall_mem_cons.mpr ⟨rfl, fun e he => ?_⟩, List.forall_mem_singleton.mpr hnone⟩)).elim
      exact Option.eq_none_iff_forall_ne_some.mpr fun target htarget => absurd
        ((hevents e he).symm.trans (position?_of_target? htarget)) (by simp)
    · obtain ⟨events, htrace, hkeeps⟩ :=
        (works_runTask su hkind (by simpa using hfetch) total position s).events
      unfold eventsOf at hevent
      rw [htrace, List.drop_left] at hevent
      exact ⟨k, hkeeps event hevent⟩

omit [TimeScale T] [Spelled T] in
theorem refers_or_holds_of_inputsOf {r : Registry} {fs : Files} {position : Nat} {ps : List Path}
    {x : Path} (h : inputsOf r fs position t = .ok ps) (hx : x ∈ ps) :
    r.Refers x ∨ fs.holds x = true := by
  unfold inputsOf at h
  split_ifs at h
  · split at h
    · rw [← Except.ok.inj h] at hx
      exact .inr (Files.holds_of_isFile (List.mem_filter.mp hx).2)
    · rw [← Except.ok.inj h] at hx
      exact .inl (.inr (.inl (List.mem_singleton.mp hx).symm))
  · have hmem : some x ∈ t.inputs.map r.resolve? :=
      mapM_resolve_eq_ok h ▸ List.mem_map_of_mem hx
    obtain ⟨name, -, hname⟩ := List.mem_map.mp hmem
    exact .inl (.inl ⟨name, hname⟩)

omit [TimeScale T] [Spelled T] in
theorem refers_or_holds_of_attachmentOf {r : Registry} {fs : Files} {position : Nat} {x : Path}
    (h : attachmentOf r fs position t = .ok (some x)) : r.Refers x ∨ fs.holds x = true := by
  unfold attachmentOf at h
  split at h
  · rename_i p _
    cases hclip : resolve r t.op.typeName position p.clip with
    | error e =>
      rw [hclip] at h
      exact absurd h nofun
    | ok file =>
      rw [hclip] at h
      obtain rfl := Option.some.inj (Except.ok.inj h)
      exact .inl (.inl ⟨p.clip, resolve_eq_ok.mp hclip⟩)
  · rename_i p _
    split at h
    · rename_i image himage
      obtain rfl := Option.some.inj (Except.ok.inj h)
      exact .inl (.inl ⟨p.image, himage⟩)
    · split_ifs at h with _ hfile
      · obtain rfl := Option.some.inj (Except.ok.inj h)
        exact .inr (Files.holds_of_isFile hfile)
      · exact absurd (Except.ok.inj h) nofun
  · exact absurd (Except.ok.inj h) nofun

omit [TimeScale T] [Spelled T] in
/-- What a step is given is what the registry refers to, or a file of the plan that is there. -/
theorem refers_or_holds {k : Kind} {position : Nat} {step : StepFiles} {inputs : List Path}
    {x : Path} (h : Given t k position s step) (huses : t.op.Uses step inputs) (hx : x ∈ inputs) :
    s.registry.Refers x ∨ s.files.holds x = true := by
  rcases huses.mem hx with hinput | hattachment
  · exact refers_or_holds_of_inputsOf h.inputs hinput
  · exact refers_or_holds_of_attachmentOf (hattachment ▸ h.attachment)

/-- The paths that a task takes are apart from what the run was lent. -/
theorem apart_of_mem_takes {position : Nat} {p x : Path} (hhex : scratch.Hex)
    (h : s.Lent scratch here source) (hsource : s.files.holds source = true)
    (hvacant : ∀ p ∈ su.takes position t s, s.files.Vacant p)
    (hp : p ∈ su.takes position t s) (hx : x = source ∨ s.scratch.Offers here x) :
    s.files.Apart p x := by
  obtain rfl | hoffered := hx
  · exact hvacant p hp x hsource
  · obtain ⟨n, stem, extension, hn, -, hstem, hextension, rfl⟩ := mem_takes hp
    refine .of_lands ?_
    rw [h.stays]
    exact hoffered.lands_ne (h.later.hex hhex) hn hstem hextension

/-- They are apart from each other. -/
theorem pairwise_apart_takes (su : Setup T) (hhex : s.scratch.Hex) (position : Nat) (t : Task T) :
    (su.takes position t s).Pairwise fun p p' => s.files.Apart p' p := by
  obtain hnone | ⟨k, hone | ⟨stem, extension, hstem, hextension, htwo⟩⟩ :=
    takes_cases su position t s
  · rw [hnone]
    exact .nil
  · rw [hone]
    exact List.pairwise_singleton _ _
  · rw [htwo]
    refine List.pairwise_cons.mpr ⟨?_, List.pairwise_singleton _ _⟩
    have hissued : s.scratch.advance.Issued (s.scratch.next k.wireName "mp4") :=
      ⟨s.scratch.issued, _, _, Nat.lt_succ_self _, by decide, rfl⟩
    intro p hp
    obtain rfl := List.mem_singleton.mp hp
    exact .of_lands (hissued.lands_ne hhex (Nat.le_refl _) hstem hextension s.files.here)

/-- A transformation leaves what is at a path that is apart from those it takes. -/
theorem entry_runTask_iff (su : Setup T) (htool : su.tool.WritesOutput) {k : Kind}
    (hkind : t.kind? = some k) (hfetch : k.isFetch = false) (total position : Nat) {x : Path}
    (hx : ∀ p ∈ su.takes position t s, s.files.Apart p x) {e : Entry} :
    (su.runTask total position t s).1.files.entry x = .ok e ↔ s.files.entry x = .ok e := by
  obtain ⟨mid, hmid, hout⟩ := (works_runTask su hkind hfetch total position s).files htool
  have hfirst : s.files.SameTree mid ∧ (mid.entry x = .ok e ↔ s.files.entry x = .ok e) := by
    obtain rfl | ⟨p, hp, htouch⟩ := hmid
    · exact ⟨.refl _, Iff.rfl⟩
    · exact ⟨htouch.sameTree, (hx p hp).entry_iff htouch⟩
  rw [← hfirst.2]
  obtain hsame | ⟨p, hp, htouch⟩ := hout
  · rw [hsame]
  · exact ((hx p hp).sameTree hfirst.1).entry_iff htouch

/-- What a run writes to is apart from all that it has referred to before, and what a call writes
to is apart from what it reads. Each path that is taken is tracked. So no transformation changes
what the run has referred to, as long as the media tool writes at most its output. -/
theorem writes_apart (su : Setup T) (ts : Plan T) {source : Path} {scratch : Scratch}
    {files : Files} (hhex : scratch.Hex) (htool : su.tool.Stays)
    (hcontent : su.content.Offers scratch files.here)
    (hsource : ∀ n s, su.upTo ts source scratch files n = (s, .ok ()) →
      s.files.holds source = true)
    (hvacant : ∀ n t s, ts[n]? = some t → su.upTo ts source scratch files n = (s, .ok ()) →
      ∀ p ∈ su.takes (n + 1) t s, s.files.Vacant p) (output : Path) :
    let last := su.run ts source output scratch files
    (∀ event ∈ last.state.trace, ∀ position p, event.target? = some (position, p) →
      ∃ n t s, position = n + 1 ∧ ts[n]? = some t ∧
        su.upTo ts source scratch files n = (s, .ok ()) ∧ p ∈ su.takes position t s) ∧
    ∀ n t s, ts[n]? = some t → su.upTo ts source scratch files n = (s, .ok ()) →
      let fresh := su.takes (n + 1) t s
      let out := (su.runTask ts.length (n + 1) t s).1
      (∀ p ∈ fresh, ∀ x, x = source ∨ su.Referred ts source scratch files n x →
        s.files.Apart p x) ∧
      fresh.Pairwise (fun p p' => s.files.Apart p' p) ∧
      (∀ i fs, .invoked (n + 1) i fs ∈ last.state.trace →
        fresh.head? = some i.output ∧ ∀ p ∈ fresh, ∀ x ∈ i.inputs, fs.Apart p x) ∧
      (t.isFetch = false →
        out.registry.transients = s.registry.transients ++ fresh.map (⟨·, .produced⟩)) ∧
      (t.isFetch = false → su.tool.WritesOutput →
        ∀ x, x = source ∨ su.Referred ts source scratch files n x →
          ∀ e, out.files.entry x = .ok e ↔ s.files.entry x = .ok e) := by
  intro last
  have hlent {n : Nat} {t : Task T} {s : RunState T} (ht : ts[n]? = some t)
      (hs : su.upTo ts source scratch files n = (s, .ok ())) :
      s.Lent scratch files.here source ∧ ∀ x, su.Referred ts source scratch files n x →
        x = source ∨ s.scratch.Offers files.here x :=
    lent_upTo htool hcontent (Nat.le_of_lt (List.getElem?_eq_some_iff.mp ht).choose) hs
  refine ⟨fun event hevent position p htarget => ?_, fun n t s ht hs => ?_⟩
  · obtain ⟨n, t, s, rfl, ht, hs, hmem⟩ := mem_trace_run hevent (position?_of_target? htarget)
    refine ⟨n, t, s, rfl, ht, hs, ?_⟩
    obtain ⟨k, hkeeps⟩ := keeps_of_mem_eventsOf hmem htarget
    exact hkeeps.target_mem htarget
  · obtain ⟨hrun, hreferred⟩ := hlent ht hs
    have hapart : ∀ p ∈ su.takes (n + 1) t s, ∀ x,
        x = source ∨ su.Referred ts source scratch files n x → s.files.Apart p x :=
      fun p hp x hx => apart_of_mem_takes hhex hrun (hsource n s hs) (hvacant n t s ht hs) hp
        (hx.elim .inl (hreferred x))
    have hpairwise := pairwise_apart_takes su (hrun.later.hex hhex) (n + 1) t
    have hheld {x : Path} (hx : s.registry.Refers x) :
        su.Referred ts source scratch files n x := ⟨n, Nat.le_refl n, s, hs, hx⟩
    have hkindOf (hfetch : t.isFetch = false) :
        t.kind? = none ∨ ∃ k, t.kind? = some k ∧ k.isFetch = false := by
      cases hkind : t.kind? with
      | none => exact .inl rfl
      | some k => exact .inr ⟨k, rfl, by simpa [Task.isFetch, hkind] using hfetch⟩
    refine ⟨hapart, hpairwise, fun i fs hevent => ?_, fun hfetch => ?_,
      fun hfetch hwrites x hx e => ?_⟩
    · obtain ⟨s', hs', hmem⟩ := state_of_mem_trace ht hevent rfl
      obtain ⟨rfl, -⟩ := Prod.mk.inj (hs.symm.trans hs')
      obtain ⟨k, -, hhead, htree, step, hgiven, huses⟩ := keeps_of_mem_eventsOf hmem rfl
      refine ⟨hhead, fun p hp x hx => ?_⟩
      refine Files.Apart.sameTree ?_ htree
      rcases refers_or_holds hgiven huses hx with hrefers | hholds
      · exact hapart p hp x (.inr (hheld hrefers))
      · exact hvacant n t s ht hs p hp x hholds
    · obtain hunknown | ⟨k, hkind, hk⟩ := hkindOf hfetch
      · rw [takes_of_unknown hunknown, runTask_of_unknown su hunknown]
        exact (List.append_nil _).symm
      · rw [(works_runTask su hkind hk ts.length (n + 1) s).transients]
        exact Registry.transients_foldl_track
          (fun p hp u hu => (hapart p hp u.path (.inr (hheld (.inr (.inr ⟨u, hu, rfl⟩))))).unlike)
          (hpairwise.imp fun h => h.unlike)
    · obtain hunknown | ⟨k, hkind, hk⟩ := hkindOf hfetch
      · rw [runTask_of_unknown su hunknown]
        exact Iff.rfl
      · exact entry_runTask_iff su hwrites hkind hk ts.length (n + 1) fun p hp => hapart p hp x hx

end

end Setup

/-! ## A library -/

/-- What a library answers with is the path that it has taken. -/
theorem Library.offers_source {T : Type} [TimeScale T] [Spelled T] (l : Library) (host : Host)
    (scratch : Scratch) (here : Place) : (l.source host : ContentSource T).Offers scratch here := by
  intro n request s fs _
  change s.Later (l.fetch host request s fs).scratch ∧
    (l.fetch host request s fs).files.here = fs.here ∧
    ∀ p, (l.fetch host request s fs).answer = .ok (some p) →
      (l.fetch host request s fs).scratch.Offers here p
  unfold fetch
  split
  · exact ⟨.refl s, rfl, nofun⟩
  · split
    · exact ⟨.refl s, rfl, nofun⟩
    · rename_i p log _
      dsimp only
      split
      · exact ⟨(Scratch.Later.refl s).advance, rfl, nofun⟩
      · rename_i out hcopy
        obtain ⟨bytes, -, hwrite⟩ := Files.copy_eq_ok hcopy
        refine ⟨(Scratch.Later.refl s).advance, (Files.touches_of_write hwrite).here, ?_⟩
        rintro q ⟨⟩
        refine .inl ⟨s.issued, _, _, Nat.lt_succ_self _, ?_, rfl⟩
        cases he : p.extension? with
        | none => decide
        | some e => exact Text.slash_not_mem_lowercaseAscii (Path.slash_not_mem_extension he)

namespace Setup

/-- The joining of the plan on the desk writes its output and its list apart from the source and
from the picture that was found. -/
theorem deskPlan_writes_apart :
    let upTo := deskSetup.upTo deskPlan ⟨"/in.mp4"⟩ deskScratch desk
    (upTo 1).1.registry.resolve? "x" = some ⟨"/scratch/stock_image_logo_000_0a1b2c3d.png"⟩ ∧
      ∀ p ∈ [(⟨"/scratch/concat_001_0a1b2c3d.mp4"⟩ : Path),
          ⟨"/scratch/concat_002_0a1b2c3d.txt"⟩],
        (upTo 1).1.files.Apart p ⟨"/in.mp4"⟩ ∧
          (upTo 1).1.files.Apart p ⟨"/scratch/stock_image_logo_000_0a1b2c3d.png"⟩ := by
  intro upTo
  have hhex : deskScratch.Hex := Scratch.hex_of_all fun _ =>
    show "0a1b2c3d".toList.all _ = true by decide
  have hsource : ∀ n s, upTo n = (s, .ok ()) → s.files.holds ⟨"/in.mp4"⟩ = true := by
    have hfirst : ∀ n < 4, (upTo n).1.files.holds ⟨"/in.mp4"⟩ = true := by decide +kernel
    intro n s hs
    have hs : s = (upTo n).1 := by rw [hs]
    rw [hs]
    rcases Nat.lt_or_ge n 4 with hlt | hge
    · exact hfirst n hlt
    · rw [show upTo n = upTo 3 from upTo_of_length_le (Nat.le_of_succ_le hge)]
      exact hfirst 3 (by decide)
  have hvacant : ∀ n t s, deskPlan[n]? = some t → upTo n = (s, .ok ()) →
      ∀ p ∈ deskSetup.takes (n + 1) t s, s.files.Vacant p := by
    have hfree : ∀ n < 3, (deskPlan[n]?.all fun t => (deskSetup.takes (n + 1) t (upTo n).1).all
        fun p => ((upTo n).1.files.locate p).toOption.isSome && !(upTo n).1.files.holds p) =
          true := by
      decide +kernel
    intro n t s ht hs p hp
    have hfreep := hfree n (List.getElem?_eq_some_iff.mp ht).choose
    rw [ht, hs] at hfreep
    obtain ⟨hlocate, hholds⟩ : (s.files.locate p).toOption.isSome = true ∧
        s.files.holds p = false := by
      simpa using List.all_eq_true.mp hfreep p hp
    cases hq : s.files.locate p with
    | error e => simp [hq, Except.toOption] at hlocate
    | ok q => exact (Files.vacant_iff hq).mpr hholds
  have hx : (upTo 1).1.registry.resolve? "x" =
      some ⟨"/scratch/stock_image_logo_000_0a1b2c3d.png"⟩ := by decide +kernel
  have hone : ∃ s, upTo 1 = (s, .ok ()) := by
    have hok : (upTo 1).2.toOption.isSome = true := by decide +kernel
    cases hs : upTo 1 with
    | mk s answer =>
      cases answer with
      | ok u => exact ⟨s, rfl⟩
      | error e => simp [hs, Except.toOption] at hok
  obtain ⟨s, hs⟩ := hone
  obtain ⟨-, hall⟩ := writes_apart deskSetup deskPlan hhex stamp_writesOutput.stays
    (Library.offers_source _ _ _ _) hsource hvacant ⟨"/out.mp4"⟩
  have hapart := (hall 1 _ s rfl hs).1
  have htakes : deskSetup.takes 2 ⟨.concat ⟨[]⟩, some "y", [sourceName, "x"]⟩ (upTo 1).1 =
      [⟨"/scratch/concat_001_0a1b2c3d.mp4"⟩, ⟨"/scratch/concat_002_0a1b2c3d.txt"⟩] := by
    decide +kernel
  rw [hs] at hx htakes ⊢
  refine ⟨hx, fun p hp => ⟨?_, ?_⟩⟩
  · exact hapart p (htakes ▸ hp) _ (.inl rfl)
  · exact hapart p (htakes ▸ hp) _ (.inr ⟨1, Nat.le_refl 1, s, hs, .inl ⟨"x", hx⟩⟩)

end Setup

end Montage
