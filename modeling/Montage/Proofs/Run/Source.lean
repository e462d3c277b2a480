import Montage.Proofs.Run.Progress

/-!
# What the name of the source stands for

At the start of a run the name of the source stands for the file that the run starts from. Nothing
keeps a task from giving its output that name. Main statement: at each point of a run the name
stands for the artifact of the last completed task that gives it, and for the source as long as
there is none; a task that reads it first works on that file. So in a plan that gives the name to
no output a task can count on the untouched source, and in one that does it cannot.
-/

namespace Montage

namespace Made
variable {T : Type} {source : Path} {made : List (Made T)} {name : String}

/-- The last of the completed tasks that give a name. -/
def lastGiving (made : List (Made T)) (name : String) : Option (Made T) :=
  (made.filter fun m => m.task.output == some name).getLast?

theorem named_eq (source : Path) (made : List (Made T)) (name : String) :
    named source made name = match lastGiving made name with
      | some m => some m.artifact
      | none => if name = sourceName then some source else none := by
  have hlast : made.reverse.find? (fun m => m.task.output == some name) = lastGiving made name :=
    List.getLast?_filter.symm
  exact congrArg (fun last? : Option (Made T) => match last? with
    | some m => some m.artifact
    | none => if name = sourceName then some source else none) hlast

/-- The file that the name of the source stands for. -/
def sourceFile (source : Path) (made : List (Made T)) : Path :=
  match lastGiving made sourceName with
  | some m => m.artifact
  | none => source

theorem named_sourceName (source : Path) (made : List (Made T)) :
    named source made sourceName = some (sourceFile source made) := by
  rw [named_eq]
  unfold sourceFile
  cases lastGiving made sourceName with
  | none => simp
  | some m => rfl

theorem lastGiving_eq_none (h : ∀ m ∈ made, m.task.output ≠ some name) :
    lastGiving made name = none := by
  have hnone : made.filter (fun m => m.task.output == some name) = [] :=
    List.filter_eq_nil_iff.mpr fun m hm => by simpa using h m hm
  unfold lastGiving
  rw [hnone]
  rfl

end Made

namespace Task
variable {T : Type} {source : Path} {made : List (Made T)} {t : Task T} {i : Invocation}

/-- The first file of a call is what the first name of its task stands for. -/
theorem Reads.head? (h : t.Reads source made i) {name : String}
    (hname : t.inputs.head? = some name) : i.inputs.head? = Made.named source made name := by
  obtain ⟨rest, hinputs⟩ : ∃ rest, t.inputs = name :: rest := by
    cases hall : t.inputs with
    | nil => simp [hall] at hname
    | cons a rest => exact ⟨rest, by simpa [hall] using hname⟩
  have hprimary : t.primary? source made = Made.named source made name := by
    unfold primary?
    rw [hinputs]
  rw [← hprimary]
  unfold Task.Reads at h
  split at h
  · rw [hinputs, if_neg (List.cons_ne_nil name rest), List.map_cons] at h
    rw [hprimary]
    cases hfiles : i.inputs with
    | nil => simp [hfiles] at h
    | cons p ps =>
      rw [hfiles, List.map_cons] at h
      exact (List.cons.inj h).1
  · obtain ⟨primary, clip, hp, -, hreads⟩ := h
    rw [hp, hreads, List.head?_cons]
  · obtain ⟨primary, hp, hreads⟩ := h
    rw [hp, hreads, List.head?_cons]
  · obtain ⟨primary, hp, hreads⟩ := h
    rw [hp, hreads, List.head?_cons]

end Task

namespace Setup
variable {T : Type} [TimeScale T] [Spelled T]

/-- At each point of a run the name of the source stands for what the last completed task that
gives it has made, and that is what a task reads whose first input it is. As long as none of the
tasks gives it, it stands for the source. -/
theorem source_resolves (su : Setup T) (ts : Plan T) (source output : Path) (scratch : Scratch)
    (files : Files) (n : Nat) :
    let made := su.madeUpTo ts source scratch files n
    (su.upTo ts source scratch files n).1.registry.resolve? sourceName =
        some (Made.sourceFile source made) ∧
      (∀ t i fs, ts[n]? = some t → t.inputs.head? = some sourceName →
        .invoked (n + 1) i fs ∈ (su.run ts source output scratch files).state.trace →
        i.inputs.head? = some (Made.sourceFile source made)) ∧
      ((∀ t ∈ ts.take n, t.output ≠ some sourceName) → Made.sourceFile source made = source) := by
  intro made
  obtain ⟨hreflects, hmade⟩ := reflects_upTo su ts source scratch files n
  refine ⟨?_, fun t i fs ht hname hcall => ?_, fun hnone => ?_⟩
  · rw [hreflects.named, Made.named_sourceName]
  · obtain ⟨m, u, s, hposition, hu, hs, hevent⟩ := mem_trace_run hcall rfl
    obtain rfl : n = m := Nat.succ.inj hposition
    obtain rfl : t = u := Option.some.inj (ht.symm.trans hu)
    rw [(reads_of_mem_eventsOf hs hevent).2.head? hname, Made.named_sourceName]
  · unfold Made.sourceFile
    rw [Made.lastGiving_eq_none fun m hm => hnone m.task (hmade m hm).2]

/-- A smaller video under the name of the source, and a task that asks for the source. -/
def shadowingPlan : Plan Float :=
  [⟨.resize ⟨640, none⟩, some sourceName, []⟩, ⟨.trim ⟨1, none⟩, none, [sourceName]⟩]

/-- Behind the first task the name does not stand for the source any more, and the second task
works on what the first has made. -/
theorem shadowingPlan_loses_source :
    (deskSetup.upTo shadowingPlan ⟨"/in.mp4"⟩ deskScratch desk 1).1.registry.resolve? sourceName =
        some ⟨"/scratch/resize_000_0a1b2c3d.mp4"⟩ ∧
      ((deskSetup.run shadowingPlan ⟨"/in.mp4"⟩ ⟨"/out.mp4"⟩ deskScratch
        desk).state.trace.filterMap Event.call?).map (fun c => (c.1, c.2.inputs)) =
          [(1, [⟨"/in.mp4"⟩]), (2, [⟨"/scratch/resize_000_0a1b2c3d.mp4"⟩])] := by
  decide +kernel

end Setup

end Montage
