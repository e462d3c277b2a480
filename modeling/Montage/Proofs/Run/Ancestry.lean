import Montage.Proofs.Plan.Issue
import Montage.Proofs.Run.Order

/-!
# What files are made from

An artifact is made by an operation from what was made before it, down to the source and to files
that were there. So much can be said of the files of a run without their paths, from the list of the
tasks that it completes. Main statement: the files that a call reads are made as is said of what its
task reads. Plans that are run at different places can be compared in this way.
-/

namespace Montage

/-- What a file is made from. -/
inductive Lineage (T : Type) where
  | source
  /-- A file that was there. -/
  | found (p : Path)
  /-- What an operation made from what it read. -/
  | made (op : Operation T) (reads : List (Lineage T))

/-- How that is made which names stand for, and the current file. -/
structure Ancestry (T : Type) where
  names : List (String × Lineage T)
  current : Lineage T

namespace Task
variable {T : Type}

/-- The operation alone says what the task works on: it is a fetch, or it joins files by their
paths. -/
def standsAlone (t : Task T) : Bool := t.isFetch || t.isKind .concat && t.inputs.isEmpty

/-- The task works on the current file. -/
structure ReadsCurrent (t : Task T) : Prop where
  inputs : t.inputs = []
  alone : t.standsAlone = false

theorem ReadsCurrent.not_concat {t : Task T} (h : t.ReadsCurrent) : t.isKind .concat = false := by
  have halone := h.alone
  rw [standsAlone, h.inputs] at halone
  simpa using (Bool.or_eq_false_iff.mp halone).2

end Task

namespace Ancestry
variable {T : Type}

/-- Nothing is made yet. -/
def start : Ancestry T := ⟨[(sourceName, .source)], .source⟩

/-- A name that is not given stands for a file that was there. -/
def ofName (l : Ancestry T) (name : String) : Lineage T :=
  (l.names.lookup name).getD (.found ⟨name⟩)

/-- What a task reads first. -/
def primary (l : Ancestry T) (t : Task T) : Lineage T :=
  match t.inputs with
  | [] => l.current
  | name :: _ => l.ofName name

/-- What a task reads. -/
def readBy (l : Ancestry T) (t : Task T) : List (Lineage T) :=
  if t.standsAlone then []
  else if t.isKind .concat then t.inputs.map l.ofName
  else l.primary t :: t.shown?.toList.map l.ofName

/-- When a task is completed. -/
def after (l : Ancestry T) (t : Task T) : Ancestry T :=
  let artifact := Lineage.made t.op (l.readBy t)
  { names := (t.output.map (·, artifact)).toList ++ l.names
    current := if t.isFetch then l.current else artifact }

/-- When the tasks of a list are completed, one after the other. -/
def of (done : Plan T) : Ancestry T := done.foldl after start

variable {l l' : Ancestry T} {t : Task T} {name : String}

theorem of_append (done : Plan T) (t : Task T) : of (done ++ [t]) = (of done).after t := by
  simp [of]

theorem current_after : (l.after t).current =
    if t.isFetch then l.current else .made t.op (l.readBy t) := rfl

theorem lookup_after : (l.after t).names.lookup name =
    if t.output = some name then some (.made t.op (l.readBy t)) else l.names.lookup name := by
  unfold after
  cases houtput : t.output with
  | none => simp
  | some given =>
    by_cases hname : name = given
    · simp [hname]
    · have hne : (name == given) = false := by simpa using hname
      simp [List.lookup_cons, hne, Ne.symm hname]

theorem ofName_after : (l.after t).ofName name =
    if t.output = some name then .made t.op (l.readBy t) else l.ofName name := by
  unfold ofName
  rw [lookup_after]
  split_ifs <;> rfl

/-! ## What a task reads -/

theorem readBy_of_standsAlone (h : t.standsAlone = true) : l.readBy t = [] := if_pos h

/-- A task that works on the current file reads it first. -/
theorem readBy_of_readsCurrent (h : t.ReadsCurrent) :
    l.readBy t = l.current :: t.shown?.toList.map l.ofName := by
  have hprimary : l.primary t = l.current := by rw [primary, h.inputs]
  rw [readBy, if_neg (by simp [h.alone]), if_neg (by simp [h.not_concat]), hprimary]

/-- What a task reads depends on the names that it refers to, and on the current file if it works on
that. -/
theorem readBy_congr (hnames : ∀ name ∈ t.referencedNames, l'.ofName name = l.ofName name)
    (hcurrent : t.ReadsCurrent → l'.current = l.current) : l'.readBy t = l.readBy t := by
  rw [Task.referencedNames_eq, List.forall_mem_append] at hnames
  obtain ⟨hinputs, hshown⟩ := hnames
  unfold readBy
  rw [List.map_congr_left hinputs, List.map_congr_left hshown]
  split_ifs with halone
  · rfl
  · rfl
  · have hprimary : l'.primary t = l.primary t := by
      unfold primary
      split
      · next hnil => exact hcurrent ⟨hnil, Bool.eq_false_iff.mpr halone⟩
      · next name rest heq => exact hinputs name (heq ▸ List.mem_cons_self)
    rw [hprimary]

theorem current_eq_of_readBy (h : t.ReadsCurrent) (hreads : l'.readBy t = l.readBy t) :
    l'.current = l.current := by
  rw [readBy_of_readsCurrent h, readBy_of_readsCurrent h] at hreads
  exact (List.cons.inj hreads).1

end Ancestry

/-! ## The files of a run -/

/-- The file `p` is made as is said, by these tasks with these calls. -/
inductive Stems {T : Type} (source : Path) (made : List (Made T))
    (calls : List (Nat × Invocation)) : Path → Lineage T → Prop
  | source : Stems source made calls source .source
  | found (p : Path) : Stems source made calls p (.found p)
  | alone {m : Made T} (hm : m ∈ made) (halone : m.task.standsAlone = true) :
      Stems source made calls m.artifact (.made m.task.op [])
  | called {m : Made T} {i : Invocation} {reads : List (Lineage T)} (hm : m ∈ made)
      (hcall : (m.position, i) ∈ calls) (houtput : i.output = m.artifact)
      (hreads : List.Forall₂ (Stems source made calls) i.inputs reads) :
      Stems source made calls m.artifact (.made m.task.op reads)

/-- What names stand for behind the tasks `before`, and the current file, are made as is said. -/
structure Traced {T : Type} (source : Path) (made : List (Made T))
    (calls : List (Nat × Invocation)) (before : List (Made T)) : Prop where
  named : ∀ name, Option.Rel (Stems source made calls) (Made.named source before name)
    ((Ancestry.of (before.map Made.task)).names.lookup name)
  current : Stems source made calls (Made.chain source before)
    (Ancestry.of (before.map Made.task)).current

namespace Traced
variable {T : Type} {source : Path} {made before : List (Made T)}
  {calls : List (Nat × Invocation)} {t : Task T} {i : Invocation}

theorem initial : Traced source made calls [] where
  named name := by
    by_cases hname : name = sourceName
    · subst hname
      exact .some .source
    · have hne : (name == sourceName) = false := by simpa using hname
      simp only [Made.named, Ancestry.of, Ancestry.start, List.reverse_nil, List.find?_nil,
        hname, if_false, List.map_nil, List.foldl_nil, List.lookup_cons, hne, List.lookup_nil]
      exact .none
  current := .source

theorem stems_ofName (h : Traced source made calls before) {name : String} {p : Path}
    (hp : Made.named source before name = some p) :
    Stems source made calls p ((Ancestry.of (before.map Made.task)).ofName name) := by
  have hnamed := h.named name
  unfold Ancestry.ofName
  rw [hp] at hnamed
  cases hlookup : (Ancestry.of (before.map Made.task)).names.lookup name with
  | none => rw [hlookup] at hnamed; cases hnamed
  | some x =>
    rw [hlookup] at hnamed
    cases hnamed with
    | some hstems => exact hstems

/-- A name that is not given is the path of a file. -/
theorem stems_ofName_getD (h : Traced source made calls before) (name : String) :
    Stems source made calls ((Made.named source before name).getD ⟨name⟩)
      ((Ancestry.of (before.map Made.task)).ofName name) := by
  cases hp : Made.named source before name with
  | some p => exact h.stems_ofName hp
  | none =>
    have hnamed := h.named name
    unfold Ancestry.ofName
    rw [hp] at hnamed
    cases hlookup : (Ancestry.of (before.map Made.task)).names.lookup name with
    | none => exact .found ⟨name⟩
    | some x => rw [hlookup] at hnamed; cases hnamed

theorem stems_primary (h : Traced source made calls before) {p : Path}
    (hp : t.primary? source before = some p) :
    Stems source made calls p ((Ancestry.of (before.map Made.task)).primary t) := by
  unfold Task.primary? at hp
  unfold Ancestry.primary
  cases hinputs : t.inputs with
  | nil =>
    rw [hinputs] at hp
    rw [← Option.some.inj hp]
    exact h.current
  | cons name rest =>
    rw [hinputs] at hp
    exact h.stems_ofName hp

theorem stems_inputs (h : Traced source made calls before) {names : List String}
    {ps : List Path} (hps : ps.map some = names.map (Made.named source before)) :
    List.Forall₂ (Stems source made calls) ps
      (names.map (Ancestry.of (before.map Made.task)).ofName) := by
  induction names generalizing ps with
  | nil =>
    obtain rfl : ps = [] := by simpa using hps
    exact .nil
  | cons name names ih =>
    cases ps with
    | nil => exact absurd hps.symm (List.cons_ne_nil _ _)
    | cons p ps =>
      obtain ⟨hp, hrest⟩ := List.cons.inj hps
      exact .cons (h.stems_ofName hp.symm) (ih hrest)

/-- What a call reads that belongs to a task which finds these tasks completed. -/
theorem stems_reads (h : Traced source made calls before) (halone : t.standsAlone = false)
    (hreads : t.Reads source before i) :
    List.Forall₂ (Stems source made calls) i.inputs
      ((Ancestry.of (before.map Made.task)).readBy t) := by
  obtain ⟨hfetch, hnamed⟩ := Bool.or_eq_false_iff.mp halone
  unfold Task.Reads at hreads
  rw [Ancestry.readBy, if_neg (Bool.eq_false_iff.mp halone)]
  cases hop : t.op with
  | fetchVideo p => simp [Task.isFetch, Task.kind?, hop, Operation.kind?, Kind.isFetch] at hfetch
  | fetchImage p => simp [Task.isFetch, Task.kind?, hop, Operation.kind?, Kind.isFetch] at hfetch
  | concat p =>
    have hkind : t.isKind .concat = true := by simp [Task.isKind, Task.kind?, hop, Operation.kind?]
    rw [hop] at hreads
    dsimp only at hreads
    rw [if_neg (by simpa [hkind] using hnamed)] at hreads
    rw [if_pos hkind]
    exact h.stems_inputs hreads
  | overlayVideo p =>
    rw [hop] at hreads
    obtain ⟨primary, clip, hprimary, hclip, hi⟩ := hreads
    simp only [hi, Task.isKind, Task.kind?, Task.shown?, hop, Operation.kind?]
    exact .cons (h.stems_primary hprimary) (.cons (h.stems_ofName hclip) .nil)
  | addImageOverlay p =>
    rw [hop] at hreads
    obtain ⟨primary, hprimary, hi⟩ := hreads
    simp only [hi, Task.isKind, Task.kind?, Task.shown?, hop, Operation.kind?]
    exact .cons (h.stems_primary hprimary) (.cons (h.stems_ofName_getD p.image) .nil)
  | _ =>
    rw [hop] at hreads
    obtain ⟨primary, hprimary, hi⟩ := hreads
    simp only [hi, Task.isKind, Task.kind?, Task.shown?, hop, Operation.kind?]
    exact .cons (h.stems_primary hprimary) .nil

/-- One task more, whose artifact is made as is said. -/
theorem append (h : Traced source made calls before) {m : Made T}
    (hm : Stems source made calls m.artifact
      (.made m.task.op ((Ancestry.of (before.map Made.task)).readBy m.task))) :
    Traced source made calls (before ++ [m]) where
  named name := by
    rw [List.map_append, List.map_singleton, Ancestry.of_append, Ancestry.lookup_after,
      Made.named_append]
    split_ifs
    · exact .some hm
    · exact h.named name
  current := by
    rw [List.map_append, List.map_singleton, Ancestry.of_append, Ancestry.current_after,
      Made.chain_append]
    split_ifs
    · exact h.current
    · exact hm

end Traced

/-! ## Runs of plans -/

namespace Made
variable {T : Type} {made : List (Made T)}

/-- What was made before a task, and the task itself. -/
theorem filter_lt_of_pairwise (h : made.Pairwise fun a b => a.position < b.position) {m : Made T}
    (hm : m ∈ made) : ∃ front behind, made = front ++ m :: behind ∧
      made.filter (fun a => a.position < m.position) = front ∧
      made.filter (fun a => a.position < m.position + 1) = front ++ [m] := by
  obtain ⟨front, behind, rfl⟩ := List.append_of_mem hm
  obtain ⟨-, hbehind, hfront⟩ := List.pairwise_append.mp h
  have hbefore : ∀ a ∈ front, a.position < m.position :=
    fun a ha => hfront a ha m List.mem_cons_self
  have hafter : ∀ a ∈ behind, m.position < a.position := (List.pairwise_cons.mp hbehind).1
  refine ⟨front, behind, rfl, ?_, ?_⟩
  · have hall : front.filter (fun a => a.position < m.position) = front :=
      List.filter_eq_self.mpr fun a ha => decide_eq_true (hbefore a ha)
    have hnone : (m :: behind).filter (fun a => a.position < m.position) = [] := by
      refine List.filter_eq_nil_iff.mpr (List.forall_mem_cons.mpr ⟨by simp, fun a ha => ?_⟩)
      exact of_decide_eq_true.mt (Nat.lt_asymm (hafter a ha))
    rw [List.filter_append, hall, hnone, List.append_nil]
  · have hall : front.filter (fun a => a.position < m.position + 1) = front :=
      List.filter_eq_self.mpr fun a ha => decide_eq_true (Nat.lt_succ_of_lt (hbefore a ha))
    have hnone : behind.filter (fun a => a.position < m.position + 1) = [] :=
      List.filter_eq_nil_iff.mpr fun a ha =>
        of_decide_eq_true.mt (Nat.not_lt.mpr (Nat.succ_le_of_lt (hafter a ha)))
    rw [List.filter_append, hall, List.filter_cons,
      if_pos (decide_eq_true (Nat.lt_succ_self m.position)), hnone]

end Made

/-- Where plans are run: with what, on what, and among which files. -/
structure Bench (T : Type) where
  setup : Setup T
  source : Path
  scratch : Scratch
  files : Files

namespace Bench
variable {T : Type} [TimeScale T] [Spelled T]

def run (b : Bench T) (ts : Plan T) (output : Path) : Setup.Finished T :=
  b.setup.run ts b.source output b.scratch b.files

/-- What the run of a plan makes. -/
def made (b : Bench T) (ts : Plan T) : List (Made T) :=
  b.setup.lineage ts b.source b.scratch b.files

/-- What is made by the first `n` tasks. -/
def madeUpTo (b : Bench T) (ts : Plan T) (n : Nat) : List (Made T) :=
  (b.made ts).filter fun m => m.position < n + 1

/-- What the task behind the first `n` finds. -/
def ancestry (b : Bench T) (ts : Plan T) (n : Nat) : Ancestry T :=
  .of ((b.madeUpTo ts n).map Made.task)

/-- The run completes the task behind the first `n`. -/
def Completes (b : Bench T) (ts : Plan T) (n : Nat) : Prop :=
  ∃ m ∈ b.made ts, m.position = n + 1

variable (b : Bench T) (ts : Plan T)

theorem ordered (output : Path) :
    Ordered b.setup b.source [] (b.made ts) 1 ts (b.run ts output).state.trace :=
  Setup.ordered_run b.setup ts b.source output b.scratch b.files

variable {b ts} {n : Nat} {t : Task T}

theorem madeUpTo_zero : b.madeUpTo ts 0 = [] := by
  apply List.filter_eq_nil_iff.mpr
  intro m hm
  have hfirst := ((b.ordered ts ⟨""⟩).artifacts m hm).1
  simpa using Nat.ne_of_gt hfirst

/-- A task that is completed comes behind what the tasks before it made. -/
theorem madeUpTo_succ (ht : ts[n]? = some t) (h : b.Completes ts n) :
    ∃ p, b.madeUpTo ts (n + 1) = b.madeUpTo ts n ++ [⟨n + 1, t, p⟩] := by
  obtain ⟨⟨position, task, p⟩, hm, rfl⟩ := h
  have hordered := b.ordered ts ⟨""⟩
  obtain ⟨-, htask, -⟩ := hordered.artifacts _ hm
  obtain rfl : t = task := Option.some.inj (ht.symm.trans htask)
  obtain ⟨front, behind, -, hfront, hnext⟩ := Made.filter_lt_of_pairwise hordered.successive hm
  exact ⟨p, hnext.trans (congrArg (· ++ [_]) hfront.symm)⟩

theorem madeUpTo_succ_of_not (h : ¬ b.Completes ts n) :
    b.madeUpTo ts (n + 1) = b.madeUpTo ts n := by
  apply List.filter_congr
  intro m hm
  have hne : m.position ≠ n + 1 := fun heq => h ⟨m, hm, heq⟩
  simp only [decide_eq_decide]
  omega

theorem ancestry_zero : b.ancestry ts 0 = .start := by
  unfold ancestry
  rw [madeUpTo_zero]
  rfl

theorem ancestry_succ (ht : ts[n]? = some t) (h : b.Completes ts n) :
    b.ancestry ts (n + 1) = (b.ancestry ts n).after t := by
  obtain ⟨p, hmade⟩ := madeUpTo_succ ht h
  unfold ancestry
  rw [hmade, List.map_append, List.map_singleton, Ancestry.of_append]

theorem completes_iff : b.Completes ts n ↔ n + 1 ∈ (b.made ts).map Made.position :=
  List.mem_map.symm

theorem ancestry_succ_of_not (h : ¬ b.Completes ts n) :
    b.ancestry ts (n + 1) = b.ancestry ts n := by
  unfold ancestry
  rw [madeUpTo_succ_of_not h]

/-- What a task finds can be read off the positions of the tasks that are completed. -/
theorem ancestry_eq (b : Bench T) (ts : Plan T) (n : Nat) :
    b.ancestry ts n = .of ((((b.made ts).map Made.position).filter (· < n + 1)).filterMap
      fun position => ts[position - 1]?) := by
  have htasks : ∀ m ∈ b.madeUpTo ts n, some m.task = ts[m.position - 1]? := fun m hm =>
    ((b.ordered ts ⟨""⟩).artifacts m (List.mem_filter.mp hm).1).2.1.symm
  unfold ancestry
  rw [List.filter_map, List.filterMap_map, ← List.filterMap_eq_map]
  exact congrArg Ancestry.of (List.filterMap_congr htasks)

/-- What was made before a task of the run is made as is said. -/
theorem traced (b : Bench T) (ts : Plan T) (output : Path) (n : Nat) :
    Traced b.source (b.made ts) ((b.run ts output).state.trace.filterMap Event.call?)
      (b.madeUpTo ts n) := by
  have hordered := b.ordered ts output
  induction n with
  | zero =>
    rw [madeUpTo_zero]
    exact .initial
  | succ n ih =>
    by_cases h : b.Completes ts n
    · obtain ⟨m, hm, hposition⟩ := h
      obtain ⟨-, htask, hcall, -⟩ := hordered.artifacts m hm
      obtain ⟨front, behind, -, hfront, hnext⟩ := Made.filter_lt_of_pairwise hordered.successive hm
      have hbefore : b.madeUpTo ts n = front := by rw [← hfront, hposition]; rfl
      have hmade : b.madeUpTo ts (n + 1) = b.madeUpTo ts n ++ [m] := by
        rw [hbefore, ← hnext, hposition]
        rfl
      rw [hmade]
      apply ih.append
      cases halone : m.task.standsAlone with
      | true =>
        rw [Ancestry.readBy_of_standsAlone halone]
        exact .alone hm halone
      | false =>
        obtain ⟨i, hi, houtput⟩ := hcall (Bool.or_eq_false_iff.mp halone).1
        obtain ⟨u, k, -, hu, -, -, hreads⟩ := hordered.calls _ hi
        obtain rfl : m.task = u := Option.some.inj (htask.symm.trans hu)
        rw [List.nil_append, hfront, ← hbefore] at hreads
        exact .called hm hi houtput (ih.stems_reads halone hreads)
    · rw [madeUpTo_succ_of_not h]
      exact ih

/-- A call reads files that are made as is said of what its task reads, unless the task joins files
by their paths. -/
theorem stems_of_call (b : Bench T) (ts : Plan T) (output : Path) {i : Invocation}
    (hcall : (n + 1, i) ∈ (b.run ts output).state.trace.filterMap Event.call?) :
    ∃ t, ts[n]? = some t ∧ (t.standsAlone = false →
      List.Forall₂ (Stems b.source (b.made ts)
        ((b.run ts output).state.trace.filterMap Event.call?)) i.inputs
          ((b.ancestry ts n).readBy t)) := by
  obtain ⟨t, k, -, ht, -, -, hreads⟩ := (b.ordered ts output).calls _ hcall
  rw [List.nil_append] at hreads
  exact ⟨t, ht, fun halone => (b.traced ts output n).stems_reads halone hreads⟩

end Bench

end Montage
