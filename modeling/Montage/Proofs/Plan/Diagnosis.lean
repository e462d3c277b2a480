import Montage.Proofs.Plan.Issue

/-!
# What each issue of a plan stands for

The issues of a plan are found in one passage along its tasks. Each can be said without it: which
task gives which name, which task gives it first, and which task reads a name that no task before
it gives. Main statement: a plan has no issue if and only if each of its types is known, no two of
its tasks give one name and each name that is read is that of the source or is given by a task
before; and the issues at a position are a repetition, with the task that gave the name first, and
one reference for each name that is read too early, with the task that gives the name first or, if
no task gives it, without.
-/

namespace Montage

namespace Issue

/-- The position of the task that an issue is about. -/
def position : Issue → Nat
  | duplicateOutput i _ _ => i
  | forwardReference i _ _ => i
  | unknownReference i _ => i
  | unrecognizedType i _ => i

/-- The name that an issue says is read too early. -/
def early? : Issue → Option String
  | forwardReference _ name _ => some name
  | unknownReference _ name => some name
  | _ => none

end Issue

namespace Plan
variable {T : Type} {ts before rest : Plan T} {t : Task T} {i j : Nat} {name : String} {e : Issue}

/-! ## Who gives and reads a name -/

/-- The task at a position gives a name. -/
def Gives (ts : Plan T) (i : Nat) (name : String) : Prop :=
  ∃ t, ts[i]? = some t ∧ t.output = some name

/-- The task at a position is the first that gives a name. -/
def GivesFirst (ts : Plan T) (i : Nat) (name : String) : Prop :=
  ts.Gives i name ∧ ∀ j < i, ¬ ts.Gives j name

/-- The task at a position reads a name: as an input, as the clip of an overlay, or as the image
of an overlay that some task of the plan gives. -/
def ReadsAt (ts : Plan T) (i : Nat) (name : String) : Prop :=
  ∃ t, ts[i]? = some t ∧ (name ∈ t.inputs ∨ (∃ p, t.op = .overlayVideo p ∧ name = p.clip) ∨
    ∃ p, t.op = .addImageOverlay p ∧ name = p.image ∧ ∃ j, ts.Gives j name)

/-- The task at a position reads a name that is neither that of the source nor given before. -/
def ReadsEarly (ts : Plan T) (i : Nat) (name : String) : Prop :=
  ts.ReadsAt i name ∧ name ≠ sourceName ∧ ∀ j < i, ¬ ts.Gives j name

theorem mem_names_iff_gives : name ∈ names ts ↔ ∃ i, ts.Gives i name := by
  rw [mem_names]
  constructor
  · rintro ⟨t, ht, hname⟩
    obtain ⟨i, hi⟩ := List.mem_iff_getElem?.mp ht
    exact ⟨i, t, hi, hname⟩
  · rintro ⟨i, t, hi, hname⟩
    exact ⟨t, List.mem_of_getElem? hi, hname⟩

theorem gives_take : Gives (ts.take i) j name ↔ j < i ∧ ts.Gives j name := by
  unfold Gives
  rw [List.getElem?_take]
  split_ifs with h <;> simp [h]

theorem mem_names_take : name ∈ names (ts.take i) ↔ ∃ j < i, ts.Gives j name := by
  simp only [mem_names_iff_gives, gives_take]

theorem declaredAt?_eq_some : ts.declaredAt? name = some i ↔ ts.GivesFirst i name := by
  rw [declaredAt?, List.findIdx?_eq_some_iff_getElem]
  constructor
  · rintro ⟨hi, hgives, hfirst⟩
    refine ⟨⟨ts[i], List.getElem?_eq_getElem hi, by simpa using hgives⟩, ?_⟩
    rintro j hj ⟨t, ht, hname⟩
    obtain ⟨hlt, rfl⟩ := List.getElem?_eq_some_iff.mp ht
    exact hfirst j hj (by simpa using hname)
  · rintro ⟨⟨t, ht, hname⟩, hfirst⟩
    obtain ⟨hi, rfl⟩ := List.getElem?_eq_some_iff.mp ht
    refine ⟨hi, by simpa using hname, fun j hj hgives => ?_⟩
    exact hfirst j hj ⟨ts[j], List.getElem?_eq_getElem (Nat.lt_trans hj hi), by simpa using hgives⟩

theorem declaredAt?_eq_none : ts.declaredAt? name = none ↔ ∀ i, ¬ ts.Gives i name := by
  rw [← Option.not_isSome_iff_eq_none, isSome_declaredAt?, mem_names_iff_gives, not_exists]

theorem givesFirst_take : GivesFirst (ts.take i) j name ↔ j < i ∧ ts.GivesFirst j name := by
  unfold GivesFirst
  simp only [gives_take]
  constructor
  · rintro ⟨⟨hj, hgives⟩, hfirst⟩
    exact ⟨hj, hgives, fun k hk hgave => hfirst k hk ⟨Nat.lt_trans hk hj, hgave⟩⟩
  · rintro ⟨hj, hgives, hfirst⟩
    exact ⟨⟨hj, hgives⟩, fun k hk hgave => hfirst k hk hgave.2⟩

theorem mem_reads_iff_readsAt (ht : ts[i]? = some t) : name ∈ ts.reads t ↔ ts.ReadsAt i name := by
  rw [mem_reads_iff, mem_names_iff_gives]
  simp [ReadsAt, ht]

/-! ## The issues at a position -/

theorem issueOfRead_known (h : name = sourceName ∨ name ∈ names before) :
    ts.issueOfRead before name = none := by
  rw [← isSome_declaredAt?] at h
  exact if_pos (by simpa using h)

theorem issueOfRead_early (h : ¬ (name = sourceName ∨ name ∈ names before)) :
    ts.issueOfRead before name = some (match ts.declaredAt? name with
      | some first => .forwardReference before.length name first
      | none => .unknownReference before.length name) := by
  rw [← isSome_declaredAt?] at h
  rw [issueOfRead, if_neg (by simpa using h)]
  cases ts.declaredAt? name <;> rfl

theorem mem_issueOfRead : e ∈ ts.issueOfRead before name ↔
    ¬ (name = sourceName ∨ name ∈ names before) ∧
      ((∃ first, ts.declaredAt? name = some first ∧
          e = .forwardReference before.length name first) ∨
        (ts.declaredAt? name = none ∧ e = .unknownReference before.length name)) := by
  by_cases h : name = sourceName ∨ name ∈ names before
  · simp [issueOfRead_known h, h]
  · rw [issueOfRead_early h]
    cases ts.declaredAt? name <;> simp [h, eq_comm]

theorem early?_issueOfRead : (ts.issueOfRead before name).bind Issue.early? =
    if name = sourceName ∨ name ∈ names before then none else some name := by
  by_cases h : name = sourceName ∨ name ∈ names before
  · rw [issueOfRead_known h, if_pos h]
    rfl
  · rw [issueOfRead_early h, if_neg h]
    cases ts.declaredAt? name <;> rfl

theorem mem_issuesOfTask : e ∈ ts.issuesOfTask before t ↔
    (∃ typeName params, t.op = .unrecognized typeName params ∧
      e = .unrecognizedType before.length typeName) ∨
    (∃ name ∈ ts.reads t, e ∈ ts.issueOfRead before name) ∨
    ∃ name first, t.output = some name ∧ before.declaredAt? name = some first ∧
      e = .duplicateOutput before.length name first := by
  unfold issuesOfTask
  rw [List.mem_append, List.mem_append, List.mem_filterMap, or_assoc]
  apply or_congr
  · cases t.op <;> simp
  · apply or_congr Iff.rfl
    cases t.output with
    | none => simp
    | some name => cases hfirst : before.declaredAt? name <;> simp [hfirst]

theorem position_of_mem_issuesOfTask (he : e ∈ ts.issuesOfTask before t) :
    e.position = before.length := by
  obtain ⟨_, _, -, rfl⟩ | ⟨name, -, hread⟩ | ⟨_, _, -, -, rfl⟩ := mem_issuesOfTask.mp he
  · rfl
  · obtain ⟨-, ⟨_, -, rfl⟩ | ⟨-, rfl⟩⟩ := mem_issueOfRead.mp hread <;> rfl
  · rfl

theorem length_le_position (he : e ∈ ts.issuesFrom before rest) :
    before.length ≤ e.position := by
  induction rest generalizing before with
  | nil => exact absurd he List.not_mem_nil
  | cons t rest ih =>
    obtain hfront | hbehind := List.mem_append.mp he
    · exact Nat.le_of_eq (position_of_mem_issuesOfTask hfront).symm
    · have hle := ih hbehind
      rw [List.length_append] at hle
      exact Nat.le_trans (Nat.le_add_right _ _) hle

/-- What is found at a position is what is found of the task there behind those before it. -/
theorem issuesFrom_at (ts before rest : Plan T) (i : Nat) :
    (ts.issuesFrom before rest).filter (fun e => e.position = before.length + i) =
      (rest[i]?).elim [] (ts.issuesOfTask (before ++ rest.take i)) := by
  induction rest generalizing before i with
  | nil => rfl
  | cons t rest ih =>
    have hfront : ∀ e ∈ ts.issuesOfTask before t, e.position = before.length := fun e =>
      position_of_mem_issuesOfTask
    rw [issuesFrom, List.filter_append]
    cases i with
    | zero =>
      have hbehind : ∀ e ∈ ts.issuesFrom (before ++ [t]) rest, before.length < e.position := by
        intro e he
        have hle := length_le_position he
        rwa [List.length_append, List.length_singleton, Nat.add_one_le_iff] at hle
      have hfirst : (ts.issuesOfTask before t).filter (fun e => e.position = before.length + 0) =
          ts.issuesOfTask before t :=
        List.filter_eq_self.mpr fun e he => by simp [hfront e he]
      have hrest : (ts.issuesFrom (before ++ [t]) rest).filter
          (fun e => e.position = before.length + 0) = [] :=
        List.filter_eq_nil_iff.mpr fun e he => by simpa using Nat.ne_of_gt (hbehind e he)
      rw [hfirst, hrest]
      simp
    | succ i =>
      have hnext := ih (before ++ [t]) i
      rw [List.length_append, List.length_singleton, Nat.add_right_comm, Nat.add_assoc] at hnext
      rw [List.filter_eq_nil_iff.mpr fun e he => by simp [hfront e he], List.nil_append, hnext]
      simp

theorem issues_at (ht : ts[i]? = some t) :
    ts.issues.filter (fun e => e.position = i) = ts.issuesOfTask (ts.take i) t := by
  have hfound := ts.issuesFrom_at [] ts i
  simpa [ht, issues] using hfound

theorem mem_issues : e ∈ ts.issues ↔
    ∃ t, ts[e.position]? = some t ∧ e ∈ ts.issuesOfTask (ts.take e.position) t := by
  have hfound := ts.issuesFrom_at [] ts e.position
  simp only [List.length_nil, Nat.zero_add, List.nil_append] at hfound
  have hself : e ∈ ts.issues ↔ e ∈ ts.issues.filter fun f => f.position = e.position := by simp
  rw [hself, issues, hfound]
  cases ts[e.position]? <;> simp

theorem length_take_of_getElem? (ht : ts[i]? = some t) : (ts.take i).length = i :=
  List.length_take_of_le (Nat.le_of_lt (List.getElem?_eq_some_iff.mp ht).1)

/-! ## The issues of a plan -/

theorem unrecognizedType_mem_issues {typeName : String} :
    .unrecognizedType i typeName ∈ ts.issues ↔
      ∃ t params, ts[i]? = some t ∧ t.op = .unrecognized typeName params := by
  rw [mem_issues]
  constructor
  · rintro ⟨t, ht, he⟩
    obtain ⟨_, params, hop, heq⟩ | ⟨name, -, hread⟩ | ⟨_, _, -, -, heq⟩ := mem_issuesOfTask.mp he
    · obtain rfl := (Issue.unrecognizedType.inj heq).2
      exact ⟨t, params, ht, hop⟩
    · obtain ⟨-, ⟨_, -, heq⟩ | ⟨-, heq⟩⟩ := mem_issueOfRead.mp hread <;> exact absurd heq nofun
    · exact absurd heq nofun
  · rintro ⟨t, params, ht, hop⟩
    refine ⟨t, ht, mem_issuesOfTask.mpr (Or.inl ⟨typeName, params, hop, ?_⟩)⟩
    rw [Issue.position, length_take_of_getElem? ht]

theorem duplicateOutput_mem_issues {first : Nat} :
    .duplicateOutput i name first ∈ ts.issues ↔
      ts.Gives i name ∧ first < i ∧ ts.GivesFirst first name := by
  rw [mem_issues]
  constructor
  · rintro ⟨t, ht, he⟩
    obtain ⟨_, _, -, heq⟩ | ⟨name, -, hread⟩ | ⟨_, _, houtput, hbefore, heq⟩ :=
      mem_issuesOfTask.mp he
    · exact absurd heq nofun
    · obtain ⟨-, ⟨_, -, heq⟩ | ⟨-, heq⟩⟩ := mem_issueOfRead.mp hread <;> exact absurd heq nofun
    · obtain ⟨-, rfl, rfl⟩ := Issue.duplicateOutput.inj heq
      exact ⟨⟨t, ht, houtput⟩, givesFirst_take.mp (declaredAt?_eq_some.mp hbefore)⟩
  · rintro ⟨⟨t, ht, houtput⟩, hfirst⟩
    refine ⟨t, ht, mem_issuesOfTask.mpr (Or.inr (Or.inr ⟨name, first, houtput, ?_, ?_⟩))⟩
    · exact declaredAt?_eq_some.mpr (givesFirst_take.mpr hfirst)
    · rw [Issue.position, length_take_of_getElem? ht]

/-- What is found for the names that are read is found for those that are read too early. -/
theorem mem_issues_of_early? (hearly : e.early?.isSome = true) : e ∈ ts.issues ↔
    ∃ name, ts.ReadsEarly e.position name ∧
      ((∃ first, ts.GivesFirst first name ∧ e = .forwardReference e.position name first) ∨
        ((∀ j, ¬ ts.Gives j name) ∧ e = .unknownReference e.position name)) := by
  rw [mem_issues]
  constructor
  · rintro ⟨t, ht, he⟩
    obtain ⟨_, _, -, heq⟩ | ⟨name, hread, hissue⟩ | ⟨_, _, -, -, heq⟩ := mem_issuesOfTask.mp he
    · rw [heq] at hearly
      exact absurd hearly nofun
    · obtain ⟨hknown, hkind⟩ := mem_issueOfRead.mp hissue
      obtain ⟨hsource, hbefore⟩ := not_or.mp hknown
      rw [mem_names_take] at hbefore
      rw [length_take_of_getElem? ht, declaredAt?_eq_none] at hkind
      simp only [declaredAt?_eq_some] at hkind
      exact ⟨name, ⟨(mem_reads_iff_readsAt ht).mp hread, hsource,
        fun j hj hgives => hbefore ⟨j, hj, hgives⟩⟩, hkind⟩
    · rw [heq] at hearly
      exact absurd hearly nofun
  · rintro ⟨name, ⟨hread, hsource, hbefore⟩, hkind⟩
    obtain ⟨t, ht, -⟩ := id hread
    refine ⟨t, ht, mem_issuesOfTask.mpr (Or.inr (Or.inl
      ⟨name, (mem_reads_iff_readsAt ht).mpr hread, mem_issueOfRead.mpr ⟨?_, ?_⟩⟩))⟩
    · rw [mem_names_take, not_or]
      exact ⟨hsource, fun ⟨j, hj, hgives⟩ => hbefore j hj hgives⟩
    · rw [length_take_of_getElem? ht, declaredAt?_eq_none]
      simpa only [declaredAt?_eq_some] using hkind

theorem forwardReference_mem_issues {first : Nat} :
    .forwardReference i name first ∈ ts.issues ↔
      ts.ReadsEarly i name ∧ ts.GivesFirst first name := by
  rw [mem_issues_of_early? rfl]
  constructor
  · rintro ⟨_, hearly, ⟨_, hfirst, heq⟩ | ⟨-, heq⟩⟩
    · obtain ⟨-, rfl, rfl⟩ := Issue.forwardReference.inj heq
      exact ⟨hearly, hfirst⟩
    · exact absurd heq nofun
  · rintro ⟨hearly, hfirst⟩
    exact ⟨name, hearly, Or.inl ⟨first, hfirst, rfl⟩⟩

theorem unknownReference_mem_issues : .unknownReference i name ∈ ts.issues ↔
    ts.ReadsEarly i name ∧ ∀ j, ¬ ts.Gives j name := by
  rw [mem_issues_of_early? rfl]
  constructor
  · rintro ⟨_, hearly, ⟨_, -, heq⟩ | ⟨hnowhere, heq⟩⟩
    · exact absurd heq nofun
    · obtain ⟨-, rfl⟩ := Issue.unknownReference.inj heq
      exact ⟨hearly, hnowhere⟩
  · rintro ⟨hearly, hnowhere⟩
    exact ⟨name, hearly, Or.inr ⟨hnowhere, rfl⟩⟩

/-- There is one issue for each time that a name is read too early, in the order of reading. -/
theorem early_issues_at (ht : ts[i]? = some t) :
    (ts.issues.filter fun e => e.position = i).filterMap Issue.early? =
      (ts.reads t).filter fun name => ¬ (name = sourceName ∨ name ∈ names (ts.take i)) := by
  have hreads : (ts.reads t).filterMap (fun name =>
      (ts.issueOfRead (ts.take i) name).bind Issue.early?) =
      (ts.reads t).filter fun name => ¬ (name = sourceName ∨ name ∈ names (ts.take i)) := by
    rw [← List.filterMap_eq_filter]
    refine List.filterMap_congr fun name _ => ?_
    rw [early?_issueOfRead]
    split_ifs with h <;> simp [Option.guard, h]
  rw [issues_at ht, issuesOfTask, List.filterMap_append, List.filterMap_append,
    List.filterMap_filterMap, hreads]
  have hrest : ∀ types repetitions : List Issue, (∀ e ∈ types, e.early? = none) →
      (∀ e ∈ repetitions, e.early? = none) → ∀ found : List String,
      types.filterMap Issue.early? ++ found ++ repetitions.filterMap Issue.early? = found := by
    intro types repetitions htypes hrepetitions found
    rw [List.filterMap_eq_nil_iff.mpr htypes, List.filterMap_eq_nil_iff.mpr hrepetitions,
      List.nil_append, List.append_nil]
  apply hrest
  · split <;> simp [Issue.early?]
  · split
    · split <;> simp [Issue.early?]
    · exact List.forall_mem_nil _

theorem Gives.first (h : ts.Gives i name) : ∃ first ≤ i, ts.GivesFirst first name := by
  have hsome := isSome_declaredAt?.mpr (mem_names_iff_gives.mpr ⟨i, h⟩)
  obtain ⟨first, hfirst⟩ := Option.isSome_iff_exists.mp hsome
  have hgives := declaredAt?_eq_some.mp hfirst
  exact ⟨first, Nat.le_of_not_lt fun hlt => hgives.2 i hlt h, hgives⟩

/-- The first task that gives a name which is read too early does not come before. -/
theorem ReadsEarly.le (h : ts.ReadsEarly i name) (hfirst : ts.GivesFirst j name) : i ≤ j :=
  Nat.le_of_not_lt fun hlt => h.2.2 j hlt hfirst.1

/-- A read that comes too early is reported, whether the name is given somewhere or not. -/
theorem ReadsEarly.exists_issue (h : ts.ReadsEarly i name) : ∃ e, e ∈ ts.issues := by
  by_cases hgiven : ∃ j, ts.Gives j name
  · obtain ⟨j, hj⟩ := hgiven
    obtain ⟨first, -, hfirst⟩ := hj.first
    exact ⟨_, forwardReference_mem_issues.mpr ⟨h, hfirst⟩⟩
  · exact ⟨_, unknownReference_mem_issues.mpr ⟨h, not_exists.mp hgiven⟩⟩

/-- Of two tasks that give one name, one at least is reported. -/
theorem Gives.exists_issue (hi : ts.Gives i name) (hj : ts.Gives j name) (hne : i ≠ j) :
    ∃ e, e ∈ ts.issues := by
  obtain ⟨first, hle, hfirst⟩ := hi.first
  by_cases heq : first = i
  · have hnot : ¬ j < first := fun hlt => hfirst.2 j hlt hj
    have hlt : first < j := Nat.lt_of_le_of_ne (Nat.le_of_not_lt hnot) (heq ▸ hne)
    exact ⟨_, duplicateOutput_mem_issues.mpr ⟨hj, hlt, hfirst⟩⟩
  · have hlt : first < i := Nat.lt_of_le_of_ne hle heq
    exact ⟨_, duplicateOutput_mem_issues.mpr ⟨hi, hlt, hfirst⟩⟩

theorem issues_eq_nil_iff : ts.issues = [] ↔
    (∀ t ∈ ts, ∀ typeName params, t.op ≠ .unrecognized typeName params) ∧
    (∀ i j name, ts.Gives i name → ts.Gives j name → i = j) ∧
    ∀ i name, ts.ReadsAt i name → name = sourceName ∨ ∃ j < i, ts.Gives j name := by
  rw [List.eq_nil_iff_forall_not_mem]
  constructor
  · intro hnone
    refine ⟨fun t ht typeName params hop => ?_, fun i j name hi hj => ?_, fun i name hread => ?_⟩
    · obtain ⟨i, hi⟩ := List.mem_iff_getElem?.mp ht
      exact hnone _ (unrecognizedType_mem_issues.mpr ⟨t, params, hi, hop⟩)
    · by_contra hne
      obtain ⟨e, he⟩ := hi.exists_issue hj hne
      exact hnone e he
    · by_contra hearly
      rw [not_or, not_exists] at hearly
      have hreads : ts.ReadsEarly i name :=
        ⟨hread, hearly.1, fun j hj hgives => hearly.2 j ⟨hj, hgives⟩⟩
      obtain ⟨e, he⟩ := hreads.exists_issue
      exact hnone e he
  · rintro ⟨htypes, hdistinct, hbehind⟩ e he
    have hknown : ∀ i name, ¬ ts.ReadsEarly i name := by
      rintro i name ⟨hread, hsource, hbefore⟩
      obtain h | ⟨j, hj, hgives⟩ := hbehind i name hread
      · exact hsource h
      · exact hbefore j hj hgives
    cases e with
    | unrecognizedType i typeName =>
      obtain ⟨t, params, ht, hop⟩ := unrecognizedType_mem_issues.mp he
      exact htypes t (List.mem_of_getElem? ht) typeName params hop
    | duplicateOutput i name first =>
      obtain ⟨hgives, hlt, hfirst⟩ := duplicateOutput_mem_issues.mp he
      exact absurd (hdistinct first i name hfirst.1 hgives) (Nat.ne_of_lt hlt)
    | forwardReference i name first => exact hknown i name (forwardReference_mem_issues.mp he).1
    | unknownReference i name => exact hknown i name (unknownReference_mem_issues.mp he).1

/-- A plan has no issue if and only if nothing is wrong with it, and what its issues say is
wrong. -/
theorem issues_diagnosis (ts : Plan T) :
    (ts.issues = [] ↔
      (∀ t ∈ ts, ∀ typeName params, t.op ≠ .unrecognized typeName params) ∧
      (∀ i j name, ts.Gives i name → ts.Gives j name → i = j) ∧
      ∀ i name, ts.ReadsAt i name → name = sourceName ∨ ∃ j < i, ts.Gives j name) ∧
    (∀ i name first, .duplicateOutput i name first ∈ ts.issues ↔
      ts.Gives i name ∧ first < i ∧ ts.GivesFirst first name) ∧
    (∀ i name first, .forwardReference i name first ∈ ts.issues ↔
      ts.ReadsEarly i name ∧ ts.GivesFirst first name) ∧
    (∀ i name first, .forwardReference i name first ∈ ts.issues → i ≤ first) ∧
    (∀ i name, .unknownReference i name ∈ ts.issues ↔
      ts.ReadsEarly i name ∧ ∀ j, ¬ ts.Gives j name) ∧
    ∀ i t, ts[i]? = some t →
      (ts.issues.filter fun e => e.position = i).filterMap Issue.early? =
        (ts.reads t).filter fun name => ¬ (name = sourceName ∨ name ∈ names (ts.take i)) := by
  refine ⟨issues_eq_nil_iff, fun _ _ _ => duplicateOutput_mem_issues,
    fun _ _ _ => forwardReference_mem_issues, fun i name first he => ?_,
    fun _ _ => unknownReference_mem_issues, fun _ _ => early_issues_at⟩
  obtain ⟨hearly, hfirst⟩ := forwardReference_mem_issues.mp he
  exact hearly.le hfirst

/-- A size that is made out of itself, and a clip that is joined with what is not there. -/
def tangledPlan : Plan Nat :=
  [⟨.resize ⟨640, none⟩, some "a", ["a", sourceName]⟩,
    ⟨.concat ⟨[]⟩, some "a", ["a", "void", "b", "void"]⟩,
    ⟨.fetchImage ⟨"ocean", [], "landscape"⟩, some "b", []⟩]

/-- A task may be the first that gives what it reads itself. -/
theorem issues_of_tangledPlan :
    tangledPlan.issues ≠ [] ∧ tangledPlan.ReadsEarly 0 "a" ∧ tangledPlan.GivesFirst 0 "a" ∧
      tangledPlan.Gives 1 "a" ∧ 1 ≤ 2 ∧ (∀ j, ¬ tangledPlan.Gives j "void") ∧
      (tangledPlan.issues.filter fun e => e.position = 1).filterMap Issue.early? =
        ["void", "b", "void"] := by
  obtain ⟨hnone, hrepetition, hforward, hbehind, hunknown, hread⟩ := issues_diagnosis tangledPlan
  obtain ⟨hearly, hfirst⟩ := (hforward 0 "a" 0).mp (by decide +kernel)
  refine ⟨fun h => ?_, hearly, hfirst, ((hrepetition 1 "a" 0).mp (by decide +kernel)).1,
    hbehind 1 "b" 2 (by decide +kernel), ((hunknown 1 "void").mp (by decide +kernel)).2,
    (hread 1 _ rfl).trans (by decide +kernel)⟩
  exact absurd ((hnone.mp h).2.1 0 1 "a" hfirst.1
    ((hrepetition 1 "a" 0).mp (by decide +kernel)).1) nofun

end Plan

end Montage
