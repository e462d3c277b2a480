import Montage.Proofs.Plan.Backward

/-!
# What a plan lays over the video

The overlays of a plan in its order, apart from the tasks around them, and what becomes of them in
each stage of the repair. Names leave them as they are, an assembly gives one for each of its gaps,
durations move their ends alone, and the number cuts the list short.
-/

namespace Montage
open TimeScale

namespace Plan

section
variable {T : Type}

def insert? (t : Task T) : Option (VideoOverlay T) :=
  match t.op with
  | .overlayVideo p => some p
  | _ => none

/-- The overlays of a plan in its order. -/
def inserts (ts : Plan T) : List (VideoOverlay T) := ts.filterMap insert?

theorem insert?_eq_some {t : Task T} {p : VideoOverlay T} :
    insert? t = some p ↔ t.op = .overlayVideo p := by
  cases hop : t.op <;> simp [insert?, hop]

theorem isSome_insert? (t : Task T) : (insert? t).isSome = t.isKind .overlayVideo := by
  obtain ⟨op, output, inputs⟩ := t
  cases op <;> rfl

theorem insert?_eq_none {t : Task T} (h : t.isKind .overlayVideo = false) : insert? t = none := by
  rw [← isSome_insert?] at h
  exact Option.isNone_iff_eq_none.mp (Option.isSome_eq_false_iff.mp h)

theorem inserts_append (ts us : Plan T) : inserts (ts ++ us) = inserts ts ++ inserts us :=
  List.filterMap_append

theorem inserts_cons (t : Task T) (ts : Plan T) :
    inserts (t :: ts) = (insert? t).toList ++ inserts ts := by
  cases h : insert? t <;> simp [inserts, h]

theorem length_inserts (ts : Plan T) : (inserts ts).length = ts.count .overlayVideo := by
  rw [inserts, List.length_filterMap_eq_countP, count]
  congr 1
  funext t
  exact isSome_insert? t

theorem inserts_eq_nil {ts : Plan T} : inserts ts = [] ↔ ts.count .overlayVideo = 0 := by
  rw [← length_inserts, List.length_eq_zero_iff]

theorem inserts_map {f : Task T → Task T} (hf : ∀ t, insert? (f t) = insert? t) (ts : Plan T) :
    inserts (ts.map f) = inserts ts := by
  rw [inserts, List.filterMap_map]
  exact List.filterMap_congr fun t _ => hf t

/-- Removing other tasks than overlays leaves the overlays. -/
theorem inserts_filter {keep : Task T → Bool}
    (hkeep : ∀ t, t.isKind .overlayVideo = true → keep t = true) (ts : Plan T) :
    inserts (ts.filter keep) = inserts ts := by
  rw [inserts, List.filterMap_filter]
  apply List.filterMap_congr
  intro t _
  split_ifs with h
  · rfl
  · rw [insert?_eq_none]
    exact Bool.eq_false_iff.mpr fun hkind => h (hkeep t hkind)

/-! ## Names -/

theorem inserts_nameFrom (used : List String) (n i : Nat) (ts : Plan T) :
    inserts (nameFrom used n i ts).plan = inserts ts := by
  induction ts generalizing used n i with
  | nil => rfl
  | cons t rest ih =>
    simp only [nameFrom]
    split_ifs
    · rw [inserts_cons, inserts_cons, ih]
      rfl
    · rw [inserts_cons, inserts_cons, ih]

theorem count_nameFrom (used : List String) (n i : Nat) (ts : Plan T) :
    (nameFrom used n i ts).plan.count .overlayVideo = ts.count .overlayVideo := by
  rw [← length_inserts, inserts_nameFrom, length_inserts]

/-! ## Number -/

theorem inserts_splitInserts (n : Nat) (ts : Plan T) :
    inserts (splitInserts n ts).1 = (inserts ts).take n := by
  fun_induction splitInserts n ts with
  | case1 => simp [inserts]
  | case2 t rest ht kept removed heq ih =>
    rw [heq, List.take_zero] at ih
    rw [List.take_zero, ih]
  | case3 t rest ht n kept removed heq ih =>
    rw [heq] at ih
    obtain ⟨p, hp⟩ := Option.isSome_iff_exists.mp ((isSome_insert? t).trans ht)
    rw [inserts_cons, inserts_cons, ih, hp]
    rfl
  | case4 n t rest ht kept removed heq ih =>
    rw [heq] at ih
    rw [inserts_cons, inserts_cons, ih, insert?_eq_none (Bool.eq_false_iff.mpr ht)]
    rfl

theorem inserts_truncateInserts (n : Nat) (ts : Plan T) :
    inserts (truncateInserts n ts).plan = (inserts ts).take n := by
  by_cases h : ts.count .overlayVideo ≤ n
  · rw [truncateInserts_of_count_le h, List.take_of_length_le (by rwa [length_inserts])]
    rfl
  · rw [truncateInserts, if_neg h, ← inserts_splitInserts]
    dsimp only
    rw [inserts_map, inserts_filter]
    · intro t ht
      rw [orphan?_of_overlay ht]
      rfl
    · exact fun t => rfl

end

/-! ## Durations -/

/-- An overlay that ends when the rules say. -/
def settled (r : InsertRules Rat) (p : VideoOverlay Rat) : VideoOverlay Rat :=
  { p with stop := some (r.settledEnd p) }

theorem insert?_clampTask (r : InsertRules Rat) (t : Task Rat) :
    insert? (clampTask r t).plan = (insert? t).map (settled r) := by
  cases hinsert : insert? t with
  | some p =>
    obtain ⟨op, output, inputs⟩ := t
    obtain rfl := insert?_eq_some.mp hinsert
    simp only [clampTask]
    split_ifs with hstop
    · rw [beq_iff_eq] at hstop
      show some p = some { p with stop := some (r.settledEnd p) }
      rw [← hstop]
    · rfl
  | none =>
    obtain ⟨op, output, inputs⟩ := t
    cases op with
    | overlayVideo p => exact absurd hinsert (Option.some_ne_none p)
    | _ => rfl

theorem inserts_clampDurations (r : InsertRules Rat) (ts : Plan Rat) :
    inserts (clampDurations r ts).plan = (inserts ts).map (settled r) := by
  simp only [clampDurations, List.map_map, inserts, List.filterMap_map, List.map_filterMap]
  exact List.filterMap_congr fun t _ => insert?_clampTask r t

end Plan

/-! ## Assemblies -/

namespace Assembly
open Plan
variable {T : Type} [TimeScale T] {a : Assembly T} {ts before behind : Plan T} {t : Task T}

/-- What a clip laid over a gap shows. -/
def cover (gap : T × T) (clip : String) : VideoOverlay T :=
  ⟨Tenth.nearest gap.1, some (Tenth.nearest gap.2), clip⟩

theorem inserts_zipWith_overlay (gaps : List (T × T)) (clips : List String) :
    inserts (List.zipWith overlay gaps clips) = List.zipWith cover gaps clips := by
  induction gaps generalizing clips with
  | nil => rfl
  | cons gap gaps ih =>
    cases clips with
    | nil => rfl
    | cons clip clips =>
      rw [List.zipWith_cons_cons, List.zipWith_cons_cons, inserts_cons, ih]
      rfl

theorem inserts_overlays (a : Assembly T) :
    inserts a.overlays = List.zipWith cover a.gaps a.clips := by
  rw [← inserts_zipWith_overlay, overlays]
  split
  · next heq => rw [heq]
  · next u rest heq =>
    rw [heq, inserts_cons, inserts_cons]
    rfl

omit [TimeScale T] in
theorem inserts_without (a : Assembly T) (first : Nat) {us : Plan T} (hsub : us.Sublist ts)
    (h : ts.count .overlayVideo = 0) : inserts (a.without first us) = [] := by
  have hle := ((a.without_sublist first us).trans hsub).countP_le (p := Task.isKind .overlayVideo)
  apply inserts_eq_nil.mpr
  unfold Plan.count at h ⊢
  omega

/-- Once the gaps of an assembly are filled, the plan lays nothing else over the video. -/
theorem SplitsAt.inserts_fillGaps (hs : a.SplitsAt ts before t behind) :
    inserts (a.fillGaps ts).plan = List.zipWith cover a.gaps a.clips := by
  have hbefore : before.Sublist ts := hs.split ▸ List.sublist_append_left _ _
  have hbehind : behind.Sublist ts :=
    hs.split ▸ (List.sublist_cons_self t behind).trans (List.sublist_append_right _ _)
  have hbounding : inserts [a.bounding] = [] := rfl
  rw [fillGaps_plan, inserts_filter fun u => useful_of_overlay, hs.rebuild, inserts_append,
    inserts_append, inserts_append, hbounding, inserts_without a 0 hbefore hs.no_overlay,
    inserts_without a _ hbehind hs.no_overlay, inserts_overlays, List.nil_append, List.append_nil,
    List.append_nil]

end Assembly

end Montage
