import Mathlib.Data.List.Sort
import Montage.Proofs.Json.Ordered

/-!
# Members under other keys

A value may be looked for under several keys. Where no two of them hold a value other than null, the
value can be brought under one of the keys, and nothing that is looked up under another key changes;
neither does what is found under the first of the keys that holds anything. Members whose keys
ascend are known by what can be looked up in them.
-/

namespace Montage

namespace Json
variable {T : Type}

def isNull : Json T → Bool
  | .null => true
  | _ => false

theorem isNull_iff {j : Json T} : j.isNull = true ↔ j = .null := by
  cases j <;> simp [isNull]

end Json

namespace Members
variable {T : Type} {ms ms' : Members T} {k key : String} {keys : List String} {v : Json T}
  {f : Json T → Json T}

/-! ## What can be looked up -/

theorem lookup_eq_some_iff_mem {l : List (String × Json T)} (h : (l.map Prod.fst).Nodup) :
    l.lookup k = some v ↔ (k, v) ∈ l := by
  constructor
  · intro hlookup
    obtain ⟨front, back, rfl, -⟩ := List.lookup_eq_some_iff.mp hlookup
    simp
  · intro hmem
    induction l with
    | nil => exact absurd hmem List.not_mem_nil
    | cons m l ih =>
      obtain ⟨k', w⟩ := m
      obtain ⟨hfirst, hrest⟩ := List.nodup_cons.mp h
      obtain heq | hrestmem := List.mem_cons.mp hmem
      · obtain ⟨rfl, rfl⟩ := Prod.mk.inj heq
        simp
      · have hne : (k == k') = false := by
          rw [beq_eq_false_iff_ne]
          rintro rfl
          exact hfirst (List.mem_map.mpr ⟨(k, v), hrestmem, rfl⟩)
        rw [List.lookup_cons, hne]
        exact ih hrest hrestmem

theorem Ascending.get?_eq_some (h : Ascending ms) : ms.get? k = some v ↔ (k, v) ∈ ms :=
  lookup_eq_some_iff_mem h.nodup

theorem Ascending.ext (h : Ascending ms) (h' : Ascending ms')
    (hget : ∀ k, ms.get? k = ms'.get? k) : ms = ms' := by
  have : Std.Irrefl fun a b : String × Json T => a.1 < b.1 :=
    ⟨fun a => String.lt_irrefl a.1⟩
  have : Std.Antisymm fun a b : String × Json T => a.1 < b.1 :=
    ⟨fun _ _ hab hba => absurd hba (String.lt_asymm hab)⟩
  refine List.Pairwise.eq_of_mem_iff h h' fun m => ?_
  rw [← h.get?_eq_some, ← h'.get?_eq_some, hget]

theorem get?_remove : (ms.remove key).get? k = if k = key then none else ms.get? k := by
  split_ifs with hk
  · subst hk
    exact lookup_eq_none fun m hm => by simpa using (List.mem_filter.mp hm).2
  · induction ms with
    | nil => rfl
    | cons m ms ih =>
      obtain ⟨k', w⟩ := m
      rw [remove, List.filter_cons, get?, get?, List.lookup_cons]
      split_ifs with hkeep
      · rw [List.lookup_cons]
        split
        · rfl
        · exact ih
      · obtain rfl : k' = key := by simpa using hkeep
        have hne : (k == k') = false := by simpa using hk
        rw [hne]
        exact ih

/-! ## Values that are changed in place -/

/-- With `f` of the values under `keys`. -/
def mapAt (keys : List String) (f : Json T → Json T) (ms : Members T) : Members T :=
  ms.map fun m => if m.1 ∈ keys then (m.1, f m.2) else m

theorem get?_mapAt : (ms.mapAt keys f).get? k =
    if k ∈ keys then (ms.get? k).map f else ms.get? k := by
  induction ms with
  | nil => split_ifs <;> rfl
  | cons m ms ih =>
    obtain ⟨k', w⟩ := m
    rw [get?, mapAt, List.map_cons]
    by_cases hk : k = k'
    · subst hk
      split_ifs <;> simp [get?]
    · have hne : (k == k') = false := by simpa using hk
      have hrest : (if k' ∈ keys then (k', f w) else (k', w)).1 = k' := by split_ifs <;> rfl
      rw [List.lookup_cons, hrest, hne]
      rw [get?, List.lookup_cons, hne]
      exact ih

theorem get?_mapAt_of_not_mem (hk : k ∉ keys) : (ms.mapAt keys f).get? k = ms.get? k := by
  rw [get?_mapAt, if_neg hk]

theorem Ascending.mapAt (h : Ascending ms) (keys : List String) (f : Json T → Json T) :
    Ascending (ms.mapAt keys f) := by
  have hfst (m : String × Json T) : (if m.1 ∈ keys then (m.1, f m.2) else m).1 = m.1 := by
    split_ifs <;> rfl
  refine List.pairwise_map.mpr (h.imp fun {a b} hlt => ?_)
  rwa [hfst, hfst]

/-! ## Values under one of several keys -/

/-- There is a value other than null. -/
def Holds (ms : Members T) (k : String) : Prop := ∃ v, ms.get? k = some v ∧ v ≠ .null

theorem holds_iff : ms.Holds k ↔ (ms.get? k).any (fun v => !v.isNull) = true := by
  cases h : ms.get? k with
  | none => simp [Holds, h]
  | some v => simp [Holds, h, ← Json.isNull_iff]

instance : Decidable (ms.Holds k) := decidable_of_iff _ holds_iff.symm

/-- No two of the keys hold a value. -/
def Once (ms : Members T) (keys : List String) : Prop :=
  ∀ k ∈ keys, ∀ l ∈ keys, ms.Holds k → ms.Holds l → k = l

instance : Decidable (ms.Once keys) :=
  inferInstanceAs (Decidable (∀ k ∈ keys, ∀ l ∈ keys, ms.Holds k → ms.Holds l → k = l))

theorem Once.congr (h : ms.Once keys) (hget : ∀ k ∈ keys, ms'.get? k = ms.get? k) :
    ms'.Once keys := by
  intro k hk l hl hholds hholds'
  unfold Holds at hholds hholds'
  rw [hget k hk] at hholds
  rw [hget l hl] at hholds'
  exact h k hk l hl hholds hholds'

theorem firstOf?_congr (hget : ∀ k ∈ keys, ms'.get? k = ms.get? k) :
    ms'.firstOf? keys = ms.firstOf? keys := by
  induction keys with
  | nil => rfl
  | cons k keys ih =>
    simp only [firstOf?, List.findSome?_cons] at ih ⊢
    rw [hget k List.mem_cons_self, ih fun l hl => hget l (List.mem_cons_of_mem k hl)]

theorem isSome_firstOf? (hk : k ∈ keys) (h : ms.Holds k) : (ms.firstOf? keys).isSome = true := by
  obtain ⟨v, hv, hnull⟩ := h
  rw [firstOf?, List.findSome?_isSome_iff]
  refine ⟨k, hk, ?_⟩
  rw [hv]
  cases v with
  | null => exact absurd rfl hnull
  | _ => rfl

/-- Where one key at most holds a value, the order of the keys does not matter. -/
theorem Once.firstOf?_eq_some (h : ms.Once keys) :
    ms.firstOf? keys = some v ↔ ∃ k ∈ keys, ms.get? k = some v ∧ v ≠ .null := by
  refine ⟨exists_of_firstOf?, ?_⟩
  rintro ⟨k, hk, hv, hnull⟩
  obtain ⟨w, hw⟩ := Option.isSome_iff_exists.mp (isSome_firstOf? hk ⟨v, hv, hnull⟩)
  obtain ⟨l, hl, hlw, hlnull⟩ := exists_of_firstOf? hw
  obtain rfl := h k hk l hl ⟨v, hv, hnull⟩ ⟨w, hlw, hlnull⟩
  rw [hw, ← hlw, hv]

/-- Looking for the first value that `g` takes is looking for the first value. -/
theorem Once.findSome?_bind {α : Type} (h : ms.Once keys) {g : Json T → Option α}
    (hg : g .null = none) :
    (keys.findSome? fun k => (ms.get? k).bind g) = (ms.firstOf? keys).bind g := by
  have hnull {v : Json T} {a : α} (hv : g v = some a) : v ≠ .null := by
    rintro rfl
    rw [hg] at hv
    cases hv
  have hsome {a : α} (ha : (keys.findSome? fun k => (ms.get? k).bind g) = some a) :
      (ms.firstOf? keys).bind g = some a := by
    obtain ⟨k, hk, hget⟩ := List.exists_of_findSome?_eq_some ha
    obtain ⟨v, hv, hva⟩ := Option.bind_eq_some_iff.mp hget
    rw [h.firstOf?_eq_some.mpr ⟨k, hk, hv, hnull hva⟩, Option.bind_some, hva]
  cases hfound : keys.findSome? fun k => (ms.get? k).bind g with
  | some a => exact (hsome hfound).symm
  | none =>
    symm
    rw [Option.bind_eq_none_iff]
    intro v hv
    obtain ⟨k, hk, hget, -⟩ := exists_of_firstOf? hv
    simpa [hget] using List.findSome?_eq_none_iff.mp hfound k hk

/-! ## Values that are brought under one key -/

/-- With what stands under one of `keys` under `key`. Null stands for nothing. -/
def gather (key : String) (keys : List String) (ms : Members T) : Members T :=
  ofList ((ms.filter fun m => !(decide (m.1 ∈ keys) && m.2.isNull)).map fun m =>
    if m.1 ∈ keys then (key, m.2) else m)

theorem ascending_gather (key : String) (keys : List String) (ms : Members T) :
    Ascending (ms.gather key keys) := ascending_ofList _

/-- The members that are gathered have different keys. -/
theorem Once.nodup_gathered (honce : ms.Once keys) (h : Ascending ms) (hkey : key ∈ keys) :
    (((ms.filter fun m => !(decide (m.1 ∈ keys) && m.2.isNull)).map fun m =>
      if m.1 ∈ keys then (key, m.2) else m).map Prod.fst).Nodup := by
  have hholds : ∀ m ∈ ms.filter (fun m => !(decide (m.1 ∈ keys) && m.2.isNull)),
      m.1 ∈ keys → ms.Holds m.1 := by
    intro m hm hmkey
    obtain ⟨hmem, hkeep⟩ := List.mem_filter.mp hm
    refine ⟨m.2, h.get?_eq_some.mpr hmem, fun hnull => ?_⟩
    simp [hmkey, Json.isNull_iff.mpr hnull] at hkeep
  rw [List.map_map]
  refine List.pairwise_map.mpr ((h.filter _).imp_of_mem fun {a b} ha hb hlt => ?_)
  have hne : a.1 ≠ b.1 := fun heq => String.lt_irrefl a.1 (by rwa [← heq] at hlt)
  rw [Function.comp_apply, Function.comp_apply]
  split_ifs with hak hbk hbk
  · exact absurd (honce a.1 hak b.1 hbk (hholds a ha hak) (hholds b hb hbk)) hne
  · rintro rfl
    exact hbk hkey
  · rintro rfl
    exact hak hkey
  · exact hne

theorem get?_gather (h : Ascending ms) (honce : ms.Once keys) (hkey : key ∈ keys) :
    (ms.gather key keys).get? k =
      if k = key then ms.firstOf? keys else if k ∈ keys then none else ms.get? k := by
  have hnodup := honce.nodup_gathered h hkey
  ext v
  rw [gather, get?_ofList hnodup, lookup_eq_some_iff_mem hnodup, List.mem_map]
  constructor
  · rintro ⟨m, hm, heq⟩
    obtain ⟨hmem, hkeep⟩ := List.mem_filter.mp hm
    split_ifs at heq with hmkey
    · obtain ⟨rfl, rfl⟩ := Prod.mk.inj heq
      rw [if_pos rfl, honce.firstOf?_eq_some]
      refine ⟨m.1, hmkey, h.get?_eq_some.mpr hmem, fun hnull => ?_⟩
      simp [hmkey, Json.isNull_iff.mpr hnull] at hkeep
    · subst heq
      have hne : k ≠ key := fun heq => hmkey (heq ▸ hkey)
      rw [if_neg hne, if_neg hmkey]
      exact h.get?_eq_some.mpr hmem
  · split_ifs with hk hkeys
    · subst hk
      rw [honce.firstOf?_eq_some]
      rintro ⟨l, hl, hget, hnull⟩
      have hkeep : v.isNull = false := by
        rw [Bool.eq_false_iff, Ne, Json.isNull_iff]
        exact hnull
      exact ⟨(l, v), List.mem_filter.mpr ⟨h.get?_eq_some.mp hget, by simp [hkeep]⟩, if_pos hl⟩
    · exact nofun
    · intro hget
      refine ⟨(k, v), List.mem_filter.mpr ⟨h.get?_eq_some.mp hget, ?_⟩, if_neg hkeys⟩
      simp [hkeys]

/-! ## Values that are respelled -/

/-- With `f` of what stands under one of `keys` under `key`. -/
def respell (key : String) (keys : List String) (f : Json T → Json T) (ms : Members T) :
    Members T :=
  (ms.gather key keys).mapAt [key] f

theorem ascending_respell (key : String) (keys : List String) (f : Json T → Json T)
    (ms : Members T) : Ascending (ms.respell key keys f) :=
  (ascending_gather key keys ms).mapAt [key] f

theorem get?_respell (h : Ascending ms) (honce : ms.Once keys) (hkey : key ∈ keys) :
    (ms.respell key keys f).get? k =
      if k = key then (ms.firstOf? keys).map f else if k ∈ keys then none else ms.get? k := by
  rw [respell, get?_mapAt, get?_gather h honce hkey]
  split_ifs <;> simp_all

theorem get?_respell_of_not_mem (h : Ascending ms) (honce : ms.Once keys) (hkey : key ∈ keys)
    (hk : k ∉ keys) : (ms.respell key keys f).get? k = ms.get? k := by
  have hne : k ≠ key := fun heq => hk (heq ▸ hkey)
  rw [get?_respell h honce hkey, if_neg hne, if_neg hk]

/-- What is found first under other keys is left. -/
theorem firstOf?_respell_of_disjoint (h : Ascending ms) (honce : ms.Once keys) (hkey : key ∈ keys)
    {others : List String} (hothers : ∀ k ∈ others, k ∉ keys) :
    (ms.respell key keys f).firstOf? others = ms.firstOf? others :=
  firstOf?_congr fun k hk => get?_respell_of_not_mem h honce hkey (hothers k hk)

theorem Once.respell_of_disjoint {others : List String} (honce' : ms.Once others)
    (h : Ascending ms) (honce : ms.Once keys) (hkey : key ∈ keys)
    (hothers : ∀ k ∈ others, k ∉ keys) : (ms.respell key keys f).Once others :=
  honce'.congr fun k hk => get?_respell_of_not_mem h honce hkey (hothers k hk)

theorem once_respell (h : Ascending ms) (honce : ms.Once keys) (hkey : key ∈ keys) :
    (ms.respell key keys f).Once keys := by
  have hholds (l : String) (hl : l ∈ keys) : (ms.respell key keys f).Holds l → l = key := by
    rintro ⟨v, hv, -⟩
    rw [get?_respell h honce hkey, if_pos hl] at hv
    by_contra hne
    rw [if_neg hne] at hv
    exact absurd hv nofun
  intro l hl l' hl' hlholds hl'holds
  rw [hholds l hl hlholds, hholds l' hl' hl'holds]

/-- What is found first is the respelled value. -/
theorem firstOf?_respell (h : Ascending ms) (honce : ms.Once keys) (hkey : key ∈ keys)
    (hf : ∀ v, v ≠ .null → f v ≠ .null) :
    (ms.respell key keys f).firstOf? keys = (ms.firstOf? keys).map f := by
  ext v
  rw [(once_respell h honce hkey).firstOf?_eq_some]
  constructor
  · rintro ⟨l, hl, hv, -⟩
    rw [get?_respell h honce hkey, if_pos hl] at hv
    split_ifs at hv
    exact hv
  · intro hv
    refine ⟨key, hkey, ?_, ?_⟩
    · rw [get?_respell h honce hkey, if_pos rfl, hv]
    · obtain ⟨w, hw, rfl⟩ := Option.map_eq_some_iff.mp hv
      obtain ⟨-, -, -, hnull⟩ := exists_of_firstOf? hw
      exact hf w hnull

end Members

theorem Json.Ordered.respell {T : Type} {ms : Members T} (h : (Json.object ms).Ordered)
    {key : String} {keys : List String} (honce : ms.Once keys) (hkey : key ∈ keys)
    {f : Json T → Json T} (hf : ∀ v : Json T, v.Ordered → (f v).Ordered) :
    (Json.object (ms.respell key keys f)).Ordered := by
  have hascending := Members.ascending_respell key keys f ms
  refine .object hascending fun m hm => ?_
  have hget := hascending.get?_eq_some.mpr hm
  rw [Members.get?_respell h.keys honce hkey] at hget
  split_ifs at hget
  · obtain ⟨v, hv, hvm⟩ := Option.map_eq_some_iff.mp hget
    obtain ⟨k, -, hk, -⟩ := Members.exists_of_firstOf? hv
    exact hvm ▸ hf v (h.of_get? hk)
  · exact h.of_get? hget

end Montage
