import Montage.Proofs.Json.Members

/-!
# Values that texts spell

The members of an object that is read from a text stand in the order of their keys. A value may be
written with its members in another order; what its text spells is the value that holds the same
members in that one.
-/

namespace Montage

namespace Json
variable {T : Type}

/-- Induction over a value and the values that it holds. -/
@[elab_as_elim]
theorem induction {motive : Json T → Prop} (null : motive .null) (bool : ∀ b, motive (.bool b))
    (number : ∀ n, motive (.number n)) (text : ∀ s, motive (.text s))
    (list : ∀ items, (∀ j ∈ items, motive j) → motive (.list items))
    (object : ∀ ms, (∀ m ∈ ms, motive m.2) → motive (.object ms)) (j : Json T) : motive j :=
  @Json.rec T motive (fun items => ∀ j ∈ items, motive j) (fun ms => ∀ m ∈ ms, motive m.2)
    (fun m => motive m.2) null bool number text list object
    (List.forall_mem_nil _) (fun _ _ h hs => List.forall_mem_cons.mpr ⟨h, hs⟩)
    (List.forall_mem_nil _) (fun _ _ h hs => List.forall_mem_cons.mpr ⟨h, hs⟩)
    (fun _ _ h => h) j

mutual

/-- The value that a text of this one spells. -/
def ordered : Json T → Json T
  | .null => .null
  | .bool b => .bool b
  | .number n => .number n
  | .text s => .text s
  | .list items => .list (orderedItems items)
  | .object ms => .record (orderedMembers ms)

def orderedItems : List (Json T) → List (Json T)
  | [] => []
  | j :: js => j.ordered :: orderedItems js

def orderedMembers : List (String × Json T) → List (String × Json T)
  | [] => []
  | (k, j) :: ms => (k, j.ordered) :: orderedMembers ms

end

theorem orderedItems_eq (items : List (Json T)) : orderedItems items = items.map ordered := by
  induction items with
  | nil => rfl
  | cons j js ih => rw [orderedItems, ih, List.map_cons]

theorem orderedMembers_eq (ms : Members T) :
    orderedMembers ms = ms.map fun m => (m.1, m.2.ordered) := by
  induction ms with
  | nil => rfl
  | cons m ms ih => rw [orderedMembers, ih, List.map_cons]

theorem get?_ordered_object {ms : Members T} (h : (ms.map Prod.fst).Nodup) (key : String) :
    (object ms).ordered.get? key = (ms.get? key).map ordered := by
  have hlookup : (ms.map fun m => (m.1, m.2.ordered)).lookup key =
      (ms.lookup key).map ordered := by
    clear h
    induction ms with
    | nil => rfl
    | cons m ms ih =>
      rw [List.map_cons, List.lookup_cons, List.lookup_cons, ih]
      cases key == m.1 <;> rfl
  rw [ordered, orderedMembers_eq]
  refine (Members.get?_ofList ?_ key).trans hlookup
  rw [List.map_map]
  exact h

/-- Where the values are in order, only the members are to be. -/
theorem ordered_object {ms : Members T} (h : Members.All (fun m => m.2.ordered = m.2) ms) :
    (object ms).ordered = record ms := by
  have hsame : ms.map (fun m => (m.1, m.2.ordered)) = ms := by
    conv_rhs => rw [← List.map_id' ms]
    exact List.map_congr_left fun m hm => Prod.ext rfl (h m hm)
  rw [ordered, orderedMembers_eq, hsame]

/-- The keys ascend in every object. -/
inductive Ordered : Json T → Prop
  | null : Ordered .null
  | bool (b : Bool) : Ordered (.bool b)
  | number (n : Number T) : Ordered (.number n)
  | text (s : String) : Ordered (.text s)
  | list {items : List (Json T)} (hitems : ∀ j ∈ items, Ordered j) : Ordered (.list items)
  | object {ms : Members T} (hkeys : Members.Ascending ms) (hvalues : ∀ m ∈ ms, Ordered m.2) :
    Ordered (.object ms)

namespace Ordered

theorem of_mem_list {items : List (Json T)} (h : (Json.list items).Ordered) :
    ∀ j ∈ items, j.Ordered := by
  cases h with
  | list hitems => exact hitems

theorem keys {ms : Members T} (h : (Json.object ms).Ordered) : Members.Ascending ms := by
  cases h with
  | object hkeys _ => exact hkeys

theorem values {ms : Members T} (h : (Json.object ms).Ordered) : ∀ m ∈ ms, m.2.Ordered := by
  cases h with
  | object _ hvalues => exact hvalues

theorem record {ms : Members T} (h : Members.All (fun m => m.2.Ordered) ms) :
    (Json.record ms).Ordered :=
  .object (Members.ascending_ofList ms) fun m hm => h m (Members.mem_ofList hm)

theorem texts (ss : List String) : (Json.texts ss : Json T).Ordered := by
  apply Ordered.list
  intro j hj
  obtain ⟨s, -, rfl⟩ := List.mem_map.mp hj
  exact .text s

theorem real [TimeScale T] (x : T) : (Json.real x).Ordered := by
  unfold Json.real
  split
  · exact .number _
  · exact .null

theorem put {ms : Members T} (h : (Json.object ms).Ordered) (key : String) {v : Json T}
    (hv : v.Ordered) : (Json.object (ms.put key v)).Ordered := by
  refine .object (h.keys.put key v) fun m hm => ?_
  obtain rfl | hm := Members.mem_put hm
  · exact hv
  · exact h.values m hm

theorem remove {ms : Members T} (h : (Json.object ms).Ordered) (key : String) :
    (Json.object (ms.remove key)).Ordered :=
  .object (h.keys.filter _) fun m hm => h.values m (List.mem_filter.mp hm).1

theorem of_get? {ms : Members T} (h : (Json.object ms).Ordered) {key : String} {j : Json T}
    (hget : ms.get? key = some j) : j.Ordered := by
  obtain ⟨front, back, heq, -⟩ := List.lookup_eq_some_iff.mp hget
  exact h.values (key, j) (by simp [heq])

/-- Such a value is what its text spells. -/
theorem ordered_eq {j : Json T} (h : j.Ordered) : j.ordered = j := by
  induction h with
  | list _ ih => rw [ordered, orderedItems_eq, List.map_congr_left ih, List.map_id']
  | object hkeys _ ih => rw [ordered_object ih, Json.record, hkeys.ofList_eq]
  | _ => rfl

end Ordered

theorem ordered_ordered (j : Json T) : j.ordered.Ordered := by
  induction j using Json.induction with
  | null => exact .null
  | bool b => exact .bool b
  | number n => exact .number n
  | text s => exact .text s
  | list items ih =>
    rw [ordered, orderedItems_eq]
    exact .list (List.forall_mem_map.mpr ih)
  | object ms ih =>
    rw [ordered, orderedMembers_eq]
    exact .record (List.forall_mem_map.mpr ih)

end Json

end Montage
