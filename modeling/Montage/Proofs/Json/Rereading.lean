import Montage.Proofs.Json.Printer
import Montage.Proofs.Json.Record

/-!
# Records that are read again

A value that was read is not always what was written: numbers are rounded, members may have come
under another name, in a list, or not at all. What is then written for it has to be read as that
value. For a record this is a matter of its fields, of each one alone: a field holds what was read
from some part, or else its default, and what is written for it is read again or stands for it by
being left out.
-/

namespace Montage
open TimeScale

variable {T α β : Type}

/-! ## Finite values -/

section
variable [TimeScale T]

/-- All numbers of the value are finite on the scale. -/
def Json.Finite (j : Json T) : Prop := ∀ n ∈ j.numbers, isFinite n.toReal = true

namespace Json

theorem finite_list {items : List (Json T)} :
    (Json.list items).Finite ↔ ∀ j ∈ items, j.Finite := by
  rw [Finite, numbers, itemNumbers_eq, List.forall_mem_flatMap]
  rfl

theorem finite_object {ms : Members T} : (Json.object ms).Finite ↔ ∀ m ∈ ms, m.2.Finite := by
  rw [Finite, numbers, memberNumbers_eq, List.forall_mem_flatMap]
  rfl

end Json

/-! ## Readers -/

/-- What was read from a finite value is read again from what `write` writes for it. -/
def Reader.Rereads (r : Reader T α) (write : α → Json T) : Prop :=
  ∀ j a, j.Finite → r.read j = .ok a → r.read (write a) = .ok a

theorem Reader.ReadsBack.rereads {r : Reader T α} {write : α → Json T} (h : r.ReadsBack write) :
    r.Rereads write := fun _ a _ _ => h a

namespace Reader.Rereads
variable {r : Reader T α} {write : α → Json T}

theorem optional (h : r.Rereads write) (hnull : ∀ a, r.read .null ≠ .ok a) {j : Json T} {a : α}
    (hj : j.Finite) (hread : r.optional.read j = .ok (some a)) :
    r.optional.read (write a) = .ok (some a) := by
  have hsome {j : Json T} (hne : j ≠ .null) : r.optional.read j = (r.read j).map some := by
    cases j with
    | null => exact absurd rfl hne
    | _ => rfl
  have hne : j ≠ .null := by
    rintro rfl
    cases hread
  rw [hsome hne] at hread
  rcases exists_of_map_eq_ok hread with ⟨a', hread', heq⟩
  obtain rfl : a' = a := Option.some.inj heq
  have hagain : r.read (write a') = .ok a' := h j a' hj hread'
  have hwrite : write a' ≠ .null := fun heq => hnull a' (heq ▸ hagain)
  rw [hsome hwrite, hagain]
  rfl

theorem list (h : r.Rereads write) : r.list.Rereads fun as => .list (as.map write) := by
  intro j as hj hread
  cases j with
  | list items =>
    rw [Json.finite_list] at hj
    show (as.map write).mapM r.read = .ok as
    replace hread : items.mapM r.read = .ok as := hread
    induction items generalizing as with
    | nil =>
      obtain rfl : [] = as := Except.ok.inj hread
      rfl
    | cons j js ih =>
      rcases List.forall_mem_cons.mp hj with ⟨hfirst, hrest⟩
      rw [List.mapM_cons] at hread
      rcases exists_of_bind_eq_ok hread with ⟨a, ha, hread⟩
      rcases exists_of_bind_eq_ok hread with ⟨as', has, hread⟩
      obtain rfl : a :: as' = as := Except.ok.inj hread
      rw [List.map_cons, List.mapM_cons, h j a hfirst ha, ih as' hrest has]
      rfl
  | _ => cases hread

end Reader.Rereads

/-! ## Fields -/

/-- The field may hold `a` in a record that was read from a finite value. -/
def Field.Holds (f : Field T α) (a : α) : Prop :=
  (∃ j, j.Finite ∧ f.reader.read j = .ok a) ∨ f.absent = .default a ∨ f.absent = .defaultByName a

/-- Whatever the field holds is read again from the members that `write` writes for it. -/
def Field.Rewrites (f : Field T α) (write : α → Members T) : Prop :=
  ∀ a, f.Holds a → f.Writes (write a) a

/-- A record that was read from a finite value is written as members of which `Q` holds. -/
def Record.Rewrites (r : Record T α) (Q : Members T → α → Prop) : Prop :=
  ∀ places find a, (∀ key j, find key = some j → j.Finite) → r.build places find = .ok a →
    ∃ ms, r.Writes ms a ∧ Q ms a

namespace Record.Rewrites

theorem of {title : String} {a : α} {Q : Members T → α → Prop} (h : Q [] a) :
    (Record.of title a).Rewrites Q := by
  intro places find a' hfind hbuild
  obtain rfl : a = a' := Except.ok.inj hbuild
  exact ⟨[], .of title a, h⟩

/-- Fields are written in their order, one behind the other. -/
theorem field {r : Record T (α → β)} {f : Field T α} {write : α → Members T}
    {Q : Members T → β → Prop} (hf : f.Rewrites write)
    (h : r.Rewrites fun ms g => ∀ a, Q (ms ++ write a) (g a)) : (r.field f).Rewrites Q := by
  intro places find b hfind hbuild
  rcases Record.build_field_inv hbuild with ⟨g, a, hg, rfl, ha⟩
  rcases h places find g hfind hg with ⟨ms, hms, hQ⟩
  have hholds : f.Holds a := ha.imp_left fun ⟨j, hj, hread⟩ => ⟨j, hfind f.name j hj, hread⟩
  exact ⟨ms ++ write a, hms.field (hf a hholds), hQ a⟩

/-- A record whose fields are written one behind the other is read again. -/
theorem rereads {r : Record T α} {write : α → Json T} (hnames : r.names.Nodup)
    (h : r.Rewrites fun ms a => write a = .record ms) : r.reader.Rereads write := by
  have hagain {places : Option Nat} {find : String → Option (Json T)} {a : α}
      (hfind : ∀ key j, find key = some j → j.Finite) (hbuild : r.build places find = .ok a) :
      r.read (write a) = .ok a := by
    rcases h places find a hfind hbuild with ⟨ms, hms, hwrite⟩
    rw [hwrite]
    exact hms.read_record hnames
  intro j a hj hread
  cases j with
  | object ms =>
    rcases Record.read_object_inv hread with ⟨find, hbuild, hfind⟩
    apply hagain _ hbuild
    intro key j hkey
    rcases hfind key j hkey with ⟨m, hm, rfl, -⟩
    exact Json.finite_object.mp hj m hm
  | list items =>
    rcases Record.read_list_inv hread with ⟨find, hbuild, hfind⟩
    exact hagain (fun key j hkey => Json.finite_list.mp hj j (hfind key j hkey)) hbuild
  | _ => cases hread

end Record.Rewrites

end

end Montage
