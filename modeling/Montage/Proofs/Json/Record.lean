import Mathlib.Data.List.Nodup
import Montage.Json.Reader
import Montage.Proofs.Json.Members

/-!
# Records that are read back

A record is written field by field: a field that is there as a member under its name, and a field
that is left out only where its default is what it holds. Whatever the order in which the members
come to stand, the record that is read from them is the one that was written.

In the other direction, what a record that was read holds in a field was either read from a member
of the object or is the default of the field.
-/

namespace Montage

variable {T α β : Type}

/-! ## Results -/

theorem exists_of_bind_eq_ok {ε : Type} {x : Except ε α} {f : α → Except ε β} {b : β}
    (h : x >>= f = .ok b) : ∃ a, x = .ok a ∧ f a = .ok b := by
  cases x with
  | error e => cases h
  | ok a => exact ⟨a, rfl, h⟩

theorem exists_of_map_eq_ok {ε : Type} {f : α → β} {x : Except ε α} {b : β}
    (h : x.map f = .ok b) : ∃ a, x = .ok a ∧ f a = b := by
  cases x with
  | error e => cases h
  | ok a => exact ⟨a, rfl, Except.ok.inj h⟩

/-! ## Writing -/

/-- Whatever `write` writes is read back. -/
def Reader.ReadsBack (r : Reader T α) (write : α → Json T) : Prop := ∀ a, r.read (write a) = .ok a

namespace Reader.ReadsBack
variable {r : Reader T α} {write : α → Json T}

theorem list (h : r.ReadsBack write) : r.list.ReadsBack fun as => .list (as.map write) := by
  intro as
  show (as.map write).mapM r.read = .ok as
  induction as with
  | nil => rfl
  | cons a as ih => simp [h a, ih, bind, Except.bind, pure, Except.pure]

end Reader.ReadsBack

/-- The members that `f` is written as where it holds `a`. -/
inductive Field.Writes (f : Field T α) : Members T → α → Prop where
  | here {j : Json T} {a : α} (h : f.reader.read j = .ok a) : Writes f [(f.name, j)] a
  | left {a : α} (h : f.absent = .default a) : Writes f [] a

/-- The members that a record is written as, in the order of its fields. -/
inductive Record.Writes : {α : Type} → Record T α → Members T → α → Prop where
  | of {α : Type} (title : String) (a : α) : Writes (.of title a) [] a
  | field {α β : Type} {r : Record T (α → β)} {f : Field T α} {ms part : Members T} {g : α → β}
      {a : α} (hr : Writes r ms g) (hf : f.Writes part a) : Writes (r.field f) (ms ++ part) (g a)

namespace Field.Writes
variable {f : Field T α} {part : Members T} {a : α}

theorem keys_sublist (h : f.Writes part a) : (part.map Prod.fst).Sublist [f.name] := by
  cases h with
  | here _ => exact List.Sublist.refl _
  | left _ => exact List.nil_sublist _

theorem read_of_mem (h : f.Writes part a) {m : String × Json T} (hm : m ∈ part) :
    m.1 = f.name ∧ f.reader.read m.2 = .ok a := by
  cases h with
  | here hread =>
    obtain rfl := List.mem_singleton.mp hm
    exact ⟨rfl, hread⟩
  | left _ => exact absurd hm List.not_mem_nil

end Field.Writes

namespace Record

/-- All names under which members of an object belong to fields. -/
def names (r : Record T α) : List String := r.fields.flatMap FieldCheck.names

@[simp] theorem names_of (title : String) (a : α) : (of title a : Record T α).names = [] := rfl

@[simp] theorem names_field (r : Record T (α → β)) (f : Field T α) :
    (r.field f).names = r.names ++ f.name :: f.aliases := by
  simp [names, field, Field.names]

theorem fieldOf?_eq {r : Record T α} (hnames : r.names.Nodup) {f : FieldCheck T}
    (hf : f ∈ r.fields) {key : String} (hkey : key ∈ f.names) : r.fieldOf? key = some f := by
  obtain ⟨front, back, hfields⟩ := List.append_of_mem hf
  rw [names, hfields, List.flatMap_append, List.nodup_append] at hnames
  rw [fieldOf?, List.find?_eq_some_iff_append]
  refine ⟨by simpa using hkey, front, back, hfields, fun other hother => ?_⟩
  have hback : key ∈ (f :: back).flatMap FieldCheck.names :=
    List.mem_flatMap.mpr ⟨f, List.mem_cons_self, hkey⟩
  have hnot : key ∉ other.names := fun hmem =>
    hnames.2.2 key (List.mem_flatMap.mpr ⟨other, hother, hmem⟩) key hback rfl
  simpa using hnot

/-- Members under different names of fields, each of which fits, are all collected. -/
theorem collect_eq {r : Record T α} {found ms : List (String × Json T)}
    (hfit : ∀ m ∈ ms, ∃ f, r.fieldOf? m.1 = some f ∧ f.name = m.1 ∧ f.check m.2 = .ok ())
    (hnew : ∀ m ∈ ms, found.lookup m.1 = none) (hkeys : (ms.map Prod.fst).Nodup) :
    ∃ parts, r.collect found ms = .ok parts ∧
      ∀ key, parts.lookup key = (ms.lookup key).or (found.lookup key) := by
  induction ms generalizing found with
  | nil => exact ⟨found, rfl, fun key => rfl⟩
  | cons m ms ih =>
    obtain ⟨k, j⟩ := m
    obtain ⟨hk, hkeys⟩ := List.nodup_cons.mp hkeys
    obtain ⟨f, hfield, hname, hcheck⟩ := hfit (k, j) List.mem_cons_self
    have hfirst : found.lookup k = none := hnew (k, j) List.mem_cons_self
    have hnew' (m : String × Json T) (hm : m ∈ ms) : ((k, j) :: found).lookup m.1 = none := by
      have hne : (m.1 == k) = false := by
        simpa using fun heq : m.1 = k => hk (List.mem_map.mpr ⟨m, hm, heq⟩)
      rw [List.lookup_cons, hne]
      exact hnew m (List.mem_cons_of_mem _ hm)
    obtain ⟨parts, hcollect, hlookup⟩ :=
      ih (fun m hm => hfit m (List.mem_cons_of_mem _ hm)) hnew' hkeys
    refine ⟨parts, ?_, fun key => ?_⟩
    · simp only [collect, hfield, hname, hfirst, hcheck]
      exact hcollect
    · rw [hlookup, List.lookup_cons, List.lookup_cons]
      by_cases hkey : key = k
      · subst hkey
        have hnone : ms.lookup key = none :=
          Members.lookup_eq_none fun m hm heq => hk (List.mem_map.mpr ⟨m, hm, heq⟩)
        simp [hnone]
      · have hne : (key == k) = false := by simpa using hkey
        rw [hne]

namespace Writes
variable {r : Record T α} {ms : Members T} {a : α}

theorem keys_sublist (h : r.Writes ms a) :
    (ms.map Prod.fst).Sublist (r.fields.map FieldCheck.name) := by
  induction h with
  | of title a => exact List.Sublist.slnil
  | field _ hf ih =>
    rw [List.map_append, Record.field, List.map_append]
    exact ih.append hf.keys_sublist

theorem name_mem_names (h : r.Writes ms a) : ∀ f ∈ r.fields, f.name ∈ f.names := by
  induction h with
  | of title a => exact fun f hf => absurd hf List.not_mem_nil
  | field _ _ ih =>
    intro f hf
    obtain hf | hf := List.mem_append.mp hf
    · exact ih f hf
    · obtain rfl := List.mem_singleton.mp hf
      exact List.mem_cons_self

theorem check_of_mem (h : r.Writes ms a) {m : String × Json T} (hm : m ∈ ms) :
    ∃ f ∈ r.fields, f.name = m.1 ∧ f.check m.2 = .ok () := by
  induction h with
  | of title a => exact absurd hm List.not_mem_nil
  | field _ hf ih =>
    obtain hm | hm := List.mem_append.mp hm
    · obtain ⟨f, hmem, hcheck⟩ := ih hm
      exact ⟨f, List.mem_append_left _ hmem, hcheck⟩
    · obtain ⟨hname, hread⟩ := hf.read_of_mem hm
      refine ⟨_, List.mem_append_right _ (List.mem_singleton.mpr rfl), hname.symm, ?_⟩
      simp [hread, Except.map]

/-- The value depends only on what is found under the names of the fields. -/
theorem build_eq (h : r.Writes ms a) (hnames : (r.fields.map FieldCheck.name).Nodup)
    {find : String → Option (Json T)} (hfind : ∀ f ∈ r.fields, find f.name = ms.lookup f.name) :
    r.build none find = .ok a := by
  induction h with
  | of title a => rfl
  | @field _ _ r f ms part g a hr hf ih =>
    rw [Record.field, List.map_append, List.nodup_append] at hnames
    obtain ⟨hnames, -, hnew⟩ := hnames
    have hother {f' : FieldCheck T} (hf' : f' ∈ r.fields) : f'.name ≠ f.name :=
      hnew f'.name (List.mem_map.mpr ⟨f', hf', rfl⟩) f.name (by simp)
    have hbuild : r.build none find = .ok g := by
      apply ih hnames
      intro f' hf'
      have hpart : part.lookup f'.name = none :=
        Members.lookup_eq_none fun m hm => (hf.read_of_mem hm).1 ▸ (hother hf').symm
      rw [hfind f' (List.mem_append_left _ hf'), List.lookup_append, hpart, Option.or_none]
    have hms : ms.lookup f.name = none := by
      apply Members.lookup_eq_none
      intro m hm
      obtain ⟨f', hf', hname, -⟩ := hr.check_of_mem hm
      exact hname ▸ hother hf'
    have hown : find f.name = part.lookup f.name := by
      have hlookup := hfind _ (List.mem_append_right _ (List.mem_singleton.mpr rfl))
      rwa [List.lookup_append, hms, Option.none_or] at hlookup
    cases hf with
    | here hread => simp [Record.field, hbuild, hown, hread, bind, Except.bind, pure, Except.pure]
    | left habsent =>
      simp [Record.field, hbuild, hown, habsent, bind, Except.bind, pure, Except.pure]

/-- What was written is read back. -/
theorem read_record (h : r.Writes ms a) (hnames : r.names.Nodup) :
    r.read (Json.record ms) = .ok a := by
  have hfieldNames : (r.fields.map FieldCheck.name).Nodup := by
    apply List.pairwise_map.mpr
    apply (List.nodup_flatMap.mp hnames).2.imp_of_mem
    intro f f' hf hf' hdisjoint heq
    have hmem := h.name_mem_names f hf
    rw [heq] at hmem
    exact hdisjoint hmem (h.name_mem_names f' hf')
  have hkeys : (ms.map Prod.fst).Nodup := h.keys_sublist.nodup hfieldNames
  have hfit : ∀ m ∈ Members.ofList ms,
      ∃ f, r.fieldOf? m.1 = some f ∧ f.name = m.1 ∧ f.check m.2 = .ok () := by
    intro m hm
    obtain ⟨f, hf, hname, hcheck⟩ := h.check_of_mem (Members.mem_ofList hm)
    have hfield := fieldOf?_eq hnames hf (h.name_mem_names f hf)
    rw [hname] at hfield
    exact ⟨f, hfield, hname, hcheck⟩
  obtain ⟨parts, hcollect, hlookup⟩ : ∃ parts, r.collect [] (Members.ofList ms) = .ok parts ∧
      ∀ key, parts.lookup key = ((Members.ofList ms).lookup key).or (List.lookup key []) :=
    collect_eq hfit (fun _ _ => rfl) (Members.ascending_ofList ms).nodup
  have hbuild : r.build none (fun name => parts.lookup name) = .ok a := by
    apply h.build_eq hfieldNames
    intro f hf
    rw [hlookup, List.lookup_nil, Option.or_none]
    exact Members.get?_ofList hkeys f.name
  simp only [Json.record, read, hcollect, bind, Except.bind, hbuild]

end Writes

/-! ## Reading -/

theorem collect_inv {r : Record T α} {found ms parts : List (String × Json T)}
    (h : r.collect found ms = .ok parts) {key : String} {j : Json T}
    (hpart : parts.lookup key = some j) :
    found.lookup key = some j ∨
      ∃ m ∈ ms, m.2 = j ∧ ∃ f, r.fieldOf? m.1 = some f ∧ f.name = key := by
  induction ms generalizing found with
  | nil =>
    obtain rfl : found = parts := Except.ok.inj h
    exact Or.inl hpart
  | cons m ms ih =>
    have hlater {found : List (String × Json T)} (h : r.collect found ms = .ok parts) :
        found.lookup key = some j ∨
          ∃ m' ∈ m :: ms, m'.2 = j ∧ ∃ f, r.fieldOf? m'.1 = some f ∧ f.name = key :=
      (ih h).imp_right fun ⟨m', hm', hfound⟩ => ⟨m', List.mem_cons_of_mem m hm', hfound⟩
    obtain ⟨k, v⟩ := m
    rw [collect] at h
    split at h
    · exact hlater h
    · next f hfield =>
      split_ifs at h
      cases hcheck : f.check v with
      | error e => simp [hcheck, Except.bind] at h
      | ok u =>
        rw [hcheck] at h
        obtain hlookup | hmem := hlater h
        · rw [List.lookup_cons] at hlookup
          cases hkey : key == f.name with
          | true =>
            obtain rfl : v = j := by simpa [hkey] using hlookup
            exact Or.inr ⟨(k, v), List.mem_cons_self, rfl, f, hfield, (eq_of_beq hkey).symm⟩
          | false => exact Or.inl (by simpa [hkey] using hlookup)
        · exact Or.inr hmem

/-- A record is built from members that stand under a name of their field. -/
theorem read_object_inv {r : Record T α} {ms : Members T} {a : α}
    (h : r.read (.object ms) = .ok a) :
    ∃ find, r.build none find = .ok a ∧ ∀ key j, find key = some j →
      ∃ m ∈ ms, m.2 = j ∧ ∃ f ∈ r.fields, f.name = key ∧ m.1 ∈ f.names := by
  cases hcollect : r.collect [] ms with
  | error e => simp [read, hcollect, bind, Except.bind] at h
  | ok parts =>
    simp only [read, hcollect, bind, Except.bind] at h
    refine ⟨fun name => parts.lookup name, h, fun key j hlookup => ?_⟩
    obtain hnil | ⟨m, hm, hj, f, hfield, hname⟩ := collect_inv hcollect hlookup
    · cases hnil
    · refine ⟨m, hm, hj, f, List.mem_of_find?_eq_some hfield, hname, ?_⟩
      simpa using List.find?_some hfield

/-- The last field holds what is read from its part, or else its default. -/
theorem build_field_inv {r : Record T (α → β)} {f : Field T α} {places : Option Nat}
    {find : String → Option (Json T)} {b : β} (h : (r.field f).build places find = .ok b) :
    ∃ g a, r.build places find = .ok g ∧ b = g a ∧
      ((∃ j, find f.name = some j ∧ f.reader.read j = .ok a) ∨
        f.absent = .default a ∨ f.absent = .defaultByName a) := by
  rcases exists_of_bind_eq_ok h with ⟨g, hbuild, hvalue⟩
  refine ⟨g, ?_⟩
  split at hvalue
  · next j hfound =>
    rcases exists_of_bind_eq_ok hvalue with ⟨a, hread, hvalue⟩
    exact ⟨a, hbuild, (Except.ok.inj hvalue).symm, Or.inl ⟨j, hfound, hread⟩⟩
  · cases habsent : f.absent with
    | refused =>
      cases places <;> simp [habsent] at hvalue
    | default a =>
      rw [habsent] at hvalue
      exact ⟨a, hbuild, (Except.ok.inj hvalue).symm, Or.inr (Or.inl rfl)⟩
    | defaultByName a =>
      cases places with
      | none =>
        rw [habsent] at hvalue
        exact ⟨a, hbuild, (Except.ok.inj hvalue).symm, Or.inr (Or.inr rfl)⟩
      | some n => simp [habsent] at hvalue

/-- The items of a list are placed under the names of fields as they are. -/
theorem mem_of_place {fields : List (FieldCheck T)} {items : List (Json T)}
    {parts : List (String × Json T)} (h : place fields items = .ok parts) {key : String}
    {j : Json T} (hpart : parts.lookup key = some j) : j ∈ items := by
  induction fields generalizing items parts with
  | nil =>
    obtain rfl : [] = parts := by cases items <;> exact Except.ok.inj h
    cases hpart
  | cons f fs ih =>
    cases items with
    | nil =>
      obtain rfl : [] = parts := Except.ok.inj h
      cases hpart
    | cons v vs =>
      rcases exists_of_bind_eq_ok h with ⟨_, _, h⟩
      rcases exists_of_bind_eq_ok h with ⟨rest, hrest, h⟩
      obtain rfl : (f.name, v) :: rest = parts := Except.ok.inj h
      rw [List.lookup_cons] at hpart
      cases hkey : key == f.name with
      | true =>
        obtain rfl : v = j := by simpa [hkey] using hpart
        exact List.mem_cons_self
      | false => exact List.mem_cons_of_mem v (ih hrest (by simpa [hkey] using hpart))

/-- A record that was read from a list is built from items of the list. -/
theorem read_list_inv {r : Record T α} {items : List (Json T)} {a : α}
    (h : r.read (.list items) = .ok a) :
    ∃ find, r.build (some r.fields.length) find = .ok a ∧
      ∀ key j, find key = some j → j ∈ items := by
  rcases exists_of_bind_eq_ok h with ⟨parts, hplace, h⟩
  rcases exists_of_bind_eq_ok h with ⟨a', hbuild, h⟩
  split_ifs at h
  obtain rfl : a' = a := Except.ok.inj h
  exact ⟨fun name => parts.lookup name, hbuild, fun key j hpart => mem_of_place hplace hpart⟩

end Record

end Montage
