import Montage.Proofs.Decimal.Digits
import Montage.Proofs.Lists
import Montage.Proofs.Text.Words
import Montage.Proofs.Time.Extended
import Montage.Time.Stamp

/-!
# What a timestamp says

A text is read as a time by way of its clock fields. Read into exact numbers, infinities and the
undefined number, the fields that make a time are one to three, in their ranges, and the time is
what they come to in base sixty. Main statement: whatever reads a field, a text says a time exactly
if it has such fields, so that minutes can be given with their hours or counted through; and no
value of a document gives a time that is negative or not finite.
-/

namespace Montage.Stamp
open TimeScale

/-! ## Any scale -/

section
variable {T : Type} [TimeScale T] {field : String → Option T} {s : String} {t : T}

/-- The texts of the clock fields. -/
def texts (s : String) : List String := (Text.splitAt ':' s).map Text.trim

theorem texts_trim (s : String) : texts (Text.trim s) = texts s := by
  have htrim (t : String) : texts t =
      ((Text.Chars.split (· == ':') t.toList).map Text.Chars.trim).map String.ofList := by
    simp [texts, Text.splitAt, Text.trim, Function.comp_def]
  have hcolon (c : Char) (hc : Text.isBlank c = true) : (c == ':') = false := by
    rw [beq_eq_false_iff_ne]
    rintro rfl
    exact absurd hc (by decide)
  rw [htrim, htrim, Text.trim, String.toList_ofList, Text.Chars.map_trim_split_trim hcolon]

/-- What stands in front of a colon is a field of its own. -/
theorem texts_append_colon {a : String} (h : ':' ∉ a.toList) (s : String) :
    texts (a ++ ":" ++ s) = Text.trim a :: texts s := by
  have hlist : (a ++ ":" ++ s).toList = a.toList ++ ':' :: s.toList := by
    simp [String.toList_append]
  unfold texts Text.splitAt
  rw [hlist, Text.Chars.split_append_cons _ _ (by decide), Text.Chars.split_of_not_mem h]
  simp

theorem texts_of_not_mem (h : ':' ∉ s.toList) : texts s = [Text.trim s] := by
  simp [texts, Text.splitAt, Text.Chars.split_of_not_mem h]

/-- A text that is not blank is read field by field. -/
theorem readWith?_eq_some : readWith? field s = some t ↔
    Text.trim s ≠ "" ∧ ∃ fields, (texts s).map field = fields.map some ∧
      ofFields? fields = some t ∧ isFinite t = true := by
  have hfields (fields : List T) :
      ((Text.splitAt ':' (Text.trim s)).mapM fun f => field (Text.trim f)) = some fields ↔
        (texts s).map field = fields.map some := by
    rw [mapM_eq_some_iff, ← texts_trim s, texts, List.map_map, Function.comp_def]
  have hfinite (u : T) : (if isFinite u = true then some u else none) = some t ↔
      u = t ∧ isFinite t = true := by
    split_ifs with hu
    · exact ⟨fun h => ⟨Option.some.inj h, Option.some.inj h ▸ hu⟩, fun h => congrArg some h.1⟩
    · exact ⟨nofun, fun h => absurd (h.1 ▸ h.2) hu⟩
  unfold readWith?
  dsimp only
  split_ifs with hblank
  · exact ⟨nofun, fun h => absurd hblank h.1⟩
  · simp only [Option.bind_eq_bind, Option.bind_eq_some_iff, hfields, hfinite]
    constructor
    · rintro ⟨fields, hread, u, hu, rfl, ht⟩
      exact ⟨hblank, fields, hread, hu, ht⟩
    · rintro ⟨-, fields, hread, hu, ht⟩
      exact ⟨fields, hread, t, hu, rfl, ht⟩

theorem fits_of_ofJson? {j : Json T} {t : T} (h : ofJson? j = some t) :
    (isFinite t && decide (zero ≤ t)) = true := by
  unfold ofJson? at h
  simp only [Option.bind_eq_bind] at h
  split at h
  · obtain ⟨s, -, hs⟩ := Option.bind_eq_some_iff.mp h
    split_ifs at hs with hfit
    exact Option.some.inj hs ▸ hfit
  · obtain ⟨s, -, hs⟩ := Option.bind_eq_some_iff.mp h
    split_ifs at hs with hfit
    exact Option.some.inj hs ▸ hfit
  · cases h

theorem bounds_of_ofJson? {j : Json T} {t : T} (h : ofJson? j = some t) :
    isFinite t = true ∧ zero ≤ t := by
  have hfit := fits_of_ofJson? h
  rwa [Bool.and_eq_true, decide_eq_true_iff] at hfit

/-- The number that digits of base sixty stand for, the first of which may be any number. -/
def sexagesimal (fields : List T) : T := fields.foldl (fun t x => t * ofNat 60 + x) zero

/-- Fields in the ranges of a clock. -/
structure IsClock (fields : List T) : Prop where
  pos : 1 ≤ fields.length
  length_le : fields.length ≤ 3
  nonneg : 1 < fields.length → ∀ x ∈ fields, zero ≤ x
  belowSixty : ∀ x ∈ fields.tail, x < ofNat 60

theorem belowSixty_iff {x : T} : belowSixty x = true ↔ zero ≤ x ∧ x < ofNat 60 := by
  rw [belowSixty, Bool.and_eq_true, decide_eq_true_iff, decide_eq_true_iff]

theorem isClock_cons {x : T} {fields : List T} : IsClock (x :: fields) ↔
    fields.length ≤ 2 ∧ (fields ≠ [] → zero ≤ x) ∧ ∀ y ∈ fields, belowSixty y = true := by
  constructor
  · intro h
    refine ⟨Nat.le_of_succ_le_succ h.length_le, fun hne => ?_, fun y hy => ?_⟩
    · exact h.nonneg (Nat.succ_lt_succ (List.length_pos_iff.mpr hne)) x List.mem_cons_self
    · have hlength : 1 < (x :: fields).length :=
        Nat.succ_lt_succ (List.length_pos_of_mem hy)
      exact belowSixty_iff.mpr
        ⟨h.nonneg hlength y (List.mem_cons_of_mem x hy), h.belowSixty y hy⟩
  · rintro ⟨hlength, hx, hfields⟩
    refine ⟨by simp, Nat.succ_le_succ hlength, fun hmany => ?_, fun y hy => ?_⟩
    · rw [List.forall_mem_cons]
      exact ⟨hx (List.length_pos_iff.mp (Nat.lt_of_succ_lt_succ hmany)),
        fun y hy => (belowSixty_iff.mp (hfields y hy)).1⟩
    · exact (belowSixty_iff.mp (hfields y hy)).2

end

/-! ## Exact numbers -/

theorem sexagesimal_seconds (s : Extended) : sexagesimal [s] = s :=
  Extended.zero_mul_add 60 s

theorem sexagesimal_minutes (m s : Extended) : sexagesimal [m, s] = m * ofNat 60 + s := by
  change (zero * ofNat 60 + m) * ofNat 60 + s = _
  rw [Extended.zero_mul_add]

theorem sexagesimal_hours (h m s : Extended) :
    sexagesimal [h, m, s] = h * ofNat 3600 + m * ofNat 60 + s := by
  change ((zero * ofNat 60 + h) * ofNat 60 + m) * ofNat 60 + s = _
  rw [Extended.zero_mul_add, Extended.add_mul_ofNat _ _ (by decide),
    Extended.mul_ofNat_mul_ofNat _ (by decide) (by decide)]

theorem ofFields?_eq_some {fields : List Extended} {t : Extended} :
    ofFields? fields = some t ↔ IsClock fields ∧ sexagesimal fields = t := by
  match fields with
  | [] => exact ⟨nofun, fun h => absurd h.1.pos (by simp)⟩
  | [s] => simp [ofFields?, isClock_cons, sexagesimal_seconds]
  | [m, s] => simp [ofFields?, isClock_cons, sexagesimal_minutes]
  | [h, m, s] => simp [ofFields?, isClock_cons, sexagesimal_hours, and_assoc]
  | _ :: _ :: _ :: _ :: _ => exact ⟨nofun, fun h => absurd h.1.length_le (by simp)⟩

/-- The numbers that `field` reads between the colons of a text that says a time. -/
structure Reads (field : String → Option Extended) (s : String) (fields : List Extended) :
    Prop where
  notBlank : Text.trim s ≠ ""
  read : (texts (Text.trim s)).map field = fields.map some
  clock : IsClock fields
  finite : isFinite (sexagesimal fields) = true

section
variable {field : String → Option Extended}

theorem readWith?_iff_reads {s : String} {t : Extended} :
    readWith? field s = some t ↔ ∃ fields, Reads field s fields ∧ sexagesimal fields = t := by
  rw [readWith?_eq_some, ← texts_trim]
  constructor
  · rintro ⟨hblank, fields, hread, hfields, hfinite⟩
    obtain ⟨hclock, rfl⟩ := ofFields?_eq_some.mp hfields
    exact ⟨fields, ⟨hblank, hread, hclock, hfinite⟩, rfl⟩
  · rintro ⟨fields, h, rfl⟩
    exact ⟨h.notBlank, fields, h.read, ofFields?_eq_some.mpr ⟨h.clock, rfl⟩, h.finite⟩

/-! ## Hours as minutes -/

theorem not_mem_natText {c : Char} (hc : c.isDigit = false) (n : Nat) :
    c ∉ (toString n).toList := by
  have htext : (toString n).toList = Nat.toDigits 10 n := Nat.toList_repr
  rw [htext]
  intro hmem
  rw [Nat.isDigit_of_mem_toDigits (by decide) (by decide) hmem] at hc
  exact absurd hc (by decide)

theorem texts_natText_colon (n : Nat) (s : String) :
    texts (toString n ++ ":" ++ s) = toString n :: texts s := by
  rw [texts_append_colon (not_mem_natText (by decide) n), (Text.isLabel_natText n).trim]

theorem trim_append_colon (a s : String) : Text.trim (a ++ ":" ++ s) ≠ "" := by
  rw [Ne, Text.trim_eq_empty_iff, Text.isBlankText]
  intro h
  have hcolon : ':' ∈ (a ++ ":" ++ s).toList := by simp [String.toList_append]
  exact absurd (List.all_eq_true.mp h ':' hcolon) (by decide)

/-- A number in front of a colon is the first field, and the others are those of what follows. -/
theorem exists_fields_natText_colon {n : Nat} (hn : field (toString n) = some (ofNat n))
    {s : String} {P : List Extended → Prop} :
    (∃ fields, (texts (toString n ++ ":" ++ s)).map field = fields.map some ∧ P fields) ↔
      ∃ fields, (texts s).map field = fields.map some ∧ P (ofNat n :: fields) := by
  rw [texts_natText_colon, List.map_cons, hn]
  constructor
  · rintro ⟨_ | ⟨x, fields⟩, hread, hP⟩
    · exact absurd hread nofun
    · obtain ⟨hx, hfields⟩ := List.cons.inj hread
      obtain rfl : ofNat n = x := Option.some.inj hx
      exact ⟨fields, hfields, hP⟩
  · rintro ⟨fields, hread, hP⟩
    exact ⟨ofNat n :: fields, congrArg (some (ofNat n) :: ·) hread, hP⟩

theorem sexagesimal_natural (h m : Nat) (fields : List Extended) :
    sexagesimal (ofNat h :: ofNat m :: fields) = sexagesimal (ofNat (60 * h + m) :: fields) := by
  have hcount : (zero * ofNat 60 + ofNat h) * ofNat 60 + ofNat m =
      (zero * ofNat 60 + ofNat (60 * h + m) : Extended) := by
    rw [Extended.zero_mul_add, Extended.zero_mul_add]
    simp [mul_comm]
  simp only [sexagesimal, List.foldl_cons, hcount]

theorem isClock_natural (h : Nat) {m : Nat} (hm : m < 60) {fields : List Extended} :
    IsClock (ofNat h :: ofNat m :: fields) ↔
      fields.length ≤ 1 ∧ IsClock (ofNat (60 * h + m) :: fields) := by
  have hnonneg (n : Nat) : (zero : Extended) ≤ ofNat n :=
    Extended.exact_le_exact.mpr (by exact_mod_cast Nat.zero_le n)
  have hlt : (ofNat m : Extended) < ofNat 60 :=
    Extended.exact_lt_exact.mpr (by exact_mod_cast hm)
  have hbelow : belowSixty (ofNat m : Extended) = true := belowSixty_iff.mpr ⟨hnonneg m, hlt⟩
  rw [isClock_cons, isClock_cons, List.forall_mem_cons]
  constructor
  · rintro ⟨hlength, -, -, hfields⟩
    have hshort : fields.length ≤ 1 := Nat.le_of_succ_le_succ hlength
    exact ⟨hshort, hshort.trans (by decide), fun _ => hnonneg _, hfields⟩
  · rintro ⟨hshort, -, -, hfields⟩
    exact ⟨Nat.succ_le_succ hshort, fun _ => hnonneg h, hbelow, hfields⟩

/-- Hours and minutes in front of a field say what the minutes alone do. In front of more than one
field there is no room for hours. -/
theorem readWith?_hours {h m : Nat} (hm : m < 60) (hh : field (toString h) = some (ofNat h))
    (hmin : field (toString m) = some (ofNat m))
    (hall : field (toString (60 * h + m)) = some (ofNat (60 * h + m))) {s : String} {t : Extended} :
    readWith? field (toString h ++ ":" ++ (toString m ++ ":" ++ s)) = some t ↔
      (texts s).length ≤ 1 ∧ readWith? field (toString (60 * h + m) ++ ":" ++ s) = some t := by
  have hlength {fields : List Extended} (hread : (texts s).map field = fields.map some) :
      (texts s).length = fields.length := by
    rw [← List.length_map (f := field), hread, List.length_map]
  rw [readWith?_eq_some, readWith?_eq_some, and_iff_right (trim_append_colon _ _),
    and_iff_right (trim_append_colon _ _), exists_fields_natText_colon hh,
    exists_fields_natText_colon hmin, exists_fields_natText_colon hall]
  simp only [ofFields?_eq_some, isClock_natural h hm, sexagesimal_natural]
  constructor
  · rintro ⟨fields, hread, ⟨⟨hshort, hclock⟩, ht⟩, hfinite⟩
    exact ⟨(hlength hread).trans_le hshort, fields, hread, ⟨hclock, ht⟩, hfinite⟩
  · rintro ⟨hshort, fields, hread, ⟨hclock, ht⟩, hfinite⟩
    exact ⟨fields, hread, ⟨⟨(hlength hread).symm.trans_le hshort, hclock⟩, ht⟩, hfinite⟩

end

/-- Whatever reads a field, a text says a time exactly if it has the fields of a clock, and the time
is what these come to. In front of a last field, minutes can be given with their hours or counted
through; in front of a text with a colon, they can at most be counted. What a value of a document
gives, on any scale, is finite and not negative. -/
theorem readWith?_spec (field : String → Option Extended) :
    (∀ s t, readWith? field s = some t ↔
      ∃ fields, Reads field s fields ∧ sexagesimal fields = t) ∧
    (∀ h m : Nat, m < 60 →
      (∀ n ∈ [h, m, 60 * h + m], field (toString n) = some (ofNat n)) → ∀ s : String,
        let clock := toString h ++ ":" ++ (toString m ++ ":" ++ s)
        let counted := toString (60 * h + m) ++ ":" ++ s
        (':' ∉ s.toList → readWith? field clock = readWith? field counted) ∧
        ∀ t, readWith? field clock = some t → readWith? field counted = some t) ∧
    ∀ {T : Type} [TimeScale T] (j : Json T) (t : T),
      ofJson? j = some t → isFinite t = true ∧ zero ≤ t := by
  refine ⟨fun s t => readWith?_iff_reads, fun h m hm hnat s => ?_,
    fun j t => bounds_of_ofJson?⟩
  intro clock counted
  have hhours {t : Extended} : readWith? field clock = some t ↔
      (texts s).length ≤ 1 ∧ readWith? field counted = some t :=
    readWith?_hours hm (hnat h (by simp)) (hnat m (by simp)) (hnat (60 * h + m) (by simp))
  refine ⟨fun hs => Option.ext fun t => ?_, fun t ht => (hhours.mp ht).2⟩
  rw [hhours, texts_of_not_mem hs]
  exact and_iff_right le_rfl

theorem field?_natText (n : Nat) : field? (toString n) = some (ofNat n : Extended) := by
  rw [field?, Numeral.read?_toString, Option.bind_some]
  change some (Extended.exact ((n : Rat) * 10 ^ 0)) = _
  simp

/-- An hour and 23 minutes are 83 minutes, with blanks around the seconds. -/
theorem readWith?_spec_at :
    let t : Extended := .exact (50255 / 10)
    readWith? field? "1:23: 45.5 " = some t ∧ readWith? field? "83: 45.5 " = some t ∧
      isFinite t = true ∧ zero ≤ t := by
  intro t
  obtain ⟨hiff, hhours, hfits⟩ := readWith?_spec field?
  let fields : List Extended := [.exact 1, .exact 23, .exact (455 / 10)]
  have hclock : IsClock fields := by
    rw [isClock_cons]
    decide +kernel
  have hread : readWith? field? "1:23: 45.5 " = some t :=
    (hiff _ t).mpr ⟨fields, ⟨by decide +kernel, by decide +kernel, hclock, by decide +kernel⟩,
      by decide +kernel⟩
  have hcounted : readWith? field? "1:23: 45.5 " = readWith? (field? (T := Extended)) "83: 45.5 " :=
    (hhours 1 23 (by decide) (fun n _ => field?_natText n) " 45.5 ").1 (by decide)
  have hjson : ofJson? (.text "1:23: 45.5 ") = some t := by
    decide +kernel
  exact ⟨hread, hcounted.symm.trans hread, hfits _ t hjson⟩

/-- In front of two fields there is room for the minutes of an hour, but not for the hour. -/
theorem readWith?_clock_of_colon :
    (∀ n ∈ [1, 2, 60 * 1 + 2], field? (toString n) = some (ofNat n : Extended)) ∧
      toString 1 ++ ":" ++ (toString 2 ++ ":" ++ "0:5") = "1:2:0:5" ∧
      toString (60 * 1 + 2) ++ ":" ++ "0:5" = "62:0:5" ∧
      readWith? (field? (T := Extended)) "1:2:0:5" = none ∧
      readWith? field? "62:0:5" = some (Extended.exact 223205) :=
  ⟨fun n _ => field?_natText n, by decide +kernel, by decide +kernel, by decide +kernel,
    by decide +kernel⟩

end Montage.Stamp
