import Montage.Proofs.Media.Subtitles
import Montage.Proofs.Time.Tenth

/-!
# Times of subtitles

A subtitle file gives its times in hours, minutes, seconds and thousandths. A reader wants two
digits for the minutes and for the seconds, which are below sixty, three for the thousandths, and at
least two for the hours. Main statement: what is written for an exact time is read back as that
time, cut to whole thousandths, so that times are never written in another order than they have.
-/

namespace Montage
open TimeScale

/-- A time on the clock. -/
structure ClockTime where
  hours : Nat
  minutes : Fin 60
  seconds : Fin 60
  thousandths : Fin 1000
  deriving DecidableEq, Repr

namespace ClockTime

/-- Thousandths of a second up to a time on the clock. -/
def total (c : ClockTime) : Nat :=
  ((c.hours * 60 + c.minutes) * 60 + c.seconds) * 1000 + c.thousandths

/-- Seconds up to a time on the clock. -/
def time (c : ClockTime) : Rat := c.total / 1000

/-- The time on the clock after `n` thousandths of a second. -/
def ofTotal (n : Nat) : ClockTime where
  hours := n / 1000 / 3600
  minutes := ⟨n / 1000 % 3600 / 60, by omega⟩
  seconds := ⟨n / 1000 % 60, by omega⟩
  thousandths := ⟨n % 1000, by omega⟩

theorem total_ofTotal (n : Nat) : (ofTotal n).total = n := by
  simp only [total, ofTotal]
  omega

theorem time_ofTotal_mono {m n : Nat} (h : m ≤ n) : (ofTotal m).time ≤ (ofTotal n).time := by
  have hcast : (m : Rat) ≤ n := Nat.cast_le.mpr h
  unfold time
  rw [total_ofTotal, total_ofTotal]
  linarith

def text (c : ClockTime) : String :=
  padded 2 c.hours ++ ":" ++ padded 2 c.minutes ++ ":" ++ padded 2 c.seconds ++ "," ++
    padded 3 c.thousandths

/-! ## The reader -/

/-- A field of so many digits with a value below a bound. -/
def field? (width bound : Nat) (digits : List Char) : Option (Fin bound) :=
  if h : digits.length = width ∧ digits.all Char.isDigit ∧ Nat.ofDigitChars 10 digits 0 < bound then
    some ⟨Nat.ofDigitChars 10 digits 0, h.2.2⟩
  else none

/-- The field of the hours may have more than two digits. -/
def hours? (digits : List Char) : Option Nat :=
  if 2 ≤ digits.length ∧ digits.all Char.isDigit then some (Nat.ofDigitChars 10 digits 0) else none

def read? (s : String) : Option ClockTime :=
  match s.toList.splitOn ',' with
  | [clock, thousandths] =>
    match clock.splitOn ':' with
    | [hours, minutes, seconds] => do
      return ⟨← hours? hours, ← field? 2 60 minutes, ← field? 2 60 seconds,
        ← field? 3 1000 thousandths⟩
    | _ => none
  | _ => none

theorem all_isDigit_padded (width n : Nat) : (padded width n).toList.all Char.isDigit = true :=
  List.all_eq_true.mpr fun _ hc => mem_padded hc

theorem field?_padded {width bound : Nat} (hwidth : 0 < width) (hbound : bound ≤ 10 ^ width)
    (n : Fin bound) : field? width bound (padded width n).toList = some n := by
  have hlength := length_padded_of_lt hwidth (n.isLt.trans_le hbound)
  have hvalue := ofDigitChars_padded width n
  unfold field?
  rw [dif_pos ⟨hlength, all_isDigit_padded width n, hvalue.trans_lt n.isLt⟩]
  simp only [hvalue, Fin.eta]

theorem hours?_padded (n : Nat) : hours? (padded 2 n).toList = some n := by
  have hlength : 2 ≤ (padded 2 n).toList.length := length_padded 2 n ▸ le_max_left _ _
  unfold hours?
  rw [if_pos ⟨hlength, all_isDigit_padded 2 n⟩, ofDigitChars_padded]

/-- What is written is read back. -/
theorem read?_text (c : ClockTime) : read? c.text = some c := by
  let clock := [(padded 2 c.hours).toList, (padded 2 c.minutes).toList, (padded 2 c.seconds).toList]
  have hmark {mark : Char} (hdigit : mark.isDigit = false) :
      ∀ digits ∈ clock, mark ∉ digits := by
    simp [clock, not_mem_padded hdigit]
  have htext : c.text.toList =
      [','].intercalate [[':'].intercalate clock, (padded 3 c.thousandths).toList] := by
    simp [text, clock, List.intercalate_cons_cons]
  have hcomma : ∀ part ∈ [[':'].intercalate clock, (padded 3 c.thousandths).toList],
      ',' ∉ part := by
    have hthousandths : ',' ∉ (padded 3 c.thousandths).toList := not_mem_padded (by decide) 3 _
    simp [clock, List.intercalate_cons_cons, hthousandths, not_mem_padded]
  unfold read?
  rw [htext, List.splitOn_intercalate ',' hcomma (by simp)]
  dsimp only
  rw [List.splitOn_intercalate ':' (hmark (by decide)) (by simp [clock])]
  simp [clock, hours?_padded, field?_padded]

end ClockTime

/-! ## What is written -/

namespace Exact

theorem toWord_of_lt {t : Rat} (h : t < 2 ^ 64) : toWord t = t.floor.toNat := by
  have hfloor : t.floor < 2 ^ 64 := Rat.floor_lt_iff.mpr (by exact_mod_cast h)
  have hword : wordMax = 2 ^ 64 - 1 := rfl
  change min t.floor.toNat wordMax = t.floor.toNat
  omega

/-- The thousandths of a time are those of its whole seconds and those of what is left. -/
theorem floor_thousandths (t : Rat) :
    (1000 * t).floor = 1000 * t.floor + ((t - t.floor) * 1000).floor := by
  have hsplit : 1000 * t = (t - t.floor) * 1000 + ((1000 * t.floor : Int) : Rat) := by
    push_cast
    ring
  rw [hsplit, Rat.floor_add_intCast]
  omega

/-- What is left of a time behind its whole seconds has less than a thousand thousandths. -/
theorem floor_rest_bounds (t : Rat) :
    0 ≤ ((t - t.floor) * 1000).floor ∧ ((t - t.floor) * 1000).floor < 1000 := by
  have hle := Rat.floor_le t
  have hlt := Rat.lt_floor_add_one t
  push_cast at hlt
  exact ⟨Rat.le_floor_iff.mpr (by push_cast; linarith),
    Rat.floor_lt_iff.mpr (by push_cast; linarith)⟩

end Exact

namespace SubtitleCue

/-- Whole thousandths of a second up to a time. -/
def thousandths (t : Rat) : Nat := (1000 * max t 0).floor.toNat

theorem thousandths_mono {s t : Rat} (h : s ≤ t) : thousandths s ≤ thousandths t :=
  Int.toNat_le_toNat (Rat.floor_monotone (by linarith [max_le_max_right 0 h]))

theorem cast_thousandths {t : Rat} (h : 0 ≤ t) : (thousandths t : Rat) = (1000 * t).floor := by
  have hfloor : 0 ≤ (1000 * t).floor := Rat.le_floor_iff.mpr (by push_cast; linarith)
  rw [thousandths, max_eq_left h, ← Rat.intCast_natCast, Int.toNat_of_nonneg hfloor]

/-- The whole seconds and what is left of them are those of the thousandths. -/
theorem stamp_eq {t : Rat} (h : t < 2 ^ 64) :
    stamp t = (ClockTime.ofTotal (thousandths t)).text := by
  have hpos : 0 ≤ max t 0 := le_max_right t 0
  have hlt : max t 0 < 2 ^ 64 := max_lt h (by norm_num)
  unfold stamp thousandths
  simp only [Exact.later_eq, Exact.zero_eq, Exact.ofNat_eq, Nat.cast_ofNat]
  generalize max t 0 = u at hpos hlt
  have hseconds : 0 ≤ u.floor := Rat.le_floor_iff.mpr (by exact_mod_cast hpos)
  obtain ⟨hleft, hrest⟩ := Exact.floor_rest_bounds u
  have hfew : (u - u.floor) * 1000 < 2 ^ 64 :=
    (Rat.floor_lt_iff.mp hrest).trans (by norm_num)
  have hwhole : TimeScale.floor u = (u.floor : Rat) := rfl
  rw [hwhole, Exact.toWord_of_lt hlt, Exact.toWord_of_lt hfew, Exact.floor_thousandths]
  generalize ((u - u.floor) * 1000).floor = rest at hleft hrest
  generalize u.floor = seconds at hseconds
  have hquotient : (1000 * seconds + rest).toNat / 1000 = seconds.toNat := by omega
  have hremainder : (1000 * seconds + rest).toNat % 1000 = rest.toNat := by omega
  have hcut : min rest.toNat 999 = rest.toNat := by omega
  simp only [ClockTime.text, ClockTime.ofTotal, hquotient, hremainder, hcut]

theorem stamp_of_nonpos {t : Rat} (h : t ≤ 0) : stamp t = "00:00:00,000" := by
  have hzero : thousandths t = thousandths 0 := by
    rw [thousandths, thousandths, max_eq_right h, max_self]
  rw [stamp_eq (h.trans_lt (by norm_num)), hzero]
  decide +kernel

theorem read?_stamp {t : Rat} (h : t < 2 ^ 64) :
    ClockTime.read? (stamp t) = some (ClockTime.ofTotal (thousandths t)) := by
  rw [stamp_eq h, ClockTime.read?_text]

/-- The stamps in the line of times of a block. -/
def timesOf? (block : String) : Option (String × String) :=
  (Text.Chars.lines block.toList)[1]?.bind SubtitleBlock.times?

theorem timesOf?_block {T : Type} [TimeScale T] (c : SubtitleCue T) (n : Nat) :
    timesOf? (c.block n) = some (stamp c.start, stamp c.stopOrDefault) := by
  have hline : (c.blockLines n ++ [[]])[1]? =
      some (stamp c.start ++ " --> " ++ stamp c.stopOrDefault).toList := rfl
  rw [timesOf?, toList_block, Text.Chars.lines_ended (lineFeed_not_mem_blockLines c n), hline,
    Option.bind_some, SubtitleBlock.times?_words (isWord_stamp _) (isWord_stamp _)]

/-- What is written for a time is read back as the time cut to thousandths, or as zero for one below
zero. So what is written keeps the order of times, in a cue as elsewhere. -/
theorem stamp_reads_back :
    (∀ t : Rat, 0 ≤ t → t < 2 ^ 64 → ∃ c : ClockTime, stamp t = c.text ∧
      ClockTime.read? (stamp t) = some c ∧ c.time = (1000 * t).floor / 1000) ∧
    (∀ t : Rat, t < 0 → stamp t = stamp (0 : Rat) ∧ stamp t = "00:00:00,000") ∧
    (∀ s t : Rat, s ≤ t → t < 2 ^ 64 → ∃ a b, ClockTime.read? (stamp s) = some a ∧
      ClockTime.read? (stamp t) = some b ∧ a.time ≤ b.time) ∧
    ∀ (cue : SubtitleCue Rat) (n : Nat), cue.start ≤ cue.stopOrDefault →
      cue.stopOrDefault < 2 ^ 64 → ∃ start stop a b, timesOf? (cue.block n) = some (start, stop) ∧
        ClockTime.read? start = some a ∧ ClockTime.read? stop = some b ∧ a.time ≤ b.time := by
  have hordered (s t : Rat) (hst : s ≤ t) (ht : t < 2 ^ 64) :
      ∃ a b, ClockTime.read? (stamp s) = some a ∧ ClockTime.read? (stamp t) = some b ∧
        a.time ≤ b.time :=
    ⟨_, _, read?_stamp (hst.trans_lt ht), read?_stamp ht,
      ClockTime.time_ofTotal_mono (thousandths_mono hst)⟩
  refine ⟨fun t hpos ht => ⟨_, stamp_eq ht, read?_stamp ht, ?_⟩, fun t ht => ?_, hordered, ?_⟩
  · rw [ClockTime.time, ClockTime.total_ofTotal, cast_thousandths hpos]
  · exact ⟨(stamp_of_nonpos ht.le).trans (stamp_of_nonpos le_rfl).symm, stamp_of_nonpos ht.le⟩
  · intro cue n hst ht
    exact ⟨_, _, (hordered _ _ hst ht).imp fun a => Exists.imp fun b hab =>
      ⟨timesOf?_block cue n, hab⟩⟩

/-- Just before the second hour, and after a hundred hours. -/
theorem stamp_reads_back_lateCue :
    let cue : SubtitleCue Rat := ⟨7200 - 1 / 3000, some 360000, "late"⟩
    0 ≤ cue.start ∧ cue.start ≤ cue.stopOrDefault ∧ cue.stopOrDefault < 2 ^ 64 ∧
      (∃ c : ClockTime, stamp cue.start = c.text ∧ ClockTime.read? (stamp cue.start) = some c ∧
        c.time = 7199999 / 1000) ∧
      (-1 / 2 : Rat) < 0 ∧ stamp (-1 / 2 : Rat) = "00:00:00,000" ∧
      timesOf? (cue.block 1) = some ("01:59:59,999", "100:00:00,000") ∧
      ∃ start stop a b, timesOf? (cue.block 1) = some (start, stop) ∧
        ClockTime.read? start = some a ∧ ClockTime.read? stop = some b ∧ a.time ≤ b.time := by
  intro cue
  obtain ⟨hread, hnegative, -, hcue⟩ := stamp_reads_back
  have hpos : 0 ≤ cue.start := by decide +kernel
  have horder : cue.start ≤ cue.stopOrDefault := by decide +kernel
  have hlast : cue.stopOrDefault < 2 ^ 64 := by decide +kernel
  have hbelow : (-1 / 2 : Rat) < 0 := by decide +kernel
  have hfloor : ((1000 * cue.start).floor : Rat) / 1000 = 7199999 / 1000 := by decide +kernel
  exact ⟨hpos, horder, hlast, hfloor ▸ hread cue.start hpos (horder.trans_lt hlast), hbelow,
    (hnegative _ hbelow).2, by decide +kernel, hcue cue 1 horder hlast⟩

end SubtitleCue

end Montage
