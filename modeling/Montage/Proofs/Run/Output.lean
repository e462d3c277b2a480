import Montage.Proofs.Run.Contents

/-!
# What the output holds

When the last task is done the current file is copied to the output, and all files of the run but
the output are removed. Both steps tell paths apart by how they are written. Main statement: after
them the output has the contents of the current file exactly if neither went wrong with two ways to
write one path.
-/

namespace Montage

/-- The output keeps what was copied to it. -/
structure Files.Keeps (fs : Files) (current output : Path) (removed : List Path)
    (bytes : ByteArray) : Prop where
  /-- A file that is left where it is, since it is written like the output, is at the output. -/
  alike : current.same output = true → fs.samePlace current output = true
  /-- A file that is copied onto itself is emptied before it is read. -/
  apart : current.same output = false → fs.samePlace current output = true →
    bytes = ByteArray.empty
  /-- Nothing that is removed is at the output. -/
  keyed : fs.Keyed removed output

namespace Registry
variable {r : Registry} {fs : Files} {output : Path} {bytes : ByteArray}

/-- Where the output leads, the sweep of all but the output changes nothing if no other way to write
a removed file leads there. -/
theorem contents_sweep_of_keyed {q : Place} (hq : fs.locate output = .ok q)
    (hkeyed : (sweep fs (r.persist output).transients).files.Keyed
      (r.transients.map Transient.path) output) :
    (sweep fs (r.persist output).transients).files.contents q = fs.contents q := by
  have htree := sweep_sameTree fs (r.persist output).transients
  have hswept : (sweep fs (r.persist output).transients).files.at? q = fs.at? q := by
    refine at?_sweep fun t ht hstate hloc => ?_
    obtain ⟨hold, -, hsame⟩ := mem_persist_produced.mp ⟨ht, hstate⟩
    have hplace := Files.samePlace_iff.mpr ⟨q, htree.1.locate hloc, htree.1.locate hq⟩
    rw [hkeyed t.path (List.mem_map_of_mem hold) hplace] at hsame
    exact absurd hsame (by simp)
  unfold Files.contents
  rw [hswept]

/-- After the sweep the output is readable if it was before, and if it was not removed. -/
theorem read_sweep_persist_iff (hproduced : ∀ t ∈ r.transients, t.state = .produced) :
    (sweep fs (r.persist output).transients).files.read output = .ok bytes ↔
      fs.read output = .ok bytes ∧ (sweep fs (r.persist output).transients).files.Keyed
        (r.transients.map Transient.path) output := by
  have htree := sweep_sameTree fs (r.persist output).transients
  rw [Files.read_eq_ok, Files.read_eq_ok]
  constructor
  · rintro ⟨q, hq, hbytes⟩
    have hkeyed : (sweep fs (r.persist output).transients).files.Keyed
        (r.transients.map Transient.path) output := by
      intro p hp hplace
      obtain ⟨t, ht, rfl⟩ := List.mem_map.mp hp
      obtain ⟨q', htloc, hq'⟩ := Files.samePlace_iff.mp hplace
      obtain rfl := Except.ok.inj (hq.symm.trans hq')
      by_contra hsame
      obtain ⟨hmem, hstate⟩ :=
        mem_persist_produced.mpr ⟨ht, hproduced t ht, Bool.eq_false_iff.mpr hsame⟩
      rw [contents_sweep hmem hstate (htree.locate_iff.mp htloc)] at hbytes
      exact absurd hbytes (by simp)
    have hq' := htree.locate_iff.mp hq
    rw [contents_sweep_of_keyed hq' hkeyed] at hbytes
    exact ⟨⟨q, hq', hbytes⟩, hkeyed⟩
  · rintro ⟨⟨q, hq, hbytes⟩, hkeyed⟩
    refine ⟨q, htree.locate_iff.mpr hq, ?_⟩
    rw [contents_sweep_of_keyed hq hkeyed, hbytes]

end Registry

namespace Scratch
variable {current output : Path} {fs out : Files} {bytes : ByteArray}

/-- What a final copy copies can be read. -/
theorem finalize_reads (h : finalize current output fs = (.ok (), out))
    (hother : current.same output = false) : ∃ bytes, fs.read current = .ok bytes := by
  obtain ⟨-, ⟨hsame, -⟩ | ⟨-, paved, bytes, -, hread, -⟩⟩ := finalize_ok h
  · rw [hother] at hsame
    exact absurd hsame (by simp)
  · exact ⟨bytes, hread⟩

/-- The final copy gives the output the contents of the current file, unless it took the two for one
file or for two while they were not. -/
theorem read_finalize_iff (h : finalize current output fs = (.ok (), out))
    (hread : fs.read current = .ok bytes) :
    out.read output = .ok bytes ↔
      (current.same output = true → out.samePlace current output = true) ∧
        (current.same output = false → out.samePlace current output = true →
          bytes = ByteArray.empty) := by
  obtain ⟨-, ⟨hsame, rfl⟩ | ⟨hother, paved, bytes', -, hread', hwrite⟩⟩ := finalize_ok h
  · obtain ⟨q, hq, hbytes⟩ := Files.read_eq_ok.mp hread
    constructor
    · intro houtput
      obtain ⟨q', hq', -⟩ := Files.read_eq_ok.mp houtput
      obtain rfl := Files.locate_inj_of_same hsame hq hq'
      exact ⟨fun _ => Files.samePlace_iff.mpr ⟨q, hq, hq'⟩,
        fun hother => absurd (hsame.symm.trans hother) (by simp)⟩
    · rintro ⟨halike, -⟩
      obtain ⟨q', hq', hoq⟩ := Files.samePlace_iff.mp (halike hsame)
      obtain rfl := Except.ok.inj (hq.symm.trans hq')
      exact Files.read_eq_ok.mpr ⟨q, hoq, hbytes⟩
  · obtain rfl := Except.ok.inj (hread.symm.trans hread')
    have htouch := Files.touches_of_write hwrite
    obtain ⟨dest, hdest, hnil, -, rfl⟩ := Files.write_eq_ok hwrite
    rw [htouch.sameTree.samePlace_eq, Files.read_eq_ok]
    constructor
    · rintro ⟨q, hq, hbytes⟩
      refine ⟨fun hsame => absurd (hother.symm.trans hsame) (by simp), fun _ hplace => ?_⟩
      obtain rfl := Except.ok.inj (hdest.symm.trans (htouch.sameTree.locate_iff.mp hq))
      unfold Files.contents at hbytes
      rw [Files.at?_set_self paved hnil, if_pos hplace] at hbytes
      exact (Option.some.inj hbytes).symm
    · rintro ⟨-, hempty⟩
      refine ⟨dest, htouch.sameTree.locate_iff.mpr hdest, ?_⟩
      unfold Files.contents
      rw [Files.at?_set_self paved hnil]
      split_ifs with hplace
      · rw [hempty hother hplace]
        rfl
      · rfl

end Scratch

/-- After the final copy and the sweep the output has the contents of the current file exactly if
it keeps them. -/
theorem Registry.read_output_iff {r : Registry} {fs out : Files} {output : Path}
    {bytes : ByteArray} (hproduced : ∀ t ∈ r.transients, t.state = .produced)
    (hfinal : Scratch.finalize r.current output fs = (.ok (), out))
    (hread : fs.read r.current = .ok bytes) :
    (sweep out (r.persist output).transients).files.read output = .ok bytes ↔
      (sweep out (r.persist output).transients).files.Keeps r.current output
        (r.transients.map Transient.path) bytes := by
  rw [read_sweep_persist_iff hproduced, Scratch.read_finalize_iff hfinal hread,
    ← (sweep_sameTree out (r.persist output).transients).samePlace_eq]
  constructor
  · rintro ⟨⟨halike, hapart⟩, hkeyed⟩
    exact ⟨halike, hapart, hkeyed⟩
  · rintro ⟨halike, hapart, hkeyed⟩
    exact ⟨⟨halike, hapart⟩, hkeyed⟩

end Montage
