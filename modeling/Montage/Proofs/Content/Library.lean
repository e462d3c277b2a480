import Montage.Content.Library
import Montage.Proofs.Run.Tidy

/-!
# A library writes where it may

The copy that a library makes goes to the next path of the scratch directory: what it puts into the
name, a query and an extension, has no slash. So a run may rely on a library.
-/

namespace Montage

theorem Query.slash_not_mem_slug (query : String) : '/' ∉ (slug query).toList := by
  unfold slug
  rw [String.toList_ofList]
  intro hmem
  obtain ⟨c, -, hc⟩ := List.mem_map.mp (List.mem_of_mem_take hmem)
  split_ifs at hc with halpha
  · rw [hc] at halpha
    exact absurd halpha (by decide +kernel)
  · exact absurd hc (by decide)

theorem Path.slash_not_mem_extension {p : Path} {e : String} (h : p.extension? = some e) :
    '/' ∉ e.toList := by
  obtain ⟨name, hname, he⟩ := Option.bind_eq_some_iff.mp h
  have hslash : '/' ∉ name.toList := by
    unfold fileName? at hname
    cases hlast : p.components.getLast? with
    | none => simp [hlast] at hname
    | some s =>
      simp only [hlast] at hname
      split_ifs at hname with hdots
      obtain rfl := Option.some.inj hname
      rcases mem_components (List.mem_of_getLast? hlast) with rfl | rfl | hmem
      · exact absurd (by decide) hdots
      · exact absurd (by decide) hdots
      · exact slash_not_mem_of_mem_segments hmem
  unfold splitName at he
  dsimp only at he
  split at he
  · exact absurd he (by simp)
  · exact absurd he (by simp)
  · obtain rfl := Option.some.inj he
    rw [String.toList_ofList, List.mem_reverse]
    intro hmem
    exact hslash (List.mem_reverse.mp (List.takeWhile_subset _ hmem))

theorem Text.slash_not_mem_lowercaseAscii {s : String} (h : '/' ∉ s.toList) :
    '/' ∉ (lowercaseAscii s).toList := by
  unfold lowercaseAscii
  rw [String.toList_ofList]
  intro hmem
  obtain ⟨c, hc, hlower⟩ := List.mem_map.mp hmem
  unfold Char.toLower at hlower
  split_ifs at hlower with hupper
  · have hval : c.val.toNat + 32 = 47 := by
      have hle : c.val.toNat ≤ 90 := UInt32.le_iff_toNat_le.mp hupper.2
      have hnat := congrArg (fun d => d.val.toNat) hlower
      rw [UInt32.toNat_add, show ('a'.val - 'A'.val).toNat = 32 from rfl,
        show '/'.val.toNat = 47 from rfl] at hnat
      omega
    have hge : 65 ≤ c.val.toNat := UInt32.le_iff_toNat_le.mp hupper.1
    omega
  · rw [hlower] at hc
    exact h hc

namespace Library

theorem copyPath_gives {T : Type} {scratch s : Scratch} (h : scratch.Later s)
    (request : Request T) (p : Path) : scratch.Gives (copyPath request s p) := by
  unfold copyPath
  apply h.gives_next
  · have hstem : '/' ∉ request.kind.stem.toList := by cases request.kind <;> decide
    simp [hstem, Query.slash_not_mem_slug]
  · cases he : p.extension? with
    | none => decide
    | some e => exact Text.slash_not_mem_lowercaseAscii (Path.slash_not_mem_extension he)

variable {T : Type} [TimeScale T] [Spelled T]

/-- A library writes at most the copy that it answers with. -/
theorem placesIn_source (l : Library) (host : Host) {scratch : Scratch}
    (hdigits : ∀ n, '/' ∉ (scratch.uid n).toList) :
    (l.source host : ContentSource T).PlacesIn scratch := by
  intro n request s fs hs
  change scratch.Later (l.fetch host request s fs).scratch ∧ scratch.Places fs
    (l.fetch host request s fs).answer.toOption.join (l.fetch host request s fs).files
  unfold fetch
  split
  · exact ⟨hs, rfl⟩
  · split
    · exact ⟨hs, rfl⟩
    · rename_i p log _
      dsimp only
      split
      · exact ⟨hs.advance, rfl⟩
      · rename_i out hcopy
        obtain ⟨bytes, -, hwrite⟩ := Files.copy_eq_ok hcopy
        have hgives := copyPath_gives hs request p
        have hunder : (copyPath request s p).isUnder scratch.dir = true := by
          obtain ⟨name, hname, hjoin⟩ := hgives.exists_name hdigits
          rw [hjoin]
          exact hname.isUnder_join
        refine ⟨hs.advance, ?_⟩
        simp only [Except.toOption, Option.join_some, Scratch.Places, hunder, if_true]
        exact ⟨hgives, Files.touches_of_write hwrite⟩

end Library

end Montage
