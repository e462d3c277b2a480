import Montage.Cli.Basic
import Montage.Proofs.Json.Printer
import Montage.Proofs.Plan.Rereading

/-!
# Plans that are printed

The command that repairs a plan prints it, and the command that runs a plan can be told to leave it
as it is. What the first prints is for the second the same plan that it would have made of the
original itself.
-/

namespace Montage

namespace Plan
variable {T : Type} [TimeScale T]

theorem repairWithSlots_nil (r : InsertRules T) (ts : Plan T) :
    ts.repairWithSlots r [] = ts.repair r := rfl

theorem ofText_eq [Spelled T] {s : String} {j : Json T} (h : Json.ofText s = .ok j) :
    ofText s = ofJson j := by
  simp only [ofText, h]

end Plan

namespace Cli
variable {T : Type} [TimeScale T] [Spelled T]

/-- The plan of a file, where it is taken as it stands. -/
theorem loadPlan_of_ofText {c : Config T} {fs : Files} {p : Path} {s : String}
    {reading : Plan.Reading T} (hfile : fs.readText p = .ok s)
    (h : Plan.ofText s = .ok reading) : (loadPlan c fs p false).1 = .ok reading.tasks := by
  simp only [loadPlan, hfile, h]
  rfl

/-- Where it is repaired, it is the repair of the same plan. -/
theorem loadPlan_repaired {c : Config T} {fs : Files} {p : Path} {ts : Plan T}
    (h : (loadPlan c fs p false).1 = .ok ts) :
    (loadPlan c fs p true).1 = .ok (ts.repair c.rules).plan := by
  unfold loadPlan at h ⊢
  split at h
  · cases h
  · split at h
    · cases h
    · next reading _ =>
      obtain rfl : reading.tasks = ts := Except.ok.inj h
      rfl

theorem printed_repairPlan {su : Surroundings} {c : Config T} {p : Path} {ts : Plan T}
    (h : (loadPlan c su.files p false).1 = .ok ts) :
    (repairPlan su c p none).printed = (ts.repair c.rules).plan.json.pretty ++ "\n" := by
  cases hload : loadPlan c su.files p false with
  | mk answer log =>
    rw [hload] at h
    obtain rfl : answer = .ok ts := h
    simp only [repairPlan, hload, Plan.repairWithSlots_nil]

/-- The plan of a file with the JSON text of a canonical plan. -/
theorem loadPlan_of_json [Spelled Rat] {c : Config Rat} {fs : Files} {p : Path} {s : String}
    {ts : Plan Rat} (h : ts.Canonical) (hfile : fs.readText p = .ok s)
    (hjson : Json.ofText s = .ok ts.json.ordered) : (loadPlan c fs p false).1 = .ok ts :=
  loadPlan_of_ofText hfile ((Plan.ofText_eq hjson).trans h.ofJson_ordered)

/-- What is read from a document, and what a repair makes of it, is read again from the value that
its text spells. So the plan that is printed of a repair is run, without a repair, as the plan that
a repair makes of the original. -/
theorem repaired_plan_reread [Spelled Rat] (hspelled : ∀ x : Rat, Text.IsLabel (Spelled.json x))
    (r : InsertRules Rat) {j : Json Rat} (hordered : j.Ordered) {reading : Plan.Reading Rat}
    (h : Plan.ofJson j = .ok reading)
    (htext : ∀ record ∈ Plan.records j, ∀ s, record.get? "inputs" = some (.text s) →
      Text.IsLabel s) :
    Plan.ofJson reading.tasks.json.ordered = .ok ⟨reading.tasks, []⟩ ∧
    Plan.ofJson (reading.tasks.repair r).plan.json.ordered =
      .ok ⟨(reading.tasks.repair r).plan, []⟩ ∧
    ∀ (su : Surroundings) (c : Config Rat) (original : Path), c.rules = r →
      (loadPlan c su.files original false).1 = .ok reading.tasks →
      ∀ (fs : Files) (copy : Path),
        fs.readText copy = .ok (repairPlan su c original none).printed →
        Json.ofText ((reading.tasks.repair r).plan.json.pretty ++ "\n") =
          .ok (reading.tasks.repair r).plan.json.ordered →
        (loadPlan c fs copy false).1 = (loadPlan c su.files original true).1 := by
  have hcanonical := Plan.canonical_of_ofJson hspelled hordered h htext
  refine ⟨hcanonical.ofJson_ordered, (hcanonical.repair r).ofJson_ordered, ?_⟩
  rintro su c original rfl hload fs copy hfile hjson
  rw [printed_repairPlan hload] at hfile
  rw [loadPlan_repaired hload]
  exact loadPlan_of_json (hcanonical.repair c.rules) hfile hjson

/-- Exact times are written with a point if they are whole, and as fractions if not. -/
def exactText (x : Rat) : String :=
  toString x.num ++ if x.den = 1 then ".0" else "/" ++ toString x.den

instance : Spelled Rat where
  plain := exactText
  diagnostic := exactText
  json := exactText
  fixed _ := exactText

theorem isLabel_exactText (x : Rat) : Text.IsLabel (exactText x) := by
  have htext : (exactText x).toList = (toString x.num).toList ++
      (if x.den = 1 then ".0" else "/" ++ toString x.den).toList := String.toList_append
  apply Text.IsLabel.of_forall
  · rw [htext]
    exact List.append_ne_nil_of_left_ne_nil (Text.intText_ne_nil x.num) _
  · rw [htext]
    intro c hc
    obtain hc | hc := List.mem_append.mp hc
    · exact Text.isBlank_of_mem_intText hc
    · split_ifs at hc
      · exact Text.not_blank_of_all (by decide) c hc
      · rw [String.toList_append] at hc
        obtain hc | hc := List.mem_append.mp hc
        · obtain rfl := List.mem_singleton.mp hc
          decide
        · exact Text.isBlank_of_mem_natText hc

/-- An insert whose names and times are spelled in several ways, a trim, a task of an unknown type,
and a record that is no task. -/
def spelledDocument : Json Rat :=
  .list [
    .object [("action", .text "fetch-external-video"), ("config", .object [("query", .text "sea")]),
      ("id", .number (.real 7))],
    .object [("inputs", .list [.text " source"]), ("operation", .text "overlay-external-video"),
      ("parameters", .object [("clip_id", .number (.real 7)), ("end_time", .text "1:05"),
        ("start_time", .text " 5 ")])],
    .object [("inputs", .text "source"), ("output_id", .text " a "), ("params", .object [
      ("end", .text "00:01:20"), ("start", .number (.int 0))]), ("type", .text " Trim ")],
    .object [("params", .object [("segments", .list [.object [("end", .text "1:30")]]),
      ("start", .number (.int 3))]), ("type", .text "sparkle")],
    .object [("type", .number (.int 1))]]

def spelledReading : Plan.Reading Rat := Plan.readRecords 0 (Plan.records spelledDocument)

theorem ordered_spelledDocument : spelledDocument.Ordered := by
  have h : spelledDocument.ordered = spelledDocument := rfl
  exact h ▸ spelledDocument.ordered_ordered

/-- A directory that holds a plan and nothing else. -/
def shelf (text : String) : Files where
  here := []
  entries := [(["plan.json"], .file text.toUTF8)]

theorem readText_shelf (text : String) : (shelf text).readText ⟨"plan.json"⟩ = .ok text := by
  have hread : (shelf text).read ⟨"plan.json"⟩ = .ok text.toUTF8 := rfl
  have htext : String.fromUTF8? text.toUTF8 = some text := by
    have hvalid : text.toUTF8.IsValidUTF8 := text.isValidUTF8
    simp only [String.fromUTF8?, hvalid, ↓reduceDIte]
    rfl
  simp only [Files.readText, hread, htext, bind, Except.bind]

def spelledSurroundings : Surroundings where
  host := ⟨fun _ _ _ _ => .overdue⟩
  files := shelf (spelledDocument.pretty ++ "\n")
  programs := []
  temporary := (⟨"/tmp"⟩, "scratch")
  uid _ := "0a1b2c3d"
  elapsed := "0"

def settings : Config Rat := .default

theorem loadPlan_spelledSurroundings :
    (loadPlan settings spelledSurroundings.files ⟨"plan.json"⟩ false).1 =
      .ok spelledReading.tasks := by
  have hlegible : spelledDocument.Legible := by decide +kernel
  have hjson := hlegible.ofText_pretty (by decide +kernel)
  rw [ordered_spelledDocument.ordered_eq] at hjson
  have hread : Plan.ofJson spelledDocument = .ok spelledReading := rfl
  exact loadPlan_of_ofText (readText_shelf _) ((Plan.ofText_eq hjson).trans hread)

theorem repaired_plan_reread_spelledDocument :
    (∀ x : Rat, Text.IsLabel (Spelled.json x)) ∧ spelledDocument.Ordered ∧
      Plan.ofJson spelledDocument = .ok spelledReading ∧
      (∀ record ∈ Plan.records spelledDocument, ∀ s, record.get? "inputs" = some (.text s) →
        Text.IsLabel s) ∧
      spelledReading.tasks.length = 4 ∧ spelledReading.dropped.length = 1 ∧
      Plan.ofJson spelledReading.tasks.json.ordered = .ok ⟨spelledReading.tasks, []⟩ ∧
      Plan.ofJson (spelledReading.tasks.repair InsertRules.default).plan.json.ordered =
        .ok ⟨(spelledReading.tasks.repair InsertRules.default).plan, []⟩ ∧
      (loadPlan settings
        (shelf (repairPlan spelledSurroundings settings ⟨"plan.json"⟩ none).printed)
        ⟨"plan.json"⟩ false).1 =
        (loadPlan settings spelledSurroundings.files ⟨"plan.json"⟩ true).1 := by
  have hread : Plan.ofJson spelledDocument = .ok spelledReading := rfl
  have hsource : ∀ record ∈ Plan.records spelledDocument, ∀ s,
      record.get? "inputs" = some (.text s) → s = "source" := by
    simp [spelledDocument, Plan.records, Json.get?, Members.get?,
      List.lookup_cons]
  have htext : ∀ record ∈ Plan.records spelledDocument, ∀ s,
      record.get? "inputs" = some (.text s) → Text.IsLabel s := by
    intro record hrecord s hs
    obtain rfl := hsource record hrecord s hs
    exact ⟨by decide, by decide⟩
  have hlegible : (spelledReading.tasks.repair InsertRules.default).plan.json.Legible := by
    decide +kernel
  obtain ⟨hplan, hrepaired, hrun⟩ := repaired_plan_reread isLabel_exactText InsertRules.default
    ordered_spelledDocument hread htext
  have hcopy := hrun spelledSurroundings settings ⟨"plan.json"⟩ rfl
    loadPlan_spelledSurroundings _ ⟨"plan.json"⟩ (readText_shelf _)
    (hlegible.ofText_pretty (by decide +kernel))
  exact ⟨isLabel_exactText, ordered_spelledDocument, hread, htext, by decide +kernel,
    by decide +kernel, hplan, hrepaired, hcopy⟩

end Cli

end Montage
