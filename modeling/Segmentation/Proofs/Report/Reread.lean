import Mathlib
import Segmentation.Proofs.Json.Indented
import Segmentation.Proofs.Members
import Segmentation.Report.Rendering

/-!
# Reports read back from their JSON text

The JSON text of reports is an indented document, so it is read back as it was written
(`read_indented_reports`), as long as the counts and the positions in it fit machine words. The
reader puts the fields of a report in the order of their names (`settled_toJson`).
`jsonText_lossless` states that nothing is lost on the way, and that leaving out the members changes
nothing but them.
-/

set_option autoImplicit false

namespace Segmentation.Report

open Members (get?)

/-- The counts and the positions in a report fit machine words. -/
structure FitsWords (report : Report) : Prop where
  total_le : report.total ≤ Word.unsignedMax
  matched_le : report.matched ≤ Word.unsignedMax
  members_le : ∀ index ∈ report.members, index ≤ Word.unsignedMax

theorem FitsWords.withoutMembers {report : Report} (h : report.FitsWords) :
    report.withoutMembers.FitsWords :=
  ⟨h.total_le, h.matched_le, fun _ hindex ↦ absurd hindex List.not_mem_nil⟩

/-- A list of positions as a document. -/
def positionsJson (positions : List ℕ) : Json :=
  .array (positions.map fun (index : ℕ) ↦ .number (.integer index))

/-- The fields of a report as they are read, in the order of their names. -/
def fields (report : Report) : List (String × Json) :=
  [("matched", .number (.integer report.matched)), ("members", positionsJson report.members),
    ("name", .string report.name), ("total_events", .number (.integer report.total))]

theorem settled_positionsJson (positions : List ℕ) :
    (positionsJson positions).settled = positionsJson positions := by
  rw [positionsJson, Json.settled, Json.settledItems_eq_map, List.map_map]
  rfl

/-- The fields in the order in which they are written, put in the order of their names. -/
theorem ofList_fields (name total matched members : Json) :
    Members.ofList [("name", name), ("total_events", total), ("matched", matched),
        ("members", members)] =
      [("matched", matched), ("members", members), ("name", name), ("total_events", total)] := by
  have htotal : Members.insert "total_events" total [("name", name)] =
      [("name", name), ("total_events", total)] := rfl
  have hmatched : Members.insert "matched" matched [("name", name), ("total_events", total)] =
      [("matched", matched), ("name", name), ("total_events", total)] := rfl
  have hmembers : Members.insert "members" members
        [("matched", matched), ("name", name), ("total_events", total)] =
      [("matched", matched), ("members", members), ("name", name), ("total_events", total)] := rfl
  simp only [Members.ofList, List.foldl_cons, List.foldl_nil]
  rw [Members.insert, htotal, hmatched, hmembers]

/-- Reading a report puts its fields in order and changes none. -/
theorem settled_toJson (report : Report) : report.toJson.settled = .object report.fields := by
  have hmembers := settled_positionsJson report.members
  rw [positionsJson] at hmembers
  rw [toJson, Json.settled, Json.settledMembers_eq_map]
  simp only [List.map_cons, List.map_nil, hmembers]
  exact congrArg Json.object (ofList_fields _ _ _ _)

/-- Leaving out the members empties one field. -/
theorem fields_withoutMembers (report : Report) :
    report.withoutMembers.fields = Members.insert "members" (.array []) report.fields := rfl

theorem fitsWord_natCast {n : ℕ} (h : n ≤ Word.unsignedMax) : Json.FitsWord n :=
  ⟨(Int.neg_nonpos_of_nonneg (by decide)).trans (Int.natCast_nonneg n), Int.ofNat_le.mpr h⟩

theorem FitsWords.isIntegral_toJson {report : Report} (h : report.FitsWords) (depth : ℕ) :
    Json.IsIntegral (depth + 2) report.toJson := by
  refine .object fun member hmember ↦ ?_
  simp only [List.mem_cons, List.not_mem_nil, or_false] at hmember
  rcases hmember with rfl | rfl | rfl | rfl
  · exact .string _ report.name
  · exact .integer _ (fitsWord_natCast h.total_le)
  · exact .integer _ (fitsWord_natCast h.matched_le)
  · refine .array fun item hitem ↦ ?_
    obtain ⟨index, hindex, rfl⟩ := List.mem_map.mp hitem
    exact .integer _ (fitsWord_natCast (h.members_le index hindex))

/-- The text of reports is read as the list of their fields. -/
theorem read_indented_reports {reports : List Report} (h : ∀ report ∈ reports, report.FitsWords) :
    Json.read (Json.array (reports.map toJson)).indented =
      .ok (.array (reports.map fun report ↦ .object report.fields)) := by
  have hintegral : Json.IsIntegral Json.maxDepth (.array (reports.map toJson)) := by
    refine .array fun item hitem ↦ ?_
    obtain ⟨report, hreport, rfl⟩ := List.mem_map.mp hitem
    exact (h report hreport).isIntegral_toJson 124
  rw [Json.read_indented hintegral, Json.settled, Json.settledItems_eq_map, List.map_map]
  exact congrArg (Except.ok ∘ Json.array)
    (List.map_congr_left fun report _ ↦ settled_toJson report)

/-- Reports are read back from their JSON text: it is a list with one object for each report, in
their order, which has exactly four fields, and these hold the name, the two counts and the members
of the report as they are. Without the lists of members the text is read as the same objects, except
that each has an empty list as its members. -/
theorem jsonText_lossless {reports : List Report} (h : ∀ report ∈ reports, report.FitsWords) :
    ∃ objects : List (List (String × Json)),
      Json.read (jsonText true reports) = .ok (.array (objects.map .object)) ∧
      Json.read (jsonText false reports) = .ok (.array (objects.map fun object ↦
        .object (Members.insert "members" (.array []) object))) ∧
      List.Forall₂ (fun (report : Report) (object : List (String × Json)) ↦
        object.map Prod.fst = ["matched", "members", "name", "total_events"] ∧
          get? "name" object = some (.string report.name) ∧
          get? "total_events" object = some (.number (.integer report.total)) ∧
          get? "matched" object = some (.number (.integer report.matched)) ∧
          get? "members" object = some (.array (report.members.map fun (index : ℕ) ↦
            .number (.integer index))))
        reports objects := by
  refine ⟨reports.map fields, ?_, ?_, ?_⟩
  · rw [List.map_map]
    exact read_indented_reports h
  · have hwithout : ∀ report ∈ reports.map withoutMembers, report.FitsWords := by
      intro report hreport
      obtain ⟨whole, hwhole, rfl⟩ := List.mem_map.mp hreport
      exact (h whole hwhole).withoutMembers
    have htext : jsonText false reports =
        (Json.array ((reports.map withoutMembers).map toJson)).indented := rfl
    rw [htext, read_indented_reports hwithout, List.map_map, List.map_map]
    refine congrArg (Except.ok ∘ Json.array) (List.map_congr_left fun report _ ↦ ?_)
    exact congrArg Json.object (fields_withoutMembers report)
  · rw [List.forall₂_map_right_iff, List.forall₂_same]
    intro report _
    exact ⟨rfl, rfl, rfl, rfl, rfl⟩

/-- A report with the largest count and a name that needs escapes, and one without members. -/
theorem jsonText_lossless_largest :
    let reports : List Report := [⟨"\"\n", Word.unsignedMax, 1, [7]⟩, ⟨"", 0, 0, []⟩]
    jsonText true reports = "[\n  \x7b\n    \"name\": \"\\\"\\n\",\n" ++
        "    \"total_events\": 18446744073709551615,\n    \"matched\": 1,\n" ++
        "    \"members\": [\n      7\n    ]\n  \x7d,\n  \x7b\n    \"name\": \"\",\n" ++
        "    \"total_events\": 0,\n    \"matched\": 0,\n    \"members\": []\n  \x7d\n]" ∧
      (∀ report ∈ reports, report.FitsWords) ∧
      ∃ first second, Json.read (jsonText true reports) =
          .ok (.array [.object first, .object second]) ∧
        Json.read (jsonText false reports) =
          .ok (.array [.object (Members.insert "members" (.array []) first),
            .object (Members.insert "members" (.array []) second)]) ∧
        get? "name" first = some (.string "\"\n") ∧
        get? "total_events" first = some (.number (.integer Word.unsignedMax)) ∧
        get? "members" first = some (.array [.number (.integer 7)]) ∧
        get? "members" second = some (.array []) := by
  intro reports
  have h : ∀ report ∈ reports, report.FitsWords := by
    intro report hreport
    simp only [reports, List.mem_cons, List.not_mem_nil, or_false] at hreport
    rcases hreport with rfl | rfl
    · exact ⟨by decide, by decide, by decide⟩
    · exact ⟨by decide, by decide, by decide⟩
  refine ⟨by decide +kernel, h, ?_⟩
  obtain ⟨objects, hwith, hwithout, hobjects⟩ := jsonText_lossless h
  obtain ⟨first, rest, ⟨-, hname, htotal, -, hmembers⟩, hrest, rfl⟩ :=
    List.forall₂_cons_left_iff.mp hobjects
  obtain ⟨second, none, ⟨-, -, -, -, hsecond⟩, hnone, rfl⟩ := List.forall₂_cons_left_iff.mp hrest
  cases List.forall₂_nil_left_iff.mp hnone
  exact ⟨first, second, hwith, hwithout, hname, htotal, hmembers, hsecond⟩

end Segmentation.Report
