import Mathlib
import Segmentation.Proofs.Report.Share

/-!
# The columns of the table

The column of names is as wide as the longest name is in bytes, while names are filled up by
characters. No name has more characters than bytes (`length_toList_le`), so every name fits. The
counts are below `10 ^ 8` and the tenths of a percentage are at most `1000`, so they fit too, and a
line of texts that fit has its columns at fixed places (`columns_row`). Only the width of the column
of names itself can be too great, and then there is no table (`table_eq_none_iff`). `table_columns`
puts these together, for every list of reports.
-/

set_option autoImplicit false

namespace Segmentation

/-! ### Padding -/

namespace Text

/-- A text has no more characters than bytes. -/
theorem length_toList_le (text : String) : text.toList.length ≤ text.utf8ByteSize := by
  rw [← String.utf8Len_toList]
  induction text.toList with
  | nil => exact le_rfl
  | cons c rest ih =>
    rw [String.utf8Len_cons, List.length_cons]
    exact Nat.add_le_add ih c.utf8Size_pos

/-- A letter repeated takes at least one byte each time. -/
theorem le_utf8ByteSize_replicate (count : ℕ) (c : Char) :
    count ≤ (String.ofList (List.replicate count c)).utf8ByteSize := by
  have hle := length_toList_le (String.ofList (List.replicate count c))
  rwa [String.toList_ofList, List.length_replicate] at hle

/-- Where a text fits, blanks before it widen its column. -/
theorem blanks_append_padLeft {width : ℕ} {text : List Char} (h : text.length ≤ width)
    (blanks : ℕ) :
    List.replicate blanks ' ' ++ padLeft width text = padLeft (blanks + width) text := by
  rw [padLeft, padLeft, Nat.add_sub_assoc h, ← List.replicate_append_replicate, List.append_assoc]

/-- What follows a column widens it. -/
theorem padLeft_append (width : ℕ) (text rest : List Char) :
    padLeft width text ++ rest = padLeft (width + rest.length) (text ++ rest) := by
  rw [padLeft, padLeft, List.length_append, Nat.add_sub_add_right, List.append_assoc]

/-- The part of a line that stands between two places. -/
theorem extract_append (front middle back : List Char) {start stop : ℕ}
    (hstart : front.length = start) (hstop : start + middle.length = stop) :
    (front ++ (middle ++ back)).extract start stop = middle := by
  subst hstart hstop
  rw [List.extract, List.drop_left, Nat.add_sub_cancel_left, List.take_left]

end Text

theorem Decimal.length_writeTenths_le {tenths : ℕ} (h : tenths ≤ 1000) :
    (writeTenths tenths).length ≤ 5 := by
  have hwhole : (Nat.toDigits 10 (tenths / 10)).length ≤ 3 :=
    (Nat.length_toDigits_le_iff (by decide) (by decide)).mpr (by omega)
  have hrest : (Nat.toDigits 10 (tenths % 10)).length ≤ 1 :=
    (Nat.length_toDigits_le_iff (by decide) (by decide)).mpr (by omega)
  rw [writeTenths, List.length_append, List.length_cons]
  omega

namespace Report

open Text

/-! ### Lines -/

/-- A line of the table: a name filled up to a width, and three texts that end 10, 20 and 29
characters after it, with nothing but blanks before them and at least two. -/
structure Columns (width : ℕ) (name matched total share line : List Char) : Prop where
  length_eq : line.length = width + 29
  name_eq : line.extract 0 width = padRight width name
  matched_eq : line.extract width (width + 10) = padLeft 10 matched
  total_eq : line.extract (width + 10) (width + 20) = padLeft 10 total
  share_eq : line.extract (width + 20) (width + 29) = padLeft 9 share
  name_le : name.length ≤ width
  matched_le : matched.length ≤ 8
  total_le : total.length ≤ 8
  share_le : share.length ≤ 7

/-- A row of texts that fit has its columns in their places. -/
theorem columns_row {width : ℕ} {name matched total share : List Char}
    (hname : name.length ≤ width) (hmatched : matched.length ≤ 8) (htotal : total.length ≤ 8)
    (hshare : share.length ≤ 7) :
    Columns width name matched total share (row width name matched total (padLeft 7 share)) := by
  -- The two blanks between columns belong to the column after them.
  have hmatchedCell : padLeft 10 matched = "  ".toList ++ padLeft 8 matched :=
    (blanks_append_padLeft hmatched 2).symm
  have htotalCell : padLeft 10 total = "  ".toList ++ padLeft 8 total :=
    (blanks_append_padLeft htotal 2).symm
  have hshareCell : padLeft 9 share = "  ".toList ++ padLeft 7 share :=
    (blanks_append_padLeft hshare 2).symm
  have hcells : row width name matched total (padLeft 7 share) =
      padRight width name ++ (padLeft 10 matched ++ (padLeft 10 total ++ padLeft 9 share)) := by
    rw [row, hmatchedCell, htotalCell, hshareCell]
    simp only [List.append_assoc]
  have hwidth : (padRight width name).length = width := by
    rw [length_padRight, max_eq_left hname]
  have hlengths : (padLeft 10 matched).length = 10 ∧ (padLeft 10 total).length = 10 ∧
      (padLeft 9 share).length = 9 := by
    rw [length_padLeft, length_padLeft, length_padLeft]
    omega
  obtain ⟨hten, hten', hnine⟩ := hlengths
  rw [hcells]
  refine ⟨?_, ?_, ?_, ?_, ?_, hname, hmatched, htotal, hshare⟩
  · simp only [List.length_append]
    omega
  · exact extract_append [] _ _ rfl (by omega)
  · exact extract_append _ _ _ hwidth (by omega)
  · rw [← List.append_assoc]
    exact extract_append _ _ _ (by rw [List.length_append]; omega) (by omega)
  · have hfront : (padRight width name ++ (padLeft 10 matched ++ padLeft 10 total)).length =
        width + 20 := by
      simp only [List.length_append]
      omega
    have hlast := extract_append _ (padLeft 9 share) [] hfront
      (show width + 20 + (padLeft 9 share).length = width + 29 by omega)
    rwa [List.append_nil, List.append_assoc, List.append_assoc] at hlast

/-- The header has its titles in the columns. -/
theorem columns_headerRow {width : ℕ} (h : 7 ≤ width) :
    Columns width "Segment".toList "Matched".toList "Total".toList "Share".toList
      (headerRow width) :=
  columns_row h (by decide) (by decide) (by decide)

/-! ### Rows -/

/-- The text is the share of the members in percent, with one decimal place. -/
structure IsShare (report : Report) (text : List Char) : Prop where
  exists_tenths : ∃ tenths ≤ 1000, text = Decimal.writeTenths tenths ++ ['%'] ∧
    report.IsNearestTenth tenths
  whole : 0 < report.total → report.matched = report.total → text = "100.0%".toList
  none : report.total = 0 ∨ report.matched = 0 → text = "0.0%".toList

/-- A percentage of tenths nearest to the share is the share. -/
theorem Counted.isShare {report : Report} (h : report.Counted) {tenths : ℕ}
    (htenths : report.IsNearestTenth tenths) :
    report.IsShare (Decimal.writeTenths tenths ++ ['%']) := by
  have hmatched := h.matched_le
  refine ⟨⟨tenths, htenths.le_whole hmatched, rfl, htenths⟩, ?_, ?_⟩
  · intro hpos hall
    rw [htenths.eq_whole hpos hall]
    rfl
  · intro hnone
    rw [htenths.eq_none (by omega)]
    rfl

theorem length_toString_le {n : ℕ} (h : n < 10 ^ 8) : (toString n).toList.length ≤ 8 := by
  rw [Nat.toString_eq_repr, Nat.toList_repr]
  exact (Nat.length_toDigits_le_iff (by decide) (by decide)).mpr h

/-- A row has the name of its report, the counts and the share in the columns. -/
theorem Counted.exists_columns_reportRow {report : Report} (h : report.Counted) {width : ℕ}
    (hname : report.name.utf8ByteSize ≤ width) :
    ∃ share, report.IsShare share ∧
      Columns width report.name.toList (toString report.matched).toList
        (toString report.total).toList share (reportRow width report) := by
  obtain ⟨tenths, htext, htenths⟩ := h.exists_tenths
  have hlength := Decimal.length_writeTenths_le (htenths.le_whole h.matched_le)
  refine ⟨_, h.isShare htenths, ?_⟩
  have hrow : reportRow width report = row width report.name.toList
      (toString report.matched).toList (toString report.total).toList
      (padLeft 7 (Decimal.writeTenths tenths ++ ['%'])) := by
    rw [reportRow, htext, padLeft_append, Nat.toString_eq_repr, Nat.toString_eq_repr,
      Nat.toList_repr, Nat.toList_repr]
    rfl
  rw [hrow]
  refine columns_row ((length_toList_le _).trans hname)
    (length_toString_le (h.matched_le.trans_lt h.total_lt)) (length_toString_le h.total_lt) ?_
  rw [List.length_append]
  exact (Nat.add_le_add_right hlength 1).trans (by decide)

/-! ### The table -/

/-- A running maximum is the greatest of what it has seen. -/
theorem isGreatest_foldl_max (start : ℕ) (sizes : List ℕ) :
    IsGreatest (insert start {size | size ∈ sizes}) (sizes.foldl max start) := by
  induction sizes generalizing start with
  | nil => exact ⟨Set.mem_insert _ _, by simp [upperBounds]⟩
  | cons size rest ih =>
    obtain ⟨hmem, hupper⟩ := ih (max start size)
    rw [List.foldl_cons]
    constructor
    · rcases hmem with heq | hrest
      · rw [heq]
        rcases max_choice start size with hstart | hsize
        · exact Or.inl hstart
        · exact Or.inr (List.mem_cons.mpr (Or.inl hsize))
      · exact Or.inr (List.mem_cons_of_mem _ hrest)
    · have hmax := hupper (Set.mem_insert _ _)
      rintro bound (rfl | hbound)
      · exact (le_max_left _ _).trans hmax
      · rcases List.mem_cons.mp hbound with rfl | hrest
        · exact (le_max_right _ _).trans hmax
        · exact hupper (Set.mem_insert_of_mem _ hrest)

/-- The column of names is as wide as its title or the longest name in bytes. -/
theorem isGreatest_nameWidth (reports : List Report) :
    IsGreatest (insert 7 {size | ∃ report ∈ reports, report.name.utf8ByteSize = size})
      (nameWidth reports) := by
  have hgreatest := isGreatest_foldl_max 7 (reports.map fun report ↦ report.name.utf8ByteSize)
  simp only [List.mem_map] at hgreatest
  exact hgreatest

theorem memberLine_eq (width : ℕ) (report : Report) :
    memberLine width report = List.replicate width ' ' ++
      ("  events: " ++ ", ".intercalate (report.members.map toString)).toList := by
  have hdigits : String.toList ∘ toString = Nat.toDigits 10 := by
    funext n
    simp only [Function.comp_apply, Nat.toString_eq_repr, Nat.toList_repr]
  rw [memberLine, String.toList_append, String.toList_intercalate, List.map_map, hdigits,
    List.append_assoc]

/-- There is no table exactly if some name has more than 65535 bytes. -/
theorem table_eq_none_iff {listsMembers : Bool} {reports : List Report} :
    table listsMembers reports = none ↔ ∃ report ∈ reports, 65535 < report.name.utf8ByteSize := by
  obtain ⟨hmem, hupper⟩ := isGreatest_nameWidth reports
  have hnone : table listsMembers reports = none ↔ 65535 < nameWidth reports := by
    unfold table
    split
    · next hwidth => exact ⟨fun h ↦ absurd h (by simp), fun h ↦ absurd hwidth h.not_ge⟩
    · next hwidth => exact ⟨fun _ ↦ not_le.mp hwidth, fun _ ↦ rfl⟩
  rw [hnone]
  constructor
  · intro hwidth
    rcases hmem with hseven | ⟨report, hreport, hsize⟩
    · omega
    · exact ⟨report, hreport, hsize ▸ hwidth⟩
  · rintro ⟨report, hreport, hsize⟩
    exact hsize.trans_le (hupper (Set.mem_insert_of_mem _ ⟨report, hreport, rfl⟩))

theorem toList_of_table_eq_some {listsMembers : Bool} {reports : List Report} {text : String}
    (h : table listsMembers reports = some text) :
    text.toList = (tableLines listsMembers reports).flatMap (· ++ ['\n']) := by
  unfold table at h
  split at h
  · rw [← Option.some.inj h, String.toList_ofList]
  · exact absurd h (by simp)

/-- The reports on fewer than `10 ^ 8` events have counts that fit the table. Of any reports there
is a table unless a name has more than 65535 bytes. If the counts fit, the table has a header, a
rule and a block for each report, in their order. The column of names is as wide as its title or the
longest name in bytes. The header and the first line of each block have the same columns, and in
these stand the name of the report as it is, the two counts and the share. A second line follows if
the members are to be listed and there are some, and lists all of them in their order. -/
theorem table_columns (listsMembers : Bool) (reports : List Report) :
    (∀ (schedule : Schedule) (settings : Settings) (events : List Event) (segments : List Segment),
      events.length < 10 ^ 8 →
        ∀ report ∈ (ofSegments schedule settings events segments).value, report.Counted) ∧
    (table listsMembers reports = none ↔
      ∃ report ∈ reports, 65535 < report.name.utf8ByteSize) ∧
    ∀ text, table listsMembers reports = some text → (∀ report ∈ reports, report.Counted) →
      ∃ (width : ℕ) (header : List Char) (blocks : List (List (List Char))),
        text.toList =
          (header :: List.replicate (width + 31) '-' :: blocks.flatten).flatMap (· ++ ['\n']) ∧
        IsGreatest (insert 7 {size | ∃ report ∈ reports, report.name.utf8ByteSize = size})
          width ∧
        Columns width "Segment".toList "Matched".toList "Total".toList "Share".toList header ∧
        List.Forall₂ (fun (report : Report) (block : List (List Char)) ↦ ∃ row share,
            Columns width report.name.toList (toString report.matched).toList
              (toString report.total).toList share row ∧
            report.IsShare share ∧
            block = row :: if listsMembers = true ∧ report.members ≠ [] then
              [List.replicate width ' ' ++
                ("  events: " ++ ", ".intercalate (report.members.map toString)).toList] else [])
          reports blocks := by
  refine ⟨fun schedule settings events segments h ↦
    counted_ofSegments schedule settings h segments, table_eq_none_iff, ?_⟩
  intro text htext hcounted
  have hwidth := isGreatest_nameWidth reports
  refine ⟨nameWidth reports, headerRow (nameWidth reports),
    reports.map (reportLines listsMembers (nameWidth reports)), ?_, hwidth,
    columns_headerRow (hwidth.2 (Set.mem_insert _ _)), ?_⟩
  · rw [toList_of_table_eq_some htext]
    rfl
  · rw [List.forall₂_map_right_iff, List.forall₂_same]
    intro report hreport
    obtain ⟨share, hshare, hcolumns⟩ := (hcounted report hreport).exists_columns_reportRow
      (hwidth.2 (Set.mem_insert_of_mem _ ⟨report, hreport, rfl⟩))
    refine ⟨reportRow (nameWidth reports) report, share, hcolumns, hshare, ?_⟩
    rw [reportLines, memberLine_eq]
    simp

/-- Names of one to four bytes a character, a share that is rounded, and no events. -/
theorem table_columns_multibyte :
    let reports : List Report := [⟨"né€😀", 3, 1, [2]⟩, ⟨"", 0, 0, []⟩, ⟨"all", 2, 2, [0, 1]⟩]
    let text := "Segment      Matched     Total    Share\n" ++
      "-----------------------------------------\n" ++
      "né€😀               1         3    33.3%\n" ++
      "            events: 2\n" ++
      "                   0         0     0.0%\n" ++
      "all                2         2   100.0%\n" ++
      "            events: 0, 1\n"
    table true reports = some text ∧
      (∀ report ∈ reports, report.Counted) ∧
      ∃ (header : List Char) (blocks : List (List (List Char))),
        text.toList = (header :: List.replicate 41 '-' :: blocks.flatten).flatMap (· ++ ['\n']) ∧
        header.length = 39 ∧
        List.Forall₂ (fun (report : Report) (block : List (List Char)) ↦ ∃ row ∈ block,
          row.length = 39 ∧ row.extract 0 10 = padRight 10 report.name.toList) reports blocks := by
  intro reports text
  have h : ∀ report ∈ reports, report.Counted := by
    intro report hreport
    simp only [reports, List.mem_cons, List.not_mem_nil, or_false] at hreport
    rcases hreport with rfl | rfl | rfl
    · exact ⟨by decide, by decide⟩
    · exact ⟨by decide, by decide⟩
    · exact ⟨by decide, by decide⟩
  have htext : table true reports = some text := by decide +kernel
  refine ⟨htext, h, ?_⟩
  obtain ⟨width, header, blocks, htable, hwidth, hheader, hblocks⟩ :=
    (table_columns true reports).2.2 text htext h
  have hten : width = 10 := hwidth.unique (isGreatest_nameWidth reports)
  subst hten
  refine ⟨header, blocks, htable, hheader.length_eq, hblocks.imp fun report block hblock ↦ ?_⟩
  obtain ⟨row, share, hcolumns, -, rfl⟩ := hblock
  exact ⟨row, List.mem_cons_self, hcolumns.length_eq, hcolumns.name_eq⟩

/-- The report on one event has no table if the name of its segment has 65536 letters. -/
theorem table_eq_none_of_long_name :
    let report : Report := ⟨String.ofList (List.replicate 65536 'a'), 1, 1, [0]⟩
    report.Counted ∧ table false [report] = none ∧ table true [report] = none := by
  intro report
  have hsize : 65535 < report.name.utf8ByteSize := le_utf8ByteSize_replicate 65536 'a'
  have hlong : ∃ other ∈ [report], 65535 < other.name.utf8ByteSize :=
    ⟨report, List.mem_singleton_self report, hsize⟩
  exact ⟨⟨by decide, by decide⟩, table_eq_none_iff.mpr hlong, table_eq_none_iff.mpr hlong⟩

end Report

end Segmentation
