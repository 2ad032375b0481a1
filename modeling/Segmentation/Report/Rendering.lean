import Segmentation.Binary64.Arithmetic
import Segmentation.Decimal.Layout
import Segmentation.Json.Writer
import Segmentation.Report.Basic

/-!
Reports as a JSON document and as a table of text. The column of names is as wide as the longest
name is in bytes, while the names are filled up by characters; so no name is ever too long for it.
But a width that does not fit 16 bits cannot be filled up to: with a name that long the table breaks
off at its first line, and nothing of it is left. The document has no such limit.
-/

set_option autoImplicit false

namespace Segmentation

namespace Text

/-- A text filled with spaces on the right. -/
def padRight (width : Nat) (text : List Char) : List Char :=
  text ++ List.replicate (width - text.length) ' '

/-- A text filled with spaces on the left. -/
def padLeft (width : Nat) (text : List Char) : List Char :=
  List.replicate (width - text.length) ' ' ++ text

theorem length_padRight (width : Nat) (text : List Char) :
    (padRight width text).length = max width text.length := by
  simp only [padRight, List.length_append, List.length_replicate]
  omega

theorem length_padLeft (width : Nat) (text : List Char) :
    (padLeft width text).length = max width text.length := by
  simp only [padLeft, List.length_append, List.length_replicate]
  omega

end Text

namespace Report

/-! ### A document -/

/-- A report without its list of members. -/
def withoutMembers (report : Report) : Report := { report with members := [] }

/-- A report as a document. -/
def toJson (report : Report) : Json :=
  .object [("name", .string report.name),
    ("total_events", .number (.integer report.total)),
    ("matched", .number (.integer report.matched)),
    ("members", .array (report.members.map fun (index : Nat) ↦ .number (.integer index)))]

/-- Reports as an indented document, with or without the lists of members. -/
def jsonText (listsMembers : Bool) (reports : List Report) : String :=
  let shown := if listsMembers then reports else reports.map withoutMembers
  (Json.array (shown.map toJson)).indented

/-! ### A table -/

open Text

/-- The width of the column of names. -/
def nameWidth (reports : List Report) : Nat :=
  (reports.map fun report ↦ report.name.utf8ByteSize).foldl max 7

/-- The percentage of the events that are members; of no events, none. -/
def share (report : Report) : Binary64 :=
  if report.total = 0 then .zero
  else ((Binary64.ofNat report.matched).mul (.ofNat 100)).div (.ofNat report.total)

/-- A row of the table. -/
def row (width : Nat) (name matched total share : List Char) : List Char :=
  padRight width name ++ "  ".toList ++ padLeft 8 matched ++ "  ".toList ++ padLeft 8 total ++
    "  ".toList ++ share

def headerRow (width : Nat) : List Char :=
  row width "Segment".toList "Matched".toList "Total".toList (padLeft 7 "Share".toList)

def rule (width : Nat) : List Char := List.replicate (width + 31) '-'

/-- The row of one report. -/
def reportRow (width : Nat) (report : Report) : List Char :=
  row width report.name.toList (Nat.toDigits 10 report.matched) (Nat.toDigits 10 report.total)
    (padLeft 6 (Decimal.oneDecimal report.share) ++ ['%'])

/-- The line that lists members. -/
def memberLine (width : Nat) (report : Report) : List Char :=
  List.replicate width ' ' ++ "  events: ".toList ++
    List.intercalate ", ".toList (report.members.map (Nat.toDigits 10))

/-- The lines of one report: its row, and its members if there are any to list. -/
def reportLines (listsMembers : Bool) (width : Nat) (report : Report) : List (List Char) :=
  reportRow width report ::
    if listsMembers && !report.members.isEmpty then [memberLine width report] else []

/-- The lines of the table. -/
def tableLines (listsMembers : Bool) (reports : List Report) : List (List Char) :=
  let width := nameWidth reports
  headerRow width :: rule width :: reports.flatMap (reportLines listsMembers width)

/-- The greatest width that a text can be filled up to, which is `2 ^ 16 - 1`. -/
def widest : Nat := 0xffff

/-- The table, each line with its end; none if its column of names is too wide. -/
def table (listsMembers : Bool) (reports : List Report) : Option String :=
  if nameWidth reports ≤ widest then
    some (String.ofList ((tableLines listsMembers reports).flatMap (· ++ ['\n'])))
  else none

end Report

end Segmentation
