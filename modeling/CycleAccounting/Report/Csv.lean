import CycleAccounting.Report.Basic

/-!
# Comma-separated records

Summary rows are kept as records of fields with commas between them, one record to a line.  A field
with a comma, a quote or a line feed in it is put in quotes, and a quote inside it is written twice.
A header record holds the names of the columns, a row a label and one amount for each column.
-/

namespace CycleAccounting.Csv

/-- The field as it stands between quotes. -/
def doubleQuotes : List Char → List Char
  | [] => []
  | c :: rest => if c = '"' then '"' :: '"' :: doubleQuotes rest else c :: doubleQuotes rest

/-- Whether a field has to be quoted. -/
def needsQuotes (field : List Char) : Bool :=
  field.any fun c => c = ',' || c = '"' || c = '\n'

/-- The written form of a field. -/
def writeField (field : String) : String :=
  if needsQuotes field.toList then
    String.ofList ('"' :: (doubleQuotes field.toList ++ ['"']))
  else field

/-- The line of a header over some columns. -/
def headerLine (names : List String) : String :=
  String.join ("name" :: names.map fun name => "," ++ writeField name) ++ "\n"

/-- The line of a row; amounts have six places. -/
def rowLine {α : Type} [DecimalText α] (label : String) (values : List α) : String :=
  String.join (writeField label :: values.map fun x => "," ++ DecimalText.fixed 6 x) ++ "\n"

end CycleAccounting.Csv

namespace CycleAccounting.Report

variable {α : Type} [Amount α] [DecimalText α]

/-- The summary row of a report, under its header if asked for. -/
def csvLines (r : Report α) (label : String) (header : Bool) : String :=
  (if header then Csv.headerLine r.names else "") ++ Csv.rowLine label r.summaryRow

end CycleAccounting.Report
