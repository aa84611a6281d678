import CycleAccounting.Program
import CycleAccounting.Proofs.Directory
import Mathlib.Tactic.Common

/-!
# Records read back

`readRecords` reads records of fields the way that spreadsheets do, one character after the other.
What a `Reader` has read so far is all that it knows, so it can be followed through a text piece by
piece: through a field (`hasRead_writeField`), through a line (`foldl_line`), and through all that a
call writes (`Call.foldl_text`).  Each call leaves the reader where the next record starts, and so
**`records_read`** holds for every sequence of calls: exactly their records are read back, whatever
the labels, names and numbers are, and equally from a file that the calls append to.

Numbers need no quotes: `Decimal.all_fixed` tells which characters they are written with.
-/

namespace CycleAccounting

/-! ## The text of numbers -/

namespace Decimal

/-- Whether numbers with fixed places are written with a character. -/
def isNumberChar (c : Char) : Bool := c.isDigit || ['-', '.', 'N', 'a', 'i', 'n', 'f'].contains c

lemma all_digitsOf (n : ℕ) : (digitsOf n).all isNumberChar = true := by
  rw [List.all_eq_true]
  intro c hc
  have hdigit : c.isDigit = true := Nat.isDigit_of_mem_toDigits (by decide) (by decide) hc
  rw [isNumberChar, hdigit, Bool.true_or]

lemma all_withPoint (places n : ℕ) : (withPoint places n).toList.all isNumberChar = true := by
  have hzero : isNumberChar '0' = true := by decide
  have hpoint : isNumberChar '.' = true := by decide
  rw [withPoint]
  split_ifs
  · rw [String.toList_ofList]
    exact all_digitsOf n
  · rw [String.toList_ofList, List.all_append, List.all_cons, List.all_append, List.all_replicate,
      all_digitsOf, all_digitsOf, hzero, hpoint]
    simp

/-- **Numbers are written with digits, signs, points and the letters of what is not finite.** -/
theorem all_fixed (places : ℕ) (b : Binary) :
    (b.fixed places).toList.all isNumberChar = true := by
  have hsign (negative : Bool) : (sign negative).toList.all isNumberChar = true := by
    cases negative <;> decide
  cases b with
  | nan => exact (by decide : "NaN".toList.all isNumberChar = true)
  | infinite negative =>
      rw [Binary.fixed, String.toList_append, List.all_append, hsign]
      decide
  | finite negative m e =>
      rw [Binary.fixed, String.toList_append, List.all_append, hsign, all_withPoint]
      rfl

end Decimal

namespace Csv

/-! ## Lines -/

/-- The line of a record. -/
def line (first : String) (rest : List String) : String :=
  String.join (writeField first :: rest.map fun field => "," ++ writeField field) ++ "\n"

lemma headerLine_eq (names : List String) : headerLine names = line "name" names := by
  have hname : writeField "name" = "name" := by decide
  rw [headerLine, line, hname]

lemma writeField_fixed (places : ℕ) (x : Double) :
    writeField (DecimalText.fixed places x) = DecimalText.fixed places x := by
  have hplain : needsQuotes (DecimalText.fixed places x).toList = false := by
    have hall := Decimal.all_fixed places (.ofDouble x)
    rw [List.all_eq_true] at hall
    rw [needsQuotes, List.any_eq_false]
    intro c hc hspecial
    have hnumber := hall c hc
    simp only [Bool.or_eq_true, decide_eq_true_eq] at hspecial
    rcases hspecial with (rfl | rfl) | rfl <;> revert hnumber <;> decide
  rw [writeField, hplain, if_neg Bool.false_ne_true]

/-- Numbers are never quoted, so the line of a row is that of a record. -/
lemma rowLine_eq (label : String) (values : List Double) :
    rowLine label values = line label (values.map (DecimalText.fixed 6)) := by
  rw [rowLine, line, List.map_map]
  simp only [Function.comp_def, writeField_fixed]

/-! ## Reading -/

/-- Where a reader is in a field. -/
inductive Position where
  /-- Nothing of the field has been read. -/
  | start
  /-- In a field without quotes. -/
  | plain
  /-- Behind the opening quote. -/
  | quoted
  /-- Behind a quote in a quoted field, which closes the field unless another quote follows. -/
  | closing
  deriving DecidableEq, Repr

/-- What has been read: whole records, then whole fields of the next one, then a part of a field. -/
structure Reader where
  records : List (List String)
  fields : List String
  field : List Char
  position : Position
  deriving DecidableEq, Repr

namespace Reader

/-- The reader in front of a record. -/
def ahead (records : List (List String)) : Reader := ⟨records, [], [], .start⟩

/-- Reads a character of the field. -/
def take (r : Reader) (c : Char) (position : Position) : Reader :=
  { r with field := r.field ++ [c], position }

/-- Ends the field. -/
def endField (r : Reader) : Reader :=
  { r with fields := r.fields ++ [String.ofList r.field], field := [], position := .start }

/-- Ends the field, and the record with it. -/
def endRecord (r : Reader) : Reader := ahead (r.records ++ [r.endField.fields])

/-- Reads a character that stands outside of quotes: fields end at commas, records at line
feeds. -/
def outside (r : Reader) (c : Char) : Reader :=
  if c = ',' then r.endField else if c = '\n' then r.endRecord else r.take c .plain

/-- Reads a character.  A quote opens a quoted field only in front of it, and two of them stand for
one inside. -/
def step (r : Reader) (c : Char) : Reader :=
  match r.position with
  | .start => if c = '"' then { r with position := .quoted } else r.outside c
  | .plain => r.outside c
  | .quoted => if c = '"' then { r with position := .closing } else r.take c .quoted
  | .closing => if c = '"' then r.take c .quoted else r.outside c

/-- The records of a text that ends here; a record that no line feed has ended counts if anything of
it has been read. -/
def finish (r : Reader) : List (List String) :=
  if r.position = .start ∧ r.fields = [] then r.records else r.endRecord.records

end Reader

/-- The records of a text. -/
def readRecords (text : String) : List (List String) :=
  (text.toList.foldl Reader.step (.ahead [])).finish

/-! ## Reading what is written -/

section Written

variable {records : List (List String)} {fields : List String}

/-- The reader is where a field can end, with all records before and with the fields up to there. -/
structure Reader.HasRead (r : Reader) (records : List (List String)) (fields : List String) :
    Prop where
  position_ne : r.position ≠ .quoted
  records_eq : r.records = records
  fields_eq : r.endField.fields = fields

lemma Reader.HasRead.step_comma {r : Reader} (h : r.HasRead records fields) :
    r.step ',' = ⟨records, fields, [], .start⟩ := by
  obtain ⟨hposition, rfl, rfl⟩ := h
  rw [step]
  split <;> first | rfl | contradiction

lemma Reader.HasRead.step_line {r : Reader} (h : r.HasRead records fields) :
    r.step '\n' = ahead (records ++ [fields]) := by
  obtain ⟨hposition, rfl, rfl⟩ := h
  rw [step]
  split <;> first | rfl | contradiction

/-- Between quotes, the field is read out of its doubled quotes. -/
lemma foldl_doubleQuotes (field read : List Char) :
    (doubleQuotes field).foldl Reader.step ⟨records, fields, read, .quoted⟩
      = ⟨records, fields, read ++ field, .quoted⟩ := by
  induction field generalizing read with
  | nil => rw [doubleQuotes, List.foldl_nil, List.append_nil]
  | cons c rest ih =>
      rw [List.append_cons, ← ih, doubleQuotes]
      split_ifs with hquote
      · rw [hquote]
        rfl
      · have hstep : Reader.step ⟨records, fields, read, .quoted⟩ c
            = ⟨records, fields, read ++ [c], .quoted⟩ := if_neg hquote
        rw [List.foldl_cons, hstep]

lemma needsQuotes_cons_eq_false {c : Char} {rest : List Char} :
    needsQuotes (c :: rest) = false
      ↔ (c ≠ ',' ∧ c ≠ '"' ∧ c ≠ '\n') ∧ needsQuotes rest = false := by
  simp [needsQuotes, and_assoc]

lemma Reader.outside_eq_take (r : Reader) {c : Char} (hcomma : c ≠ ',') (hline : c ≠ '\n') :
    r.outside c = r.take c .plain := by
  rw [outside, if_neg hcomma, if_neg hline]

lemma foldl_plain {field : List Char} (h : needsQuotes field = false) (read : List Char) :
    field.foldl Reader.step ⟨records, fields, read, .plain⟩
      = ⟨records, fields, read ++ field, .plain⟩ := by
  induction field generalizing read with
  | nil => rw [List.foldl_nil, List.append_nil]
  | cons c rest ih =>
      obtain ⟨⟨hcomma, -, hline⟩, hrest⟩ := needsQuotes_cons_eq_false.1 h
      have hstep : Reader.step ⟨records, fields, read, .plain⟩ c
          = ⟨records, fields, read ++ [c], .plain⟩ := Reader.outside_eq_take _ hcomma hline
      rw [List.append_cons, ← ih hrest, List.foldl_cons, hstep]

/-- **A written field is read as the field.** -/
theorem hasRead_writeField (field : String) :
    ((writeField field).toList.foldl Reader.step ⟨records, fields, [], .start⟩).HasRead records
      (fields ++ [field]) := by
  have hwhole : fields ++ [String.ofList field.toList] = fields ++ [field] := by
    rw [String.ofList_toList]
  rw [writeField]
  split_ifs with hquotes
  · have hopen : Reader.step ⟨records, fields, [], .start⟩ '"' = ⟨records, fields, [], .quoted⟩ :=
      rfl
    rw [String.toList_ofList, List.foldl_cons, hopen, List.foldl_append, foldl_doubleQuotes]
    exact ⟨nofun, rfl, hwhole⟩
  · rw [Bool.not_eq_true] at hquotes
    generalize field.toList = written at hquotes hwhole
    -- Only the first character is read in front of the field, where a quote would open it.
    cases written with
    | nil => exact ⟨nofun, rfl, hwhole⟩
    | cons c rest =>
        obtain ⟨⟨hcomma, hquote, hline⟩, hrest⟩ := needsQuotes_cons_eq_false.1 hquotes
        have hstep : Reader.step ⟨records, fields, [], .start⟩ c
            = ⟨records, fields, [c], .plain⟩ :=
          (if_neg hquote).trans (Reader.outside_eq_take _ hcomma hline)
        rw [List.foldl_cons, hstep, foldl_plain hrest]
        exact ⟨nofun, rfl, hwhole⟩

lemma hasRead_fields {r : Reader} (h : r.HasRead records fields) (rest : List String) :
    ((String.join (rest.map fun field => "," ++ writeField field)).toList.foldl Reader.step
      r).HasRead records (fields ++ rest) := by
  induction rest generalizing r fields with
  | nil => simpa using h
  | cons field rest ih =>
      have hfield : (("," ++ writeField field).toList.foldl Reader.step r).HasRead records
          (fields ++ [field]) := by
        have hcomma : ",".toList.foldl Reader.step r = ⟨records, fields, [], .start⟩ :=
          h.step_comma
        rw [String.toList_append, List.foldl_append, hcomma]
        exact hasRead_writeField field
      rw [List.map_cons, String.join_cons, String.toList_append, List.foldl_append,
        List.append_cons]
      exact ih hfield

/-- **A line is read as its record.** -/
theorem foldl_line (first : String) (rest : List String) :
    (line first rest).toList.foldl Reader.step (.ahead records)
      = .ahead (records ++ [first :: rest]) := by
  have hfirst : ((writeField first).toList.foldl Reader.step (.ahead records)).HasRead records
      [first] := hasRead_writeField first
  rw [line, String.toList_append, List.foldl_append, String.join_cons, String.toList_append,
    List.foldl_append]
  exact (hasRead_fields hfirst rest).step_line

end Written

/-! ## Calls -/

/-- A call that writes records. -/
inductive Call where
  | header (names : List String)
  | row (label : String) (values : List Double)
  /-- The summary row of a report, under its header if asked for. -/
  | report (r : Report Double) (label : String) (underHeader : Bool)

namespace Call

/-- What the call writes. -/
def text : Call → String
  | header names => headerLine names
  | row label values => rowLine label values
  | report r label underHeader => r.csvLines label underHeader

/-- The records that the call is to write. -/
def records : Call → List (List String)
  | header names => ["name" :: names]
  | row label values => [label :: values.map (DecimalText.fixed 6)]
  | report r label true =>
    ["name" :: r.names, label :: r.summaryRow.map (DecimalText.fixed 6)]
  | report r label false => [label :: r.summaryRow.map (DecimalText.fixed 6)]

/-- **What a call writes is read as its records**, and leaves the reader in front of the next. -/
theorem foldl_text (call : Call) (before : List (List String)) :
    call.text.toList.foldl Reader.step (.ahead before) = .ahead (before ++ call.records) := by
  match call with
  | header names => rw [text, headerLine_eq, foldl_line, records]
  | row label values => rw [text, rowLine_eq, foldl_line, records]
  | report r label true =>
      rw [text, Report.csvLines, if_pos rfl, String.toList_append, List.foldl_append,
        headerLine_eq, foldl_line, rowLine_eq, foldl_line, List.append_assoc]
      rfl
  | report r label false =>
      rw [text, Report.csvLines, if_neg Bool.false_ne_true, String.empty_append, rowLine_eq,
        foldl_line, records]

lemma foldl_texts (calls : List Call) (before : List (List String)) :
    (String.join (calls.map text)).toList.foldl Reader.step (.ahead before)
      = .ahead (before ++ calls.flatMap records) := by
  induction calls generalizing before with
  | nil => rw [List.flatMap_nil, List.append_nil]; rfl
  | cons call rest ih =>
      rw [List.map_cons, String.join_cons, String.toList_append, List.foldl_append, foldl_text, ih,
        List.flatMap_cons, List.append_assoc]

lemma readRecords_texts (calls : List Call) :
    readRecords (String.join (calls.map text)) = calls.flatMap records := by
  rw [readRecords, foldl_texts]
  rfl

end Call

/-- **Written records are read back.**  Whatever is written by headers, rows and reports, with any
names, labels and values, reads as exactly the records of the calls, in order; a report under its
header makes two records with as many fields.  The same goes for reports that are appended to one
file, from one that is not there on. -/
theorem records_read :
    (∀ calls : List Call,
        readRecords (String.join (calls.map Call.text)) = calls.flatMap Call.records)
      ∧ (∀ (r : Report Double) (label : String), (Call.report r label true).records.map List.length
          = [r.names.length + 1, r.names.length + 1])
      ∧ ∀ (d : Directory) (path : String), d.Lacks path →
        ∀ reports : List (Report Double × String × Bool), ∃ d' : Directory,
          (reports.mapM fun (r, label, header) =>
              Program.appendRow Directory.asFiles path r label header).run d
            = (reports.map fun _ => .ok (), d')
          ∧ (reports = [] ∧ d' = d ∨ ∃ text, d'.read path = .ok text
              ∧ readRecords text = reports.flatMap fun (r, label, header) =>
                (Call.report r label header).records) := by
  refine ⟨Call.readRecords_texts, ?_, ?_⟩
  · intro r label
    simp [Call.records, Report.summaryRow]
  · intro d path hlacks reports
    obtain ⟨d', hrun, hread⟩ := Directory.run_appends_of_lacks hlacks
      (reports.map fun (r, label, header) => (Call.report r label header).text)
    rw [List.mapM_map, List.map_map] at hrun
    refine ⟨d', hrun, ?_⟩
    rcases hread with ⟨hnone, hsame⟩ | hread
    · exact .inl ⟨List.map_eq_nil_iff.1 hnone, hsame⟩
    · refine .inr ⟨_, hread, ?_⟩
      have hcalls := Call.readRecords_texts
        (reports.map fun (r, label, header) => .report r label header)
      rw [List.map_map, List.flatMap_map] at hcalls
      exact hcalls

/-- A header and a row with separators, quotes and line ends in their texts, and with numbers that
are not finite or have the sign of a negative zero. -/
def unrulyCalls : List Call :=
  [.header ["a,b", "say \"c\"\n", "", "d\r"],
   .row "x\r\n,\"y" [.nan, .infinite true, (0 : Double).negate]]

/-- A report of no cores. -/
def corelessReport : Report Double where
  view := .cpi
  names := ["i,j", "\"k\""]
  series := []
  summaryCores := []
  aggregated := false
  gauge := ⟨⟨[], [], 0⟩, []⟩
  diagnostics := []

/-- A directory with an empty folder. -/
def folderDirectory : Directory := ⟨Catalog.empty.insert "out/" .empty, 1⟩

theorem read_unrulyCalls :
    readRecords (String.join (unrulyCalls.map Call.text))
        = [["name", "a,b", "say \"c\"\n", "", "d\r"], ["x\r\n,\"y", "NaN", "-inf", "-0.000000"]]
      ∧ folderDirectory.Lacks "out/rows.csv"
      ∧ ∃ (d : Directory) (text : String),
        ([("first,\n", true), ("second", false)].mapM fun (label, header) =>
            Program.appendRow Directory.asFiles "out/rows.csv" corelessReport label header).run
            folderDirectory = ([.ok (), .ok ()], d)
        ∧ d.read "out/rows.csv" = .ok text
        ∧ readRecords text
          = [["name", "i,j", "\"k\""],
             "first,\n" :: corelessReport.summaryRow.map (DecimalText.fixed 6),
             "second" :: corelessReport.summaryRow.map (DecimalText.fixed 6)] := by
  obtain ⟨hcalls, -, hreports⟩ := records_read
  have hlacks : folderDirectory.Lacks "out/rows.csv" :=
    ⟨.inside (.above 0) "out", "rows.csv", rfl, rfl⟩
  obtain ⟨d, hrun, ⟨hnone, -⟩ | ⟨text, hread, hrecords⟩⟩ := hreports _ _ hlacks
    [(corelessReport, "first,\n", true), (corelessReport, "second", false)]
  · cases hnone
  · refine ⟨?_, hlacks, d, text, hrun, hread, hrecords⟩
    rw [hcalls]
    decide +kernel

end Csv

end CycleAccounting
