import Coverpin.Validation.Common

namespace Coverpin.Parsing

open Coverpin.Validation

/-- Spreadsheet-native line number: header = 1, first data row = 2. -/
structure ParsedRow where
  line : Nat
  cells : List String
deriving DecidableEq, Repr

structure ParsedSheet where
  header : List String
  rows : List ParsedRow
deriving DecidableEq, Repr

/-- What the file readers (csv-parse and xlsx) make of the bytes of a file:
nothing, a workbook without sheets, or a matrix of cells. -/
inductive FileContent where
  | unreadable
  | noSheets
  | matrix (cells : List (List String))
deriving DecidableEq, Repr

structure UploadedFile where
  originalname : String
  content : FileContent
deriving DecidableEq, Repr

variable [Platform]

def fileError (slotFile message : String) : ValidationError :=
  makeError slotFile 1 "File" message

def unreadableMessage (originalname format : String) : String :=
  s!"'{originalname}' could not be read — it may be corrupt or not a valid {format} file."

def readMatrix (file : UploadedFile) (slotFile : String) : Except ValidationError (List (List String)) :=
  let originalname := file.originalname
  let name := Platform.toLowerCase originalname
  if endsWith ".xlsx" name then
    match file.content with
    | .unreadable => .error (fileError slotFile (unreadableMessage originalname ".xlsx"))
    | .noSheets => .error (fileError slotFile s!"'{originalname}' is an .xlsx workbook with no sheets.")
    | .matrix cells => .ok cells
  else if endsWith ".csv" name then
    match file.content with
    | .matrix cells => .ok cells
    | _ => .error (fileError slotFile (unreadableMessage originalname "CSV"))
  else .error (fileError slotFile s!"Unsupported file type for '{originalname}'. Use .csv or .xlsx.")

/-- The header is trimmed; rows are numbered as in the spreadsheet and rows
without any content are dropped afterwards. -/
def parseSheetSync (file : UploadedFile) (slotFile : String) : Except ValidationError ParsedSheet :=
  match readMatrix file slotFile with
  | .error failure => .error failure
  | .ok [] => .error (fileError slotFile s!"'{file.originalname}' is empty.")
  | .ok (first :: rest) => .ok {
      header := first.map trim
      rows := (rest.zipIdx.map fun (cells, idx) => ({ line := idx + 2, cells } : ParsedRow)).filter
        fun row => row.cells.any fun cell => trim cell != "" }

theorem parseSheetSync_lines {file : UploadedFile} {slotFile : String} {sheet : ParsedSheet}
    (parsed : parseSheetSync file slotFile = .ok sheet) : (sheet.rows.map ParsedRow.line).Nodup := by
  unfold parseSheetSync at parsed
  split at parsed
  · cases parsed
  · cases parsed
  · rename_i first rest _
    cases parsed
    have lines : (rest.zipIdx.map fun (cells, idx) =>
        ({ line := idx + 2, cells } : ParsedRow)).map ParsedRow.line =
        (List.range rest.length).map (· + 2) := by
      rw [List.map_map, List.range_eq_range', ← List.zipIdx_map_snd 0 rest, List.map_map]
      rfl
    apply List.Nodup.sublist ((List.filter_sublist).map ParsedRow.line)
    rw [lines]
    exact List.Nodup.map (fun _ _ same => by simpa using same) List.nodup_range

open Coverpin.Data in
/-- Where each column stands; a repeated column counts at its last position. -/
def colIndex (header : List String) : InsertionMap String Nat :=
  .ofPairs header.zipIdx

/-- The trimmed cell of a row in a column; a short row reads as blank. -/
def get (header cells : List String) (column : String) : String :=
  trim ((((colIndex header).get? column).bind (cells[·]?)).getD "")

omit [Platform] in
@[simp] theorem trim_get (header cells : List String) (column : String) :
    trim (get header cells column) = get header cells column := by
  simp [get]

end Coverpin.Parsing
