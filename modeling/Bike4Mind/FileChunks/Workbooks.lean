import Bike4Mind.Texts.CodeUnits
import Mathlib.Algebra.BigOperators.Group.List.Basic
import Mathlib.Algebra.Order.BigOperators.Group.List
import Mathlib.Tactic.Linarith

/-! `readBoundedSheets`: the rows of a workbook, under a budget of cells and one of characters. -/

namespace Bike4Mind.FileChunks

open Texts

def MAX_EXTRACTED_TEXT_CHARS : Nat := 2000000

def MAX_XLSX_CELLS : Nat := 2000000

def SHEET_MARKER_OVERHEAD_CHARS : Nat := 40

/-- What `JSON.stringify` and `String` make of a cell's value; there is no JSON of `undefined`. -/
structure Cell where
  json : Option Text
  string : Text
deriving DecidableEq

/-- `JSON.stringify(cells)` -/
def stringifyRow (cells : List Cell) : Text :=
  ascii "[" ++ (ascii ",").intercalate (cells.map fun cell => cell.json.getD (ascii "null")) ++ ascii "]"

structure BoundedSheetRow where
  cells : List Cell
  json : Text
  stringified : json = stringifyRow cells
deriving DecidableEq

structure BoundedSheet where
  name : Text
  rows : List BoundedSheetRow
deriving DecidableEq

structure CellAddress where
  r : Nat
  c : Nat
deriving DecidableEq

/-- A corner of a range, as a dimension record may have it. -/
structure Corner where
  r : Int
  c : Int
deriving DecidableEq

structure XlsxRange where
  s : Corner
  e : Corner
deriving DecidableEq

namespace XlsxRange

def area (range : XlsxRange) : Int := (range.e.r - range.s.r + 1) * (range.e.c - range.s.c + 1)

def Reversed (range : XlsxRange) : Prop := range.e.r < range.s.r ∨ range.e.c < range.s.c

instance (range : XlsxRange) : Decidable range.Reversed := inferInstanceAs (Decidable (_ ∨ _))

def Contains (range : XlsxRange) (cell : CellAddress) : Prop :=
  range.s.r ≤ cell.r ∧ cell.r ≤ range.e.r ∧ range.s.c ≤ cell.c ∧ cell.c ≤ range.e.c

instance (range : XlsxRange) (cell : CellAddress) : Decidable (range.Contains cell) := inferInstanceAs (Decidable (_ ∧ _))

end XlsxRange

structure WorkSheet where
  ref : Option Text
  entries : List (Text × Cell)

structure WorkBook where
  sheetNames : List Text
  sheets : Text → Option WorkSheet

/-- SheetJS. A row that is not an array is none. -/
structure XlsxUtils where
  decode_range : Text → XlsxRange
  decode_cell : Text → CellAddress
  sheet_to_json : WorkSheet → XlsxRange → List (Option (List Cell))

variable (utils : XlsxUtils)

/-- The addresses of the cells that are present. -/
def WorkSheet.populated (sheet : WorkSheet) : List CellAddress :=
  ((sheet.entries.map (·.1)).filter fun key => key.head? ≠ some 0x21).map utils.decode_cell

structure Extent where
  maxRow : Int
  maxColumn : Int
deriving DecidableEq

def populatedExtent (sheet : WorkSheet) : Option Extent :=
  let extent : Extent := (sheet.populated utils).foldl (fun extent cell => ⟨max extent.maxRow cell.r, max extent.maxColumn cell.c⟩) ⟨-1, -1⟩
  if extent.maxRow < 0 then none else some extent

/-- The last column to walk. -/
def trimmedColumn (sheet : WorkSheet) (declared : XlsxRange) : Int :=
  max declared.s.c (min declared.e.c (((populatedExtent utils sheet).map (·.maxColumn)).getD declared.s.c))

/-- The last row to walk, where not every declared row fits. -/
def trimmedRow (sheet : WorkSheet) (declared : XlsxRange) : Int :=
  max declared.s.r (min declared.e.r (((populatedExtent utils sheet).map (·.maxRow)).getD declared.s.r))

def budgetedSheetRange (sheet : WorkSheet) (declared : XlsxRange) (cellBudget : Int) : Option XlsxRange :=
  let endColumn := trimmedColumn utils sheet declared
  let columns := endColumn - declared.s.c + 1
  let endRow :=
    if (declared.e.r - declared.s.r + 1) * columns > cellBudget then trimmedRow utils sheet declared else declared.e.r
  let rowsInBudget := cellBudget / columns
  if rowsInBudget = 0 then none
  else if endRow - declared.s.r + 1 > rowsInBudget then
    some ⟨declared.s, ⟨declared.s.r + rowsInBudget - 1, endColumn⟩⟩
  else some ⟨declared.s, ⟨endRow, endColumn⟩⟩

structure RowsRead where
  rows : List BoundedSheetRow
  charBudget : Int
  charCapReached : Bool

/-- The loop over the rows that SheetJS walks. -/
def readRows : List (Option (List Cell)) → (charBudget : Int) → RowsRead
  | [], charBudget => ⟨[], charBudget, false⟩
  | none :: rest, charBudget => readRows rest charBudget
  | some cells :: rest, charBudget =>
    let json := stringifyRow cells
    let rowChars : Int := json.length + 1
    if rowChars > charBudget then ⟨[], charBudget, true⟩
    else
      let later := readRows rest (charBudget - rowChars)
      { later with rows := ⟨cells, json, rfl⟩ :: later.rows }

/-- One call of `sheet_to_json`. -/
structure Walk where
  name : Text
  range : XlsxRange
deriving DecidableEq

structure Reading where
  sheets : List BoundedSheet
  walks : List Walk
  cellBudget : Int
  charBudget : Int
  stopped : Bool

def headerChars (name : Text) : Int := 2 * name.length + SHEET_MARKER_OVERHEAD_CHARS

/-- The declared range of a sheet, if it is declared and not reversed. -/
def declaredRange (workbook : WorkBook) (name : Text) : Option (WorkSheet × XlsxRange) :=
  match workbook.sheets name with
  | none => none
  | some sheet =>
    match sheet.ref with
    | none => none
    | some ref =>
      if ref = [] then none
      else if (utils.decode_range ref).Reversed then none
      else some (sheet, utils.decode_range ref)

def readSheet (workbook : WorkBook) (reading : Reading) (name : Text) : Reading :=
  if reading.stopped then reading
  else if headerChars name > reading.charBudget then { reading with stopped := true }
  else
    let charBudget := reading.charBudget - headerChars name
    match declaredRange utils workbook name with
    | none => { reading with sheets := reading.sheets ++ [⟨name, []⟩], charBudget }
    | some (sheet, declared) =>
      match budgetedSheetRange utils sheet declared reading.cellBudget with
      | none => { reading with charBudget, stopped := true }
      | some range =>
        let read := readRows (utils.sheet_to_json sheet range) charBudget
        ⟨reading.sheets ++ [⟨name, read.rows⟩], reading.walks ++ [⟨name, range⟩], reading.cellBudget - range.area,
          read.charBudget, read.charCapReached⟩

def readSheets (workbook : WorkBook) (names : List Text) : Reading :=
  names.foldl (readSheet utils workbook) ⟨[], [], MAX_XLSX_CELLS, MAX_EXTRACTED_TEXT_CHARS, false⟩

def readBoundedSheets (workbook : WorkBook) : List BoundedSheet := (readSheets utils workbook workbook.sheetNames).sheets

def sheetText (sheet : BoundedSheet) : Text :=
  ascii "--- Sheet: " ++ sheet.name ++ ascii " ---\n" ++ (ascii "\n").intercalate (sheet.rows.map (·.json)) ++
    ascii "\n--- End of Sheet: " ++ sheet.name ++ ascii " ---"

/-- The canonical extracted text. -/
def extractedText (sheets : List BoundedSheet) : Text := (ascii "\n").intercalate (sheets.map sheetText)

/-! ### The range to walk -/

section Ranges
variable {utils} {sheet : WorkSheet} {declared range : XlsxRange} {cellBudget : Int} {cell : CellAddress}

theorem extent_fold (cells : List CellAddress) (extent : Extent) :
    let last := cells.foldl (fun extent cell => (⟨max extent.maxRow cell.r, max extent.maxColumn cell.c⟩ : Extent)) extent
    extent.maxRow ≤ last.maxRow ∧ extent.maxColumn ≤ last.maxColumn ∧
      ∀ cell ∈ cells, (cell.r : Int) ≤ last.maxRow ∧ (cell.c : Int) ≤ last.maxColumn := by
  induction cells generalizing extent with
  | nil => exact ⟨le_rfl, le_rfl, fun _ none => by cases none⟩
  | cons cell cells ih =>
    obtain ⟨row, column, rest⟩ := ih ⟨max extent.maxRow cell.r, max extent.maxColumn cell.c⟩
    refine ⟨le_trans (le_max_left _ _) row, le_trans (le_max_left _ _) column, fun other member => ?_⟩
    rcases List.mem_cons.mp member with same | later
    · subst same
      exact ⟨le_trans (le_max_right _ _) row, le_trans (le_max_right _ _) column⟩
    · exact rest other later

theorem populatedExtent_reaches (present : cell ∈ sheet.populated utils) :
    ∃ extent, populatedExtent utils sheet = some extent ∧ (cell.r : Int) ≤ extent.maxRow ∧ (cell.c : Int) ≤ extent.maxColumn := by
  obtain ⟨_, _, reaches⟩ := extent_fold (sheet.populated utils) ⟨-1, -1⟩
  obtain ⟨row, column⟩ := reaches cell present
  refine ⟨_, ?_, row, column⟩
  unfold populatedExtent
  exact if_neg (by omega)

theorem trimmedColumn_ge : declared.s.c ≤ trimmedColumn utils sheet declared := le_max_left _ _

theorem trimmedRow_bounds (forward : ¬declared.Reversed) :
    declared.s.r ≤ trimmedRow utils sheet declared ∧ trimmedRow utils sheet declared ≤ declared.e.r := by
  unfold XlsxRange.Reversed at forward
  unfold trimmedRow
  omega

theorem trimmed_reaches (present : cell ∈ sheet.populated utils) (inside : declared.Contains cell) :
    (cell.c : Int) ≤ trimmedColumn utils sheet declared ∧ (cell.r : Int) ≤ trimmedRow utils sheet declared := by
  obtain ⟨extent, same, row, column⟩ := populatedExtent_reaches present
  obtain ⟨_, lastRow, _, lastColumn⟩ := inside
  unfold trimmedColumn trimmedRow
  rw [same]
  simp only [Option.map_some, Option.getD_some]
  omega

/-- How many cells the sheet has to walk at least. -/
def trimmedArea (utils : XlsxUtils) (sheet : WorkSheet) (declared : XlsxRange) : Int :=
  (trimmedRow utils sheet declared - declared.s.r + 1) * (trimmedColumn utils sheet declared - declared.s.c + 1)

theorem rows_fit {rows width rowsInBudget : Int} (some : 0 < rows) (wide : 0 < width) (least : rows ≤ rowsInBudget)
    (product : rowsInBudget * width ≤ cellBudget) : 0 < rows * width ∧ rows * width ≤ cellBudget :=
  ⟨mul_pos some wide, (mul_le_mul_of_nonneg_right least wide.le).trans product⟩

theorem budgetedSheetRange_area (forward : ¬declared.Reversed) (budget : 0 ≤ cellBudget)
    (found : budgetedSheetRange utils sheet declared cellBudget = some range) : 0 < range.area ∧ range.area ≤ cellBudget := by
  obtain ⟨first, last⟩ := @trimmedRow_bounds utils sheet declared forward
  have columns := @trimmedColumn_ge utils sheet declared
  have wide : 0 < trimmedColumn utils sheet declared - declared.s.c + 1 := by omega
  have product := Int.ediv_mul_le cellBudget wide.ne'
  have count : 0 ≤ cellBudget / (trimmedColumn utils sheet declared - declared.s.c + 1) := Int.ediv_nonneg budget wide.le
  simp only [XlsxRange.Reversed, not_or, not_lt] at forward
  simp only [budgetedSheetRange] at found
  generalize ends : (if (declared.e.r - declared.s.r + 1) * (trimmedColumn utils sheet declared - declared.s.c + 1) > cellBudget
    then trimmedRow utils sheet declared else declared.e.r) = endRow at found
  have after : declared.s.r ≤ endRow := by
    rw [← ends]
    split <;> omega
  split at found
  · cases found
  · split at found
    · rw [← Option.some.inj found]
      exact rows_fit (by dsimp only; omega) wide (by dsimp only; omega) product
    · rename_i fits
      rw [← Option.some.inj found]
      exact rows_fit (by dsimp only; omega) wide (not_lt.mp fits) product

/-- A sheet whose trimmed range fits the budget is walked as far as it is populated and declared. -/
theorem budgetedSheetRange_covers (forward : ¬declared.Reversed) (fits : trimmedArea utils sheet declared ≤ cellBudget) :
    ∃ range, budgetedSheetRange utils sheet declared cellBudget = some range ∧
      ∀ cell ∈ sheet.populated utils, declared.Contains cell → range.Contains cell := by
  obtain ⟨first, last⟩ := @trimmedRow_bounds utils sheet declared forward
  have columns := @trimmedColumn_ge utils sheet declared
  have wide : 0 < trimmedColumn utils sheet declared - declared.s.c + 1 := by omega
  have rows := (Int.le_ediv_iff_mul_le wide).mpr fits
  simp only [budgetedSheetRange]
  rw [if_neg (by omega)]
  split
  · rename_i exceeds
    rw [if_neg (by omega)]
    refine ⟨_, rfl, fun cell present inside => ?_⟩
    obtain ⟨column, row⟩ := trimmed_reaches present inside
    exact ⟨inside.1, row, inside.2.2.1, column⟩
  · rename_i whole
    have every := (Int.le_ediv_iff_mul_le wide).mpr (not_lt.mp whole)
    rw [if_neg (by omega)]
    refine ⟨_, rfl, fun cell present inside => ?_⟩
    obtain ⟨column, _⟩ := trimmed_reaches present inside
    exact ⟨inside.1, inside.2.1, inside.2.2.1, column⟩

end Ranges

/-! ### What is charged -/

/-- What the budget is charged for a sheet: its two marker lines and its rows, each with the newline behind it. -/
def charged (sheet : BoundedSheet) : Int :=
  headerChars sheet.name + (sheet.rows.map fun row => (row.json.length : Int) + 1).sum

section Charges
variable {rows : List (Option (List Cell))} {charBudget : Int}

theorem readRows_charged (budget : 0 ≤ charBudget) : 0 ≤ (readRows rows charBudget).charBudget ∧
    ((readRows rows charBudget).rows.map fun row => (row.json.length : Int) + 1).sum + (readRows rows charBudget).charBudget =
      charBudget := by
  induction rows generalizing charBudget with
  | nil => exact ⟨budget, zero_add _⟩
  | cons row rows ih =>
    cases row with
    | none => exact ih budget
    | some cells =>
      rw [readRows]
      dsimp only
      split
      · exact ⟨budget, zero_add _⟩
      · rename_i fits
        obtain ⟨left, spent⟩ := @ih (charBudget - ((stringifyRow cells).length + 1)) (by omega)
        refine ⟨left, ?_⟩
        rw [List.map_cons, List.sum_cons]
        dsimp only
        omega

theorem intercalate_length (separator : Text) (texts : List Text) (size : separator.length = 1) :
    ((separator.intercalate texts).length : Int) ≤ (texts.map fun text => (text.length : Int) + 1).sum ∧
      (texts ≠ [] → ((separator.intercalate texts).length : Int) + 1 = (texts.map fun text => (text.length : Int) + 1).sum) := by
  induction texts with
  | nil => exact ⟨le_rfl, fun some => (some rfl).elim⟩
  | cons text texts ih =>
    cases texts with
    | nil =>
      rw [List.intercalate_singleton, List.map_singleton, List.sum_singleton]
      exact ⟨by omega, fun _ => rfl⟩
    | cons next texts =>
      have rest := ih.2 (List.cons_ne_nil _ _)
      rw [List.map_cons, List.sum_cons, ← rest, List.intercalate_cons_cons, List.length_append, List.length_append, size]
      push_cast
      exact ⟨by omega, fun _ => by omega⟩

theorem sheetText_length (sheet : BoundedSheet) : ((sheetText sheet).length : Int) + 1 ≤ charged sheet := by
  obtain ⟨rows, _⟩ := intercalate_length (ascii "\n") (sheet.rows.map (·.json)) (by decide)
  have opens : (ascii "--- Sheet: ").length = 11 := by decide
  have opened : (ascii " ---\n").length = 5 := by decide
  have closes : (ascii "\n--- End of Sheet: ").length = 19 := by decide
  have closed : (ascii " ---").length = 4 := by decide
  unfold sheetText charged headerChars SHEET_MARKER_OVERHEAD_CHARS
  simp only [List.length_append, opens, opened, closes, closed]
  rw [List.map_map] at rows
  push_cast
  have same : (fun row : BoundedSheetRow => (row.json.length : Int) + 1) = (fun text : Text => (text.length : Int) + 1) ∘ (·.json) := rfl
  rw [same]
  omega

theorem extractedText_length (sheets : List BoundedSheet) : ((extractedText sheets).length : Int) ≤ (sheets.map charged).sum := by
  obtain ⟨whole, _⟩ := intercalate_length (ascii "\n") (sheets.map sheetText) (by decide)
  refine whole.trans ?_
  rw [List.map_map]
  exact List.sum_le_sum fun sheet _ => sheetText_length sheet

end Charges

/-! ### The whole workbook -/

section Whole
variable {utils} {workbook : WorkBook} {reading : Reading} {name : Text} {sheet : WorkSheet} {declared : XlsxRange}

/-- Where the reading stands within its two budgets. -/
structure WithinBudgets (reading : Reading) : Prop where
  cells : 0 ≤ reading.cellBudget
  walked : (reading.walks.map (·.range.area)).sum + reading.cellBudget = MAX_XLSX_CELLS
  chars : 0 ≤ reading.charBudget
  spent : (reading.sheets.map charged).sum + reading.charBudget ≤ MAX_EXTRACTED_TEXT_CHARS

theorem declaredRange_forward (found : declaredRange utils workbook name = some (sheet, declared)) : ¬declared.Reversed := by
  unfold declaredRange at found
  split at found
  · cases found
  · split at found
    · cases found
    · split at found
      · cases found
      · split at found
        · cases found
        · rename_i forward
          obtain ⟨_, same⟩ := Prod.mk.inj (Option.some.inj found)
          rw [← same]
          exact forward

theorem readSheet_within (within : WithinBudgets reading) : WithinBudgets (readSheet utils workbook reading name) := by
  obtain ⟨cells, walked, chars, spent⟩ := within
  unfold readSheet
  split
  · exact ⟨cells, walked, chars, spent⟩
  · split
    · exact ⟨cells, walked, chars, spent⟩
    · rename_i room
      have left : 0 ≤ reading.charBudget - headerChars name := by omega
      have empty : charged ⟨name, []⟩ = headerChars name := add_zero _
      cases found : declaredRange utils workbook name with
      | none =>
        refine ⟨cells, walked, left, ?_⟩
        simp only [List.map_append, List.map_singleton, List.sum_append, List.sum_singleton, empty]
        omega
      | some entry =>
        obtain ⟨sheet, declared⟩ := entry
        dsimp only
        cases budgeted : budgetedSheetRange utils sheet declared reading.cellBudget with
        | none =>
          have header : 0 ≤ headerChars name := by
            unfold headerChars
            omega
          refine ⟨cells, walked, left, ?_⟩
          dsimp only
          omega
        | some range =>
          obtain ⟨_, area⟩ := budgetedSheetRange_area (declaredRange_forward found) cells budgeted
          obtain ⟨kept, rows⟩ := @readRows_charged (utils.sheet_to_json sheet range) _ left
          refine ⟨Int.sub_nonneg.mpr area, ?_, kept, ?_⟩
          · simp only [List.map_append, List.map_singleton, List.sum_append, List.sum_singleton]
            omega
          · simp only [List.map_append, List.map_singleton, List.sum_append, List.sum_singleton, charged] at spent ⊢
            omega

theorem readSheets_from (names : List Text) (within : WithinBudgets reading) :
    WithinBudgets (names.foldl (readSheet utils workbook) reading) := by
  induction names generalizing reading with
  | nil => exact within
  | cons name names ih => exact ih (readSheet_within within)

theorem readSheets_within (names : List Text) : WithinBudgets (readSheets utils workbook names) :=
  readSheets_from names ⟨by decide, by decide, by decide, by decide⟩

theorem readSheet_walks : reading.walks <+: (readSheet utils workbook reading name).walks := by
  unfold readSheet
  split
  · exact List.prefix_refl _
  · split
    · exact List.prefix_refl _
    · cases declaredRange utils workbook name with
      | none => exact List.prefix_refl _
      | some entry =>
        obtain ⟨sheet, declared⟩ := entry
        dsimp only
        cases budgetedSheetRange utils sheet declared reading.cellBudget with
        | none => exact List.prefix_refl _
        | some range => exact List.prefix_append _ _

theorem readSheets_walks (names : List Text) : reading.walks <+: (names.foldl (readSheet utils workbook) reading).walks := by
  induction names generalizing reading with
  | nil => exact List.prefix_refl _
  | cons name names ih => exact readSheet_walks.trans ih

/-- The walks and the text stay within their budgets, and no cell that is declared is left out of a sheet that is reached and
whose populated part fits. -/
theorem workbook_within_budgets (utils : XlsxUtils) (workbook : WorkBook) :
    let reading (names : List Text) := readSheets utils workbook names
    ((reading workbook.sheetNames).walks.map (·.range.area)).sum ≤ MAX_XLSX_CELLS ∧
      (∀ count, 0 ≤ (reading (workbook.sheetNames.take count)).cellBudget) ∧
      (extractedText (readBoundedSheets utils workbook)).length ≤ MAX_EXTRACTED_TEXT_CHARS ∧
      ∀ before name after sheet declared, workbook.sheetNames = before ++ name :: after → (reading before).stopped = false →
        headerChars name ≤ (reading before).charBudget → declaredRange utils workbook name = some (sheet, declared) →
        trimmedArea utils sheet declared ≤ (reading before).cellBudget →
        ∃ range, (reading before).walks ++ [⟨name, range⟩] <+: (reading workbook.sheetNames).walks ∧
          ∀ cell ∈ sheet.populated utils, declared.Contains cell → range.Contains cell := by
  intro reading
  have whole : WithinBudgets (reading workbook.sheetNames) := readSheets_within _
  refine ⟨?_, fun count => (readSheets_within _).cells, ?_, ?_⟩
  · have cells := whole.cells
    have walked := whole.walked
    omega
  · have size := extractedText_length (readBoundedSheets utils workbook)
    have chars := whole.chars
    have spent : ((readBoundedSheets utils workbook).map charged).sum + _ ≤ _ := whole.spent
    omega
  · intro before name after sheet declared names goesOn room found fits
    obtain ⟨range, budgeted, covers⟩ := budgetedSheetRange_covers (declaredRange_forward found) fits
    refine ⟨range, ?_, covers⟩
    have walks : (readSheet utils workbook (reading before) name).walks = (reading before).walks ++ [⟨name, range⟩] := by
      unfold readSheet
      rw [if_neg (by simp [goesOn]), if_neg (not_lt.mpr room), found]
      dsimp only
      rw [budgeted]
    have later := @readSheets_walks utils workbook (readSheet utils workbook (reading before) name) after
    rw [walks] at later
    have split : reading workbook.sheetNames = after.foldl (readSheet utils workbook) (readSheet utils workbook (reading before) name) := by
      show readSheets utils workbook workbook.sheetNames = _
      unfold readSheets
      rw [names, List.foldl_append]
      rfl
    rw [split]
    exact later

end Whole

/-! ### A cell outside the declared range -/

/-- `A1` addresses, as SheetJS reads them. -/
def decodeAddress (key : Text) : Corner :=
  let read := key.foldl
    (fun (read : Corner) c =>
      if 0x30 ≤ c ∧ c ≤ 0x39 then { read with r := 10 * read.r + (c.toNat - 0x30) }
      else if 0x41 ≤ c ∧ c ≤ 0x5a then { read with c := 26 * read.c + (c.toNat - 0x40) }
      else read)
    (⟨0, 0⟩ : Corner)
  ⟨read.r - 1, read.c - 1⟩

def addressUtils : XlsxUtils where
  decode_range ref := ⟨decodeAddress (ref.takeWhile (· ≠ 0x3a)), decodeAddress ((ref.dropWhile (· ≠ 0x3a)).drop 1)⟩
  decode_cell key := ⟨(decodeAddress key).r.toNat, (decodeAddress key).c.toNat⟩
  sheet_to_json sheet range := (List.range (range.e.r - range.s.r + 1).toNat).map fun row => some <|
    (sheet.entries.filter fun entry =>
      (decodeAddress entry.1).r = range.s.r + row ∧ (decodeAddress entry.1).c ≤ range.e.c).map (·.2)

def looseSheet : WorkSheet where
  ref := some (ascii "A1:A1")
  entries := [(ascii "A1", ⟨some (ascii "1"), ascii "1"⟩), (ascii "B2", ⟨some (ascii "2"), ascii "2"⟩)]

def looseWorkbook : WorkBook where
  sheetNames := [ascii "S"]
  sheets name := if name = ascii "S" then some looseSheet else none

/-- Four cells fit every budget, but the one outside the declared range is not walked. -/
theorem undeclared_cell_left_out :
    let reading := readSheets addressUtils looseWorkbook looseWorkbook.sheetNames
    reading.stopped = false ∧ (populatedExtent addressUtils looseSheet = some ⟨1, 1⟩) ∧
      ¬∀ cell ∈ looseSheet.populated addressUtils, ∃ walk ∈ reading.walks, walk.name = ascii "S" ∧ walk.range.Contains cell := by
  decide

end Bike4Mind.FileChunks
