import Bike4Mind.FileChunks.TextChunks
import Bike4Mind.FileChunks.Workbooks
import Mathlib.Data.List.Pairwise

/-! `chunkExcel`: whole rows where they fit, else cells, with the places of the workbook that each chunk is taken from. -/

namespace Bike4Mind.FileChunks

open Texts

inductive Part where
  | header
  | row (row : Nat)
  | cell (row column : Nat)
  | footer
deriving DecidableEq

structure Place where
  sheet : Nat
  part : Part
deriving DecidableEq

def Part.before : Part → Part → Bool
  | .header, part => decide (part ≠ .header)
  | _, .header => false
  | .footer, _ => false
  | _, .footer => true
  | .row i, .row i' => i < i'
  | .row i, .cell i' _ => i < i'
  | .cell i _, .row i' => i < i'
  | .cell i column, .cell i' column' => i < i' || (decide (i = i') && decide (column < column'))

/-- The order of the workbook. -/
def Place.before (place place' : Place) : Bool :=
  place.sheet < place'.sheet || (decide (place.sheet = place'.sheet) && place.part.before place'.part)

/-- A chunk with the places it is taken from. -/
structure Emitted where
  chunk : Chunk
  places : List Place
deriving DecidableEq

/-- The chunks so far, and what the next one has gathered from where. -/
structure Traced where
  emitted : List Emitted
  text : Text
  tokens : Nat
  places : List Place

namespace Traced

def pushed (traced : Traced) : List Emitted := traced.emitted ++ [⟨⟨trim traced.text, traced.tokens⟩, traced.places⟩]

def saved (traced : Traced) : List Emitted := if (trim traced.text).length > 0 then traced.pushed else traced.emitted

def flushed (traced : Traced) : Traced :=
  if (trim traced.text).length > 0 then ⟨traced.pushed, [], 0, []⟩ else traced

def add (traced : Traced) (text : Text) (tokens : Nat) (place : Place) : Traced :=
  { traced with text := traced.text ++ text, tokens := traced.tokens + tokens, places := traced.places ++ [place] }

end Traced

def hexDigit (digit : CodeUnit) : CodeUnit := if digit < 10 then 0x30 + digit else 0x57 + digit

def unicodeEscape (c : CodeUnit) : Text :=
  [0x5c, 0x75, hexDigit (c >>> 12), hexDigit ((c >>> 8) &&& 0xf), hexDigit ((c >>> 4) &&& 0xf), hexDigit (c &&& 0xf)]

def escapeUnit (c : CodeUnit) : Text :=
  if c = 0x22 ∨ c = 0x5c then [0x5c, c]
  else if c = 0x08 then [0x5c, 0x62]
  else if c = 0x09 then [0x5c, 0x74]
  else if c = 0x0a then [0x5c, 0x6e]
  else if c = 0x0c then [0x5c, 0x66]
  else if c = 0x0d then [0x5c, 0x72]
  else if c < 0x20 then unicodeEscape c
  else [c]

/-- What `JSON.stringify` writes between the quotes; a surrogate that stands alone is escaped. -/
def escaped : Text → Text
  | [] => []
  | [c] => if isHighSurrogate c || isLowSurrogate c then unicodeEscape c else escapeUnit c
  | c :: d :: rest =>
    if isHighSurrogate c && isLowSurrogate d then c :: d :: escaped rest
    else if isHighSurrogate c || isLowSurrogate c then unicodeEscape c ++ escaped (d :: rest)
    else escapeUnit c ++ escaped (d :: rest)

/-- `JSON.stringify(text)` -/
def quotedText (text : Text) : Text := 0x22 :: escaped text ++ [0x22]

/-- `JSON.stringify({ column, value })` -/
def stringifyCell (column : Nat) (value : Option Text) : Text :=
  ascii "\x7b\"column\":" ++ ascii (toString column) ++ (value.elim [] fun value => ascii ",\"value\":" ++ value) ++ ascii "\x7d"

def sheetHeader (name : Text) : Text := ascii "--- Sheet: " ++ name ++ ascii " ---\n"

def sheetFooter (name : Text) : Text := ascii "--- End of Sheet: " ++ name ++ ascii " ---\n"

namespace SmartChunker
variable (self : SmartChunker)

/-- One cell of a row that exceeds the limit. -/
def addCell (sheet row : Nat) (traced : Traced) (entry : Cell × Nat) : Traced :=
  let place : Place := ⟨sheet, .cell row entry.2⟩
  let cellString := stringifyCell entry.2 entry.1.json
  let cellStringTokens := self.countTokens cellString
  if cellStringTokens > self.chunkTokenLimit then
    let textChunks := self.chunkText entry.1.string
    { traced with emitted := traced.emitted ++ textChunks.map fun chunk =>
        ⟨⟨stringifyCell entry.2 (some (quotedText chunk.text)), chunk.tokenCount⟩, [place]⟩ }
  else if traced.tokens + cellStringTokens > self.chunkTokenLimit then
    (Traced.mk traced.saved [] 0 []).add (cellString ++ [NEWLINE]) cellStringTokens place
  else traced.add (cellString ++ [NEWLINE]) cellStringTokens place

def splitRow (sheet row : Nat) (cells : List Cell) : List Emitted :=
  (cells.zipIdx.foldl (self.addCell sheet row) ⟨[], [], 0, []⟩).saved

def addRow (sheet : Nat) (traced : Traced) (entry : BoundedSheetRow × Nat) : Traced :=
  let place : Place := ⟨sheet, .row entry.2⟩
  let rowString := entry.1.json
  let rowTokens := self.countTokens rowString
  if rowTokens > self.chunkTokenLimit then
    let traced := traced.flushed
    { traced with emitted := traced.emitted ++ self.splitRow sheet entry.2 entry.1.cells }
  else if traced.tokens + rowTokens > self.chunkTokenLimit then
    (Traced.mk traced.pushed [] 0 []).add (rowString ++ [NEWLINE]) rowTokens place
  else traced.add (rowString ++ [NEWLINE]) rowTokens place

def addSheet (traced : Traced) (entry : BoundedSheet × Nat) : Traced :=
  let header := sheetHeader entry.1.name
  let footer := sheetFooter entry.1.name
  let traced := traced.add header (self.countTokens header) ⟨entry.2, .header⟩
  let traced := entry.1.rows.zipIdx.foldl (self.addRow entry.2) traced
  let footerTokens := self.countTokens footer
  if traced.tokens + footerTokens > self.chunkTokenLimit then
    (Traced.mk traced.pushed [] 0 []).add footer footerTokens ⟨entry.2, .footer⟩
  else traced.add footer footerTokens ⟨entry.2, .footer⟩

def emitSheets (sheets : List BoundedSheet) : List Emitted := (sheets.zipIdx.foldl self.addSheet ⟨[], [], 0, []⟩).saved

/-- The chunks of the sheets that were read. -/
def chunkExcel (sheets : List BoundedSheet) : List Chunk := (self.emitSheets sheets).map (·.chunk)

/-- The places in the order in which the chunks are read. -/
def placesRead (sheets : List BoundedSheet) : List Place := (self.emitSheets sheets).flatMap (·.places)

/-- A row appears whole, or every cell of it appears. -/
def RowAppears (sheets : List BoundedSheet) (sheet row : Nat) (cells : List Cell) : Prop :=
  ⟨sheet, .row row⟩ ∈ self.placesRead sheets ∨
    cells ≠ [] ∧ ∀ column < cells.length, ⟨sheet, .cell row column⟩ ∈ self.placesRead sheets

/-- No place is read after one that the workbook has later, and every row and cell appears in some chunk. -/
def InDocumentOrder (sheets : List BoundedSheet) : Prop :=
  ((self.placesRead sheets).Pairwise fun place next => next.before place = false) ∧
    ∀ sheet ∈ sheets.zipIdx, ∀ row ∈ sheet.1.rows.zipIdx, self.RowAppears sheets sheet.2 row.2 row.1.cells

/-- A cell whose own JSON exceeds the limit. -/
def Oversized (column : Nat) (cell : Cell) : Prop := self.countTokens (stringifyCell column cell.json) > self.chunkTokenLimit

/-- A row that fits, or whose cells over the limit have something to read and come before those that fit. -/
def OversizedFirst (row : BoundedSheetRow) : Prop :=
  self.countTokens row.json > self.chunkTokenLimit → row.cells ≠ [] ∧
    ∀ cell ∈ row.cells.zipIdx, self.Oversized cell.2 cell.1 → (∃ c ∈ cell.1.string, isSpace c = false) ∧
      ∀ earlier ∈ row.cells.zipIdx, earlier.2 < cell.2 → self.Oversized earlier.2 earlier.1

end SmartChunker

/-! ### The places gathered so far -/

namespace Traced
variable {traced : Traced} {text : Text} {tokens : Nat} {place : Place}

def trace (traced : Traced) : List Place := traced.emitted.flatMap (·.places) ++ traced.places

/-- What has been gathered from somewhere can be read. -/
def Sound (traced : Traced) : Prop := traced.places ≠ [] → solid traced.text ≠ []

theorem pushed_places (traced : Traced) : traced.pushed.flatMap (·.places) = traced.trace := by
  unfold pushed trace
  rw [List.flatMap_append, List.flatMap_singleton]

theorem blank_places (sound : traced.Sound) (blank : ¬(trim traced.text).length > 0) : traced.places = [] := by
  by_contra some
  refine sound some (solid_eq_nil.mpr (List.length_eq_zero_iff.mp ?_))
  omega

theorem saved_places (sound : traced.Sound) : traced.saved.flatMap (·.places) = traced.trace := by
  unfold saved
  split
  · exact pushed_places traced
  · rename_i blank
    unfold trace
    rw [blank_places sound blank, List.append_nil]

theorem flushed_places (sound : traced.Sound) :
    traced.flushed.emitted.flatMap (·.places) = traced.trace ∧ traced.flushed.places = [] := by
  unfold flushed
  split
  · exact ⟨pushed_places traced, rfl⟩
  · rename_i blank
    refine ⟨?_, blank_places sound blank⟩
    unfold trace
    rw [blank_places sound blank, List.append_nil]

theorem add_trace : (traced.add text tokens place).trace = traced.trace ++ [place] := (List.append_assoc _ _ _).symm

theorem add_sound (visible : solid text ≠ []) : (traced.add text tokens place).Sound := by
  intro _
  unfold add
  rw [solid_append]
  exact List.append_ne_nil_of_right_ne_nil _ visible

theorem restarted_trace {emitted : List Emitted} : (Traced.mk emitted [] 0 []).trace = emitted.flatMap (·.places) := List.append_nil _

theorem start_sound : (Traced.mk [] [] 0 []).Sound := fun some => (some rfl).elim

end Traced

section Visible
variable (column : Nat) (value : Option Text) (name : Text)

theorem stringifyCell_visible : solid (stringifyCell column value) ≠ [] := by
  refine solid_ne_nil.mpr ⟨0x7b, ?_, rfl⟩
  have brace : (0x7b : CodeUnit) ∈ ascii "\x7b\"column\":" := by decide
  unfold stringifyCell
  simp only [List.mem_append]
  exact .inl (.inl (.inl brace))

theorem row_visible (row : BoundedSheetRow) : solid row.json ≠ [] := by
  refine solid_ne_nil.mpr ⟨0x5b, ?_, rfl⟩
  have bracket : (0x5b : CodeUnit) ∈ ascii "[" := by decide
  rw [row.stringified]
  unfold stringifyRow
  simp only [List.mem_append]
  exact .inl (.inl bracket)

theorem header_visible : solid (sheetHeader name) ≠ [] := by
  refine solid_ne_nil.mpr ⟨0x2d, ?_, rfl⟩
  have dash : (0x2d : CodeUnit) ∈ ascii "--- Sheet: " := by decide
  unfold sheetHeader
  simp only [List.mem_append]
  exact .inl (.inl dash)

theorem footer_visible : solid (sheetFooter name) ≠ [] := by
  refine solid_ne_nil.mpr ⟨0x2d, ?_, rfl⟩
  have dash : (0x2d : CodeUnit) ∈ ascii "--- End of Sheet: " := by decide
  unfold sheetFooter
  simp only [List.mem_append]
  exact .inl (.inl dash)

theorem line_visible {text : Text} (visible : solid text ≠ []) : solid (text ++ [NEWLINE]) ≠ [] := by
  rw [solid_append]
  exact List.append_ne_nil_of_left_ne_nil visible _

end Visible

/-! ### The cells of a row -/

namespace SmartChunker
variable {self : SmartChunker} {sheet row : Nat} {traced : Traced} {entry : Cell × Nat} {entries : List (Cell × Nat)} {place : Place}

/-- Some chunk is emitted for the cell. -/
def Shown (self : SmartChunker) (entry : Cell × Nat) : Prop :=
  self.Oversized entry.2 entry.1 → ∃ c ∈ entry.1.string, isSpace c = false

theorem addCell_over (exceeds : self.Oversized entry.2 entry.1) : ∃ emitted : List Emitted,
    self.addCell sheet row traced entry = { traced with emitted := traced.emitted ++ emitted } ∧
      (∀ p ∈ emitted.flatMap (·.places), p = ⟨sheet, .cell row entry.2⟩) ∧
      (⟨sheet, .cell row entry.2⟩ ∈ emitted.flatMap (·.places) ↔ ∃ c ∈ entry.1.string, isSpace c = false) := by
  refine ⟨_, if_pos exceeds, ?_, ?_⟩
  · intro p member
    obtain ⟨emitted, mapped, within⟩ := List.mem_flatMap.mp member
    obtain ⟨chunk, _, same⟩ := List.mem_map.mp mapped
    rw [← same] at within
    exact List.mem_singleton.mp within
  · rw [← @chunkText_ne_nil self]
    constructor
    · intro member nothing
      rw [nothing] at member
      cases member
    · intro some
      obtain ⟨chunk, member⟩ := List.exists_mem_of_ne_nil _ some
      exact List.mem_flatMap.mpr ⟨_, List.mem_map.mpr ⟨chunk, member, rfl⟩, List.mem_singleton.mpr rfl⟩

theorem addCell_under (under : ¬self.Oversized entry.2 entry.1) (sound : traced.Sound) :
    (self.addCell sheet row traced entry).trace = traced.trace ++ [⟨sheet, .cell row entry.2⟩] ∧
      ⟨sheet, .cell row entry.2⟩ ∈ (self.addCell sheet row traced entry).places := by
  unfold Oversized at under
  unfold addCell
  dsimp only
  rw [if_neg under]
  split
  · rw [Traced.add_trace, Traced.restarted_trace, Traced.saved_places sound]
    exact ⟨rfl, List.mem_append_right _ (List.mem_singleton.mpr rfl)⟩
  · rw [Traced.add_trace]
    exact ⟨rfl, List.mem_append_right _ (List.mem_singleton.mpr rfl)⟩

theorem addCell_sound (sound : traced.Sound) : (self.addCell sheet row traced entry).Sound := by
  unfold addCell
  dsimp only
  split
  · exact sound
  · split <;> exact Traced.add_sound (line_visible (stringifyCell_visible _ _))

theorem addCells_sound (sound : traced.Sound) : (entries.foldl (self.addCell sheet row) traced).Sound := by
  induction entries generalizing traced with
  | nil => exact sound
  | cons entry entries ih => exact ih (addCell_sound sound)

theorem addCell_mem (sound : traced.Sound) : place ∈ (self.addCell sheet row traced entry).trace ↔
    place ∈ traced.trace ∨ place = ⟨sheet, .cell row entry.2⟩ ∧ self.Shown entry := by
  by_cases exceeds : self.Oversized entry.2 entry.1
  · obtain ⟨emitted, same, only, some⟩ := @addCell_over self sheet row traced entry exceeds
    rw [same]
    unfold Traced.trace
    simp only [List.flatMap_append, List.mem_append]
    constructor
    · rintro ((early | added) | pending)
      · exact .inl (.inl early)
      · have own := only place added
        rw [own] at added
        exact .inr ⟨own, fun _ => some.mp added⟩
      · exact .inl (.inr pending)
    · rintro ((early | pending) | ⟨own, shown⟩)
      · exact .inl (.inl early)
      · exact .inr pending
      · rw [own]
        exact .inl (.inr (some.mpr (shown exceeds)))
  · rw [(addCell_under exceeds sound).1, List.mem_append, List.mem_singleton]
    have shown : self.Shown entry := fun other => (exceeds other).elim
    simp only [shown, and_true]

theorem addCells_mem (sound : traced.Sound) : place ∈ (entries.foldl (self.addCell sheet row) traced).trace ↔
    place ∈ traced.trace ∨ ∃ entry ∈ entries, place = ⟨sheet, .cell row entry.2⟩ ∧ self.Shown entry := by
  induction entries generalizing traced with
  | nil => simp
  | cons entry entries ih =>
    rw [List.foldl_cons, ih (addCell_sound sound), addCell_mem sound]
    simp only [List.mem_cons, exists_eq_or_imp, or_assoc]

theorem splitRow_places (cells : List Cell) : (self.splitRow sheet row cells).flatMap (·.places) =
    (cells.zipIdx.foldl (self.addCell sheet row) ⟨[], [], 0, []⟩).trace :=
  Traced.saved_places (addCells_sound Traced.start_sound)

theorem splitRow_mem {cells : List Cell} : place ∈ (self.splitRow sheet row cells).flatMap (·.places) ↔
    ∃ entry ∈ cells.zipIdx, place = ⟨sheet, .cell row entry.2⟩ ∧ self.Shown entry := by
  rw [splitRow_places, addCells_mem Traced.start_sound]
  exact or_iff_right (by simp [Traced.trace])

/-! ### The order of the cells -/

theorem same_before {part part' : Part} : (Place.mk sheet part).before ⟨sheet, part'⟩ = part.before part' := by
  simp [Place.before]

theorem cell_before {column column' : Nat} :
    (Place.mk sheet (.cell row column)).before ⟨sheet, .cell row column'⟩ = decide (column < column') := by
  rw [same_before]
  simp [Part.before]

theorem addCells_sorted (ascending : entries.Pairwise fun entry entry' => entry.2 < entry'.2) (sound : traced.Sound)
    (sorted : traced.trace.Pairwise fun place next => next.before place = false)
    (behind : ∀ place ∈ traced.trace, ∀ entry ∈ entries, (Place.mk sheet (.cell row entry.2)).before place = false)
    (first : ∀ entry ∈ entries, self.Oversized entry.2 entry.1 → traced.places = [] ∧
      ∀ earlier ∈ entries, earlier.2 < entry.2 → self.Oversized earlier.2 earlier.1) :
    (entries.foldl (self.addCell sheet row) traced).trace.Pairwise fun place next => next.before place = false := by
  induction entries generalizing traced with
  | nil => exact sorted
  | cons entry entries ih =>
    obtain ⟨after, ascending'⟩ := List.pairwise_cons.mp ascending
    have behind' : ∀ place ∈ (self.addCell sheet row traced entry).trace, ∀ entry' ∈ entries,
        (Place.mk sheet (.cell row entry'.2)).before place = false := by
      intro place member entry' later
      rcases (addCell_mem sound).mp member with early | ⟨own, _⟩
      · exact behind place early entry' (List.mem_cons_of_mem _ later)
      · rw [own, cell_before]
        exact decide_eq_false (Nat.lt_asymm (after entry' later))
    refine ih ascending' (addCell_sound sound) ?_ behind' ?_
    · by_cases exceeds : self.Oversized entry.2 entry.1
      · obtain ⟨emitted, same, only, _⟩ := @addCell_over self sheet row traced entry exceeds
        have nothing := (first entry List.mem_cons_self exceeds).1
        have trace : (self.addCell sheet row traced entry).trace = traced.trace ++ emitted.flatMap (·.places) := by
          rw [same]
          unfold Traced.trace
          rw [List.flatMap_append, nothing, List.append_nil, List.append_nil]
        rw [trace]
        refine List.pairwise_append.mpr ⟨sorted, List.pairwise_of_forall_mem_list fun p member q member' => ?_, ?_⟩
        · rw [only p member, only q member', cell_before]
          exact decide_eq_false (Nat.lt_irrefl _)
        · intro p early q added
          rw [only q added]
          exact behind p early entry List.mem_cons_self
      · rw [(addCell_under exceeds sound).1]
        refine List.pairwise_append.mpr ⟨sorted, List.pairwise_singleton _ _, fun p early q last => ?_⟩
        rw [List.mem_singleton.mp last]
        exact behind p early entry List.mem_cons_self
    · intro entry' later exceeds'
      obtain ⟨nothing, overs⟩ := first entry' (List.mem_cons_of_mem _ later) exceeds'
      obtain ⟨emitted, same, _⟩ :=
        @addCell_over self sheet row traced entry (overs entry List.mem_cons_self (after entry' later))
      rw [same]
      exact ⟨nothing, fun earlier member => overs earlier (List.mem_cons_of_mem _ member)⟩

theorem addCells_tail (sound : traced.Sound) : ∃ tail,
    (entries.foldl (self.addCell sheet row) traced).trace = traced.emitted.flatMap (·.places) ++ tail ∧ traced.places ⊆ tail := by
  induction entries generalizing traced with
  | nil => exact ⟨traced.places, rfl, fun _ member => member⟩
  | cons entry entries ih =>
    obtain ⟨tail, same, pending⟩ := ih (@addCell_sound self sheet row traced entry sound)
    rw [List.foldl_cons, same]
    unfold addCell at pending ⊢
    dsimp only at pending ⊢
    split at pending
    · rename_i exceeds
      rw [if_pos exceeds, List.flatMap_append, List.append_assoc]
      exact ⟨_, rfl, fun _ member => List.mem_append_right _ (pending member)⟩
    · rename_i under
      rw [if_neg under]
      split at pending
      · rename_i full
        rw [if_pos full]
        unfold Traced.add
        rw [Traced.saved_places sound]
        unfold Traced.trace
        rw [List.append_assoc]
        exact ⟨_, rfl, fun _ member => List.mem_append_left _ member⟩
      · rename_i room
        rw [if_neg room]
        exact ⟨tail, rfl, fun _ member => pending (List.mem_append_left _ member)⟩

theorem addCells_pending (waits : traced.places ≠ [] ∨ ∃ entry ∈ entries, ¬self.Oversized entry.2 entry.1) (sound : traced.Sound) :
    (entries.foldl (self.addCell sheet row) traced).places ≠ [] := by
  induction entries generalizing traced with
  | nil => exact waits.resolve_right fun ⟨_, nothing, _⟩ => by cases nothing
  | cons entry entries ih =>
    refine ih ?_ (addCell_sound sound)
    by_cases exceeds : self.Oversized entry.2 entry.1
    · obtain ⟨emitted, same, _⟩ := @addCell_over self sheet row traced entry exceeds
      rw [same]
      refine waits.imp_right fun ⟨other, member, under⟩ => ?_
      rcases List.mem_cons.mp member with first | later
      · rw [first] at under
        exact (under exceeds).elim
      · exact ⟨other, later, under⟩
    · exact .inl (List.ne_nil_of_mem (addCell_under exceeds sound).2)

theorem zipIdx_ascending {α : Type} (items : List α) : items.zipIdx.Pairwise fun entry entry' => entry.2 < entry'.2 := by
  have indices := @List.pairwise_lt_range' 0 items.length 1
  rw [← List.zipIdx_map_snd 0 items] at indices
  exact List.pairwise_map.mp indices

/-- When every cell appears, the cells are in order exactly when those over the limit come first. -/
theorem splitRow_sorted {cells : List Cell} (shown : ∀ entry ∈ cells.zipIdx, self.Shown entry) :
    (((self.splitRow sheet row cells).flatMap (·.places)).Pairwise fun place next => next.before place = false) ↔
      ∀ entry ∈ cells.zipIdx, self.Oversized entry.2 entry.1 →
        ∀ earlier ∈ cells.zipIdx, earlier.2 < entry.2 → self.Oversized earlier.2 earlier.1 := by
  rw [splitRow_places]
  constructor
  · intro sorted entry member exceeds earlier member' ahead
    by_contra under
    obtain ⟨before, after, parts⟩ := List.append_of_mem member
    have ascending := zipIdx_ascending cells
    rw [parts] at ascending member' sorted
    obtain ⟨_, ascending', apart⟩ := List.pairwise_append.mp ascending
    have inside : earlier ∈ before := by
      rcases List.mem_append.mp member' with early | late
      · exact early
      · rcases List.mem_cons.mp late with same | later
        · rw [same] at ahead
          exact (Nat.lt_irrefl _ ahead).elim
        · exact (Nat.lt_asymm ahead ((List.pairwise_cons.mp ascending').1 earlier later)).elim
    have sound := @addCells_sound self sheet row _ before Traced.start_sound
    have waits := @addCells_pending self sheet row _ before (.inr ⟨earlier, inside, under⟩) Traced.start_sound
    obtain ⟨pending, waiting⟩ := List.exists_mem_of_ne_nil _ waits
    have own := (addCells_mem Traced.start_sound).mp (List.mem_append_right _ waiting)
    obtain ⟨smaller, among, same, _⟩ := own.resolve_left fun none => by cases none
    obtain ⟨emitted, added, _, some⟩ :=
      @addCell_over self sheet row (before.foldl (self.addCell sheet row) ⟨[], [], 0, []⟩) entry exceeds
    obtain ⟨tail, whole, last⟩ := @addCells_tail self sheet row _ after (@addCell_sound self sheet row _ entry sound)
    rw [List.foldl_append, List.foldl_cons, whole] at sorted
    rw [added] at sorted last
    refine Bool.eq_false_iff.mp ((List.pairwise_append.mp sorted).2.2 ⟨sheet, .cell row entry.2⟩ ?_ pending (last waiting)) ?_
    · rw [List.flatMap_append]
      exact List.mem_append_right _ (some.mpr (shown entry (parts ▸ member) exceeds))
    · rw [same, cell_before]
      exact decide_eq_true (apart smaller among entry List.mem_cons_self)
  · intro first
    exact addCells_sorted (zipIdx_ascending cells) Traced.start_sound List.Pairwise.nil (fun _ none => by cases none)
      fun entry member exceeds => ⟨rfl, first entry member exceeds⟩

end SmartChunker

/-! ### Rows and sheets -/

namespace SmartChunker
variable {self : SmartChunker} {sheet : Nat} {traced : Traced}

/-- The places that are read for a row. -/
def rowPlaces (self : SmartChunker) (sheet : Nat) (entry : BoundedSheetRow × Nat) : List Place :=
  if self.countTokens entry.1.json > self.chunkTokenLimit then (self.splitRow sheet entry.2 entry.1.cells).flatMap (·.places)
  else [⟨sheet, .row entry.2⟩]

def rowsPlaces (self : SmartChunker) (entry : BoundedSheet × Nat) : List Place :=
  entry.1.rows.zipIdx.flatMap (self.rowPlaces entry.2)

/-- The places that are read for a sheet. -/
def sheetPlaces (self : SmartChunker) (entry : BoundedSheet × Nat) : List Place :=
  ⟨entry.2, .header⟩ :: (self.rowsPlaces entry ++ [⟨entry.2, .footer⟩])

theorem addRow_trace {entry : BoundedSheetRow × Nat} (sound : traced.Sound) :
    (self.addRow sheet traced entry).trace = traced.trace ++ self.rowPlaces sheet entry ∧ (self.addRow sheet traced entry).Sound := by
  unfold addRow rowPlaces
  dsimp only
  split
  · obtain ⟨places, nothing⟩ := Traced.flushed_places sound
    constructor
    · unfold Traced.trace at places ⊢
      rw [List.flatMap_append, nothing, List.append_nil, places]
    · exact fun some => (some nothing).elim
  · split
    · rw [Traced.add_trace, Traced.restarted_trace, Traced.pushed_places]
      exact ⟨rfl, Traced.add_sound (line_visible (row_visible _))⟩
    · rw [Traced.add_trace]
      exact ⟨rfl, Traced.add_sound (line_visible (row_visible _))⟩

theorem addRows_trace {entries : List (BoundedSheetRow × Nat)} (sound : traced.Sound) :
    (entries.foldl (self.addRow sheet) traced).trace = traced.trace ++ entries.flatMap (self.rowPlaces sheet) ∧
      (entries.foldl (self.addRow sheet) traced).Sound := by
  induction entries generalizing traced with
  | nil => exact ⟨(List.append_nil _).symm, sound⟩
  | cons entry entries ih =>
    obtain ⟨trace, sound'⟩ := @addRow_trace self sheet traced entry sound
    obtain ⟨trace', sound''⟩ := ih sound'
    rw [trace, List.append_assoc] at trace'
    exact ⟨trace', sound''⟩

theorem addSheet_trace {entry : BoundedSheet × Nat} :
    (self.addSheet traced entry).trace = traced.trace ++ self.sheetPlaces entry ∧ (self.addSheet traced entry).Sound := by
  obtain ⟨trace, _⟩ := @addRows_trace self entry.2 (traced.add (sheetHeader entry.1.name) (self.countTokens (sheetHeader entry.1.name))
    ⟨entry.2, .header⟩) entry.1.rows.zipIdx (Traced.add_sound (header_visible _))
  rw [Traced.add_trace] at trace
  have places : traced.trace ++ self.sheetPlaces entry =
      traced.trace ++ [⟨entry.2, .header⟩] ++ entry.1.rows.zipIdx.flatMap (self.rowPlaces entry.2) ++ [⟨entry.2, .footer⟩] := by
    simp only [sheetPlaces, rowsPlaces, List.append_assoc, List.cons_append, List.nil_append]
  rw [places, ← trace]
  unfold addSheet
  dsimp only
  split
  · rw [Traced.add_trace, Traced.restarted_trace, Traced.pushed_places]
    exact ⟨rfl, Traced.add_sound (footer_visible _)⟩
  · rw [Traced.add_trace]
    exact ⟨rfl, Traced.add_sound (footer_visible _)⟩

theorem addSheets_trace {entries : List (BoundedSheet × Nat)} (sound : traced.Sound) :
    (entries.foldl self.addSheet traced).trace = traced.trace ++ entries.flatMap self.sheetPlaces ∧
      (entries.foldl self.addSheet traced).Sound := by
  induction entries generalizing traced with
  | nil => exact ⟨(List.append_nil _).symm, sound⟩
  | cons entry entries ih =>
    obtain ⟨trace, sound'⟩ := @addSheet_trace self traced entry
    obtain ⟨trace', sound''⟩ := ih sound'
    rw [trace, List.append_assoc] at trace'
    exact ⟨trace', sound''⟩

theorem placesRead_eq (sheets : List BoundedSheet) : self.placesRead sheets = sheets.zipIdx.flatMap self.sheetPlaces := by
  obtain ⟨trace, sound⟩ := @addSheets_trace self ⟨[], [], 0, []⟩ sheets.zipIdx Traced.start_sound
  exact (Traced.saved_places sound).trans trace

/-! ### Where a place is read -/

section Placed
variable {place : Place}

/-- Where the rows of a sheet put a place. -/
def Part.OfRow (part : Part) (row : Nat) : Prop := part = .row row ∨ ∃ column, part = .cell row column

theorem rowPlaces_mem {entry : BoundedSheetRow × Nat} (member : place ∈ self.rowPlaces sheet entry) :
    place.sheet = sheet ∧ Part.OfRow place.part entry.2 := by
  unfold rowPlaces at member
  split at member
  · obtain ⟨cell, _, same, _⟩ := splitRow_mem.mp member
    rw [same]
    exact ⟨rfl, .inr ⟨cell.2, rfl⟩⟩
  · rw [List.mem_singleton.mp member]
    exact ⟨rfl, .inl rfl⟩

theorem ofRow_unique {part : Part} {i i' : Nat} (first : Part.OfRow part i) (second : Part.OfRow part i') : i = i' := by
  rcases first with rfl | ⟨column, rfl⟩
  · rcases second with same | ⟨column', same⟩ <;> cases same
    rfl
  · rcases second with same | ⟨column', same⟩ <;> cases same
    rfl

theorem sheetPlaces_sheet {entry : BoundedSheet × Nat} (member : place ∈ self.sheetPlaces entry) : place.sheet = entry.2 := by
  rcases List.mem_cons.mp member with first | later
  · rw [first]
  · rcases List.mem_append.mp later with rows | last
    · obtain ⟨row, _, within⟩ := List.mem_flatMap.mp rows
      exact (rowPlaces_mem within).1
    · rw [List.mem_singleton.mp last]

theorem placesRead_mem {sheets : List BoundedSheet} {sheet : BoundedSheet × Nat} {row : BoundedSheetRow × Nat}
    (inSheets : sheet ∈ sheets.zipIdx) (inRows : row ∈ sheet.1.rows.zipIdx) (own : place.sheet = sheet.2)
    (ofRow : Part.OfRow place.part row.2) : place ∈ self.placesRead sheets ↔ place ∈ self.rowPlaces sheet.2 row := by
  rw [placesRead_eq, List.mem_flatMap]
  constructor
  · rintro ⟨sheet', inSheets', member⟩
    have sameIndex := (sheetPlaces_sheet member).symm.trans own
    have same : sheet' = sheet := by
      have at_ := List.mem_zipIdx_iff_getElem?.mp inSheets
      have at_' := List.mem_zipIdx_iff_getElem?.mp inSheets'
      rw [sameIndex, at_] at at_'
      exact Prod.ext (Option.some.inj at_').symm sameIndex
    subst same
    rcases List.mem_cons.mp member with first | later
    · rw [first] at ofRow
      rcases ofRow with none | ⟨_, none⟩ <;> cases none
    · rcases List.mem_append.mp later with rows | last
      · obtain ⟨row', inRows', within⟩ := List.mem_flatMap.mp rows
        have sameRow := ofRow_unique (rowPlaces_mem within).2 ofRow
        have same : row' = row := by
          have at_ := List.mem_zipIdx_iff_getElem?.mp inRows
          have at_' := List.mem_zipIdx_iff_getElem?.mp inRows'
          rw [sameRow, at_] at at_'
          exact Prod.ext (Option.some.inj at_').symm sameRow
        rwa [← same]
      · rw [List.mem_singleton.mp last] at ofRow
        rcases ofRow with none | ⟨_, none⟩ <;> cases none
  · intro within
    refine ⟨sheet, inSheets, List.mem_cons_of_mem _ (List.mem_append_left _ ?_)⟩
    exact List.mem_flatMap.mpr ⟨row, inRows, within⟩

theorem rowPlaces_before {sheet : Nat} {place place' : Place} {i i' : Nat} (ahead : i < i') (own : place.sheet = sheet)
    (ofRow : Part.OfRow place.part i) (own' : place'.sheet = sheet) (ofRow' : Part.OfRow place'.part i') :
    place'.before place = false := by
  obtain ⟨index, part⟩ := place
  obtain ⟨index', part'⟩ := place'
  dsimp only at own own' ofRow ofRow'
  subst own own'
  rcases ofRow with rfl | ⟨column, rfl⟩ <;> rcases ofRow' with rfl | ⟨column', rfl⟩ <;> simp [Place.before, Part.before] <;> omega

theorem placesRead_sorted {sheets : List BoundedSheet} :
    ((self.placesRead sheets).Pairwise fun place next => next.before place = false) ↔
      ∀ sheet ∈ sheets.zipIdx, ∀ row ∈ sheet.1.rows.zipIdx,
        (self.rowPlaces sheet.2 row).Pairwise fun place next => next.before place = false := by
  rw [placesRead_eq, List.pairwise_flatMap]
  have apart : sheets.zipIdx.Pairwise fun sheet sheet' =>
      ∀ place ∈ self.sheetPlaces sheet, ∀ next ∈ self.sheetPlaces sheet', next.before place = false := by
    refine (zipIdx_ascending sheets).imp fun ahead place member next member' => ?_
    unfold Place.before
    rw [sheetPlaces_sheet member, sheetPlaces_sheet member']
    simp
    omega
  rw [and_iff_left apart]
  refine forall₂_congr fun sheet _ => ?_
  have apart' : sheet.1.rows.zipIdx.Pairwise fun row row' =>
      ∀ place ∈ self.rowPlaces sheet.2 row, ∀ next ∈ self.rowPlaces sheet.2 row', next.before place = false := by
    refine (zipIdx_ascending sheet.1.rows).imp fun ahead place member next member' => ?_
    obtain ⟨own, ofRow⟩ := rowPlaces_mem member
    obtain ⟨own', ofRow'⟩ := rowPlaces_mem member'
    exact rowPlaces_before ahead own ofRow own' ofRow'
  have header : ∀ next ∈ self.rowsPlaces sheet ++ [⟨sheet.2, .footer⟩], next.before ⟨sheet.2, .header⟩ = false := by
    intro next member
    have own : next.sheet = sheet.2 := sheetPlaces_sheet (List.mem_cons_of_mem _ member)
    rw [← own, same_before]
    cases next.part <;> rfl
  have footer : ∀ place ∈ self.rowsPlaces sheet, ∀ next ∈ ([⟨sheet.2, .footer⟩] : List Place), next.before place = false := by
    intro place member next last
    have own : place.sheet = sheet.2 := sheetPlaces_sheet (List.mem_cons_of_mem _ (List.mem_append_left _ member))
    rw [List.mem_singleton.mp last, ← own, same_before]
    cases place.part <;> rfl
  unfold sheetPlaces
  rw [List.pairwise_cons, and_iff_right header, List.pairwise_append, and_iff_left ⟨List.pairwise_singleton _ _, footer⟩]
  unfold rowsPlaces
  rw [List.pairwise_flatMap, and_iff_left apart']

/-! ### Document order -/

theorem rowAppears_fits {sheets : List BoundedSheet} {sheet : BoundedSheet × Nat} {row : BoundedSheetRow × Nat}
    (inSheets : sheet ∈ sheets.zipIdx) (inRows : row ∈ sheet.1.rows.zipIdx)
    (fits : ¬self.countTokens row.1.json > self.chunkTokenLimit) : self.RowAppears sheets sheet.2 row.2 row.1.cells := by
  refine .inl ((placesRead_mem inSheets inRows rfl (.inl rfl)).mpr ?_)
  unfold rowPlaces
  rw [if_neg fits]
  exact List.mem_singleton.mpr rfl

/-- A row over the limit appears when it has cells, and every one of them has a chunk. -/
theorem rowAppears_over {sheets : List BoundedSheet} {sheet : BoundedSheet × Nat} {row : BoundedSheetRow × Nat}
    (inSheets : sheet ∈ sheets.zipIdx) (inRows : row ∈ sheet.1.rows.zipIdx)
    (exceeds : self.countTokens row.1.json > self.chunkTokenLimit) :
    self.RowAppears sheets sheet.2 row.2 row.1.cells ↔ row.1.cells ≠ [] ∧ ∀ cell ∈ row.1.cells.zipIdx, self.Shown cell := by
  have places : self.rowPlaces sheet.2 row = (self.splitRow sheet.2 row.2 row.1.cells).flatMap (·.places) := if_pos exceeds
  have whole : (⟨sheet.2, .row row.2⟩ : Place) ∉ self.placesRead sheets := by
    rw [placesRead_mem inSheets inRows rfl (.inl rfl), places, splitRow_mem]
    rintro ⟨_, _, same, _⟩
    cases same
  have cells (column : Nat) : (⟨sheet.2, .cell row.2 column⟩ : Place) ∈ self.placesRead sheets ↔
      ∃ cell ∈ row.1.cells.zipIdx, cell.2 = column ∧ self.Shown cell := by
    rw [placesRead_mem inSheets inRows rfl (.inr ⟨column, rfl⟩), places, splitRow_mem]
    simp only [Place.mk.injEq, Part.cell.injEq, true_and, eq_comm]
  unfold RowAppears
  rw [or_iff_right whole]
  refine and_congr_right fun _ => ⟨fun every cell member => ?_, fun shown column inside => ?_⟩
  · obtain ⟨other, member', same, shown⟩ := (cells cell.2).mp (every cell.2 (List.snd_lt_of_mem_zipIdx member))
    have at_ := List.mem_zipIdx_iff_getElem?.mp member
    have at_' := List.mem_zipIdx_iff_getElem?.mp member'
    rw [same, at_] at at_'
    rwa [← Prod.ext (Option.some.inj at_').symm same]
  · have member : (row.1.cells[column], column) ∈ row.1.cells.zipIdx := List.mk_mem_zipIdx_iff_getElem?.mpr (List.getElem?_eq_getElem inside)
    exact (cells column).mpr ⟨_, member, rfl, shown _ member⟩

theorem row_in_order {sheets : List BoundedSheet} {sheet : BoundedSheet × Nat} {row : BoundedSheetRow × Nat}
    (inSheets : sheet ∈ sheets.zipIdx) (inRows : row ∈ sheet.1.rows.zipIdx) :
    ((self.rowPlaces sheet.2 row).Pairwise fun place next => next.before place = false) ∧
      self.RowAppears sheets sheet.2 row.2 row.1.cells ↔ self.OversizedFirst row.1 := by
  by_cases exceeds : self.countTokens row.1.json > self.chunkTokenLimit
  · rw [rowAppears_over inSheets inRows exceeds]
    unfold rowPlaces OversizedFirst
    rw [if_pos exceeds]
    constructor
    · rintro ⟨sorted, some, shown⟩ _
      have first := (splitRow_sorted shown).mp sorted
      exact ⟨some, fun cell member oversized => ⟨shown cell member oversized, first cell member oversized⟩⟩
    · intro first
      obtain ⟨some, each⟩ := first exceeds
      have shown : ∀ cell ∈ row.1.cells.zipIdx, self.Shown cell := fun cell member oversized => (each cell member oversized).1
      exact ⟨(splitRow_sorted shown).mpr fun cell member oversized => (each cell member oversized).2, some, shown⟩
  · have places : self.rowPlaces sheet.2 row = [⟨sheet.2, .row row.2⟩] := if_neg exceeds
    rw [places]
    exact ⟨fun _ other => (exceeds other).elim, fun _ => ⟨List.pairwise_singleton _ _, rowAppears_fits inSheets inRows exceeds⟩⟩

end Placed

end SmartChunker

/-! ### A small cell before a large one -/

def narrowLimit : SmartChunker := ⟨.bedrock, 8, by decide⟩

def longText : Text := List.replicate 40 0x62

def mixedCells : List Cell := [⟨some (ascii "7"), ascii "7"⟩, ⟨some (quotedText longText), longText⟩]

def mixedSheet : BoundedSheet := ⟨ascii "S", [⟨mixedCells, stringifyRow mixedCells, rfl⟩]⟩

end Bike4Mind.FileChunks
