import Bike4Mind.ContextPruning.StaleResults
import Bike4Mind.Texts.FirstRuns

/-! The lines that a read's own text is taken to show are the lines that it shows. -/

namespace Bike4Mind.ContextPruning
open Texts Texts.Regex

variable {text front back : Text} {c : CodeUnit} {run : Run CodeUnit}

/-! ### The trailer in a text -/

theorem trailer_opens (other : c ≠ 0x5b) : trailerAt (c :: text) = none := by
  unfold trailerAt TRAILER
  rw [find_seq, find_literal, if_neg]
  intro starts
  exact other (List.cons_prefix_cons.mp starts).1.symm

theorem trailer_closes (taken : trailerAt text = some run) : text.getLast? = some 0x5d := by
  obtain ⟨before, tried, ends⟩ := List.exists_of_findSome?_eq_some taken
  have empty : before.rest = [] := by
    unfold toEnd at ends
    split at ends
    · assumption
    · cases ends
  have cut := runs_cut TRAILER text before tried
  have takes := takes_of_run tried
  rw [empty, List.append_nil] at cut
  rw [← cut]
  unfold TRAILER at takes
  obtain ⟨_, _, whole₁, _, takes⟩ := takes_seq.mp takes
  obtain ⟨_, _, whole₂, _, takes⟩ := takes_seq.mp takes
  obtain ⟨_, _, whole₃, _, takes⟩ := takes_seq.mp takes
  obtain ⟨_, _, whole₄, _, takes⟩ := takes_seq.mp takes
  obtain ⟨_, _, whole₅, _, takes⟩ := takes_seq.mp takes
  obtain ⟨_, _, whole₆, _, takes⟩ := takes_seq.mp takes
  obtain ⟨_, _, whole₇, _, takes⟩ := takes_seq.mp takes
  obtain ⟨_, _, whole₈, _, takes⟩ := takes_seq.mp takes
  obtain ⟨_, _, whole₉, bracket, nothing⟩ := takes_seq.mp takes
  obtain ⟨d, single, closing⟩ := takes_unit.mp bracket
  have bracket : d = 0x5d := of_decide_eq_true closing
  rw [whole₁, whole₂, whole₃, whole₄, whole₅, whole₆, whole₇, whole₈, whole₉, single, takes_empty.mp nothing, bracket]
  simp

theorem execTrailer_skip (quiet : ∀ i < front.length, trailerAt ((front ++ back).drop i) = none) :
    execTrailer (front ++ back) = execTrailer back := by
  induction front with
  | nil => rfl
  | cons c front ih =>
    have here : trailerAt (c :: (front ++ back)) = none := quiet 0 (Nat.succ_pos _)
    show (trailerAt (c :: (front ++ back))).or (execTrailer (front ++ back)) = _
    rw [here, Option.none_or]
    exact ih fun i inside => quiet (i + 1) (Nat.succ_lt_succ inside)

theorem execTrailer_plain (plain : ∀ c ∈ front, c ≠ 0x5b) : execTrailer (front ++ back) = execTrailer back := by
  refine execTrailer_skip fun i inside => ?_
  rw [List.drop_append_of_le_length inside.le, List.drop_eq_getElem_cons inside]
  exact trailer_opens (plain _ (List.getElem_mem inside))

theorem execTrailer_none (quiet : ∀ i < text.length, trailerAt (text.drop i) = none) : execTrailer text = none := by
  have all := @execTrailer_skip text [] (by rwa [List.append_nil])
  rwa [List.append_nil] at all

theorem execTrailer_open (other : text.getLast? ≠ some 0x5d) : execTrailer text = none := by
  refine execTrailer_none fun i inside => ?_
  by_contra found
  obtain ⟨run, taken⟩ := Option.ne_none_iff_exists'.mp found
  have ends := trailer_closes taken
  rw [List.getLast?_drop, if_neg (by omega)] at ends
  exact other ends

/-! ### The trailer of a read -/

namespace Window
variable {w : Window}

theorem literal_first (mark : String) : (Regex.literal (ascii mark)).first (ascii mark ++ back) = some ⟨ascii mark, back, []⟩ :=
  first_literal_append

theorem digits_first (n : Nat) (mark : String) (stops : (ascii mark).head?.any (! isDigit ·) = true) :
    DIGITS.first (decimal n ++ (ascii mark ++ back)) = some ⟨decimal n, ascii mark ++ back, []⟩ := by
  refine first_plus_unit decimal_ne_nil (fun _ member => decimal_isDigit member) fun c next => ?_
  cases split : ascii mark with
  | nil =>
    rw [split] at stops
    cases stops
  | cons d more =>
    rw [split] at stops next
    cases next
    exact (Bool.not_eq_true' _).mp stops

theorem continuation_first : (Regex.optional (.seq (.literal (ascii " Continue with offset ")) <| .seq DIGITS <|
    .seq (.literal (ascii ".")) <| .star true (.except 0x5d))).first (w.continuation ++ ascii "]") =
      some ⟨w.continuation, ascii "]", []⟩ := by
  unfold continuation
  by_cases more : w.shownTo < w.total
  · rw [if_pos more]
    simp only [List.append_assoc]
    generalize cut : (if w.shownTo < w.last then ascii " The rest did not fit in one result." else []) = note
    have plain : ∀ c ∈ note, decide (c ≠ 0x5d) = true := by
      rw [← cut]
      split <;> exact List.all_eq_true.mp (by decide)
    have rest : (Regex.star true (.except 0x5d)).first (note ++ ascii "]") = some ⟨note, ascii "]", []⟩ :=
      first_star_unit plain fun c (first : some 0x5d = some c) => by cases first; rfl
    have taken := first_seq (literal_first " Continue with offset ") <| first_seq (digits_first (w.shownTo + 1) "." (by decide)) <|
      first_seq (literal_first ".") rest
    exact first_optional taken
  · rw [if_neg more]
    exact first_optional_none rfl

theorem trailer_first : TRAILER.first w.trailer = some ⟨w.trailer, [], [decimal w.first, decimal w.shownTo]⟩ := by
  have close : (Regex.literal (ascii "]")).first (ascii "]") = some ⟨ascii "]", [], []⟩ := by decide
  have taken := first_seq (literal_first "[Lines ") <| first_seq (first_group (digits_first w.first "-" (by decide))) <|
    first_seq (literal_first "-") <| first_seq (first_group (digits_first w.shownTo " of " (by decide))) <|
    first_seq (literal_first " of ") <| first_seq (digits_first w.total "." (by decide)) <|
    first_seq (literal_first ".") <| first_seq (@continuation_first w) close
  simpa [trailer, TRAILER, Run.followedBy, Run.captured] using taken

theorem trailerAt_trailer : trailerAt w.trailer = some ⟨w.trailer, [], [decimal w.first, decimal w.shownTo]⟩ := by
  obtain ⟨more, runs⟩ := List.head?_eq_some_iff.mp (@trailer_first w)
  unfold trailerAt find
  rw [runs]
  rfl

/-! ### The text of a window -/

theorem takeRows_head {width number size : Nat} {lines : List Text} {row : Text} {rows : List Text}
    (taken : takeRows width number size lines = row :: rows) : ∃ line, row = rowOf width number line := by
  cases lines with
  | nil => cases taken
  | cons line rest =>
    rw [takeRows] at taken
    split at taken
    · cases taken
    · exact ⟨line, (List.cons.inj taken).1.symm⟩

theorem takeRows_length {width number size : Nat} {lines : List Text} : (takeRows width number size lines).length ≤ lines.length := by
  induction lines generalizing number size with
  | nil => exact Nat.le_refl 0
  | cons line rest ih =>
    rw [takeRows]
    split
    · exact Nat.zero_le _
    · exact Nat.succ_le_succ ih

theorem takeRows_budget {width number size : Nat} {lines : List Text} (within : size ≤ OUTPUT_BUDGET) :
    size + ((takeRows width number size lines).map fun row => row.length + 1).sum ≤ OUTPUT_BUDGET := by
  induction lines generalizing number size with
  | nil => exact within
  | cons line rest ih =>
    rw [takeRows]
    split
    · exact within
    · rename_i fits
      have later := @ih (number + 1) (size + (rowOf width number line).length + 1) (by omega)
      simp only [List.map_cons, List.sum_cons]
      omega

theorem joinLines_cons {row : Text} {rows : List Text} : joinLines (row :: rows) = row ++ rows.flatMap (NEWLINE :: ·) := by
  unfold joinLines
  induction rows generalizing row with
  | nil => simp
  | cons next rows ih =>
    rw [List.intercalate_cons_cons, ih]
    simp

theorem joinLines_length {rows : List Text} : (joinLines rows).length ≤ (rows.map fun row => row.length + 1).sum := by
  cases rows with
  | nil => exact Nat.le_refl 0
  | cons row rows =>
    rw [joinLines_cons, List.length_append, List.length_flatMap]
    simp only [List.map_cons, List.sum_cons, List.length_cons]
    exact Nat.add_le_add_right (Nat.le_succ _) _

theorem text_part (part : w.isPart = true) : ∃ gap, w.text = joinLines w.rows ++ (gap ++ w.trailer) ∧ gap.length ≤ 2 ∧ ∀ c ∈ gap, c = NEWLINE := by
  unfold text
  rw [if_pos part]
  cases w.rows with
  | nil => exact ⟨[NEWLINE], by simp [joinLines], by decide, by simp⟩
  | cons row rows =>
    refine ⟨[NEWLINE, NEWLINE], ?_, by decide, by simp⟩
    rw [List.cons_append, joinLines_cons, joinLines_cons, List.flatMap_append, ← List.append_assoc]
    simp

def range (w : Window) : LineRange := if w.isPart then .lines w.first w.shownTo else .whole

/-- No place in the rows reads as the start of a trailer that ends with the text. -/
def Unmistaken (w : Window) : Prop := ∀ i < (joinLines w.rows).length, trailerAt (w.text.drop i) = none

theorem rangeShown_part (unmistaken : w.Unmistaken) (part : w.isPart = true) : rangeShown w.text = some (.lines w.first w.shownTo) := by
  obtain ⟨gap, split, _, blank⟩ := text_part part
  have found : execTrailer w.text = some ⟨w.trailer, [], [decimal w.first, decimal w.shownTo]⟩ := by
    have quiet : execTrailer w.text = execTrailer (gap ++ w.trailer) := by
      have all := unmistaken
      unfold Unmistaken at all
      rw [split] at all ⊢
      exact execTrailer_skip all
    have plain : ∀ c ∈ gap, c ≠ 0x5b := by
      intro c member
      rw [blank c member]
      decide
    rw [quiet, execTrailer_plain plain]
    have opens : w.trailer = 0x5b :: w.trailer.tail := by
      unfold trailer
      rfl
    rw [opens, execTrailer, ← opens, trailerAt_trailer]
    rfl
  unfold rangeShown
  rw [found]
  show some (LineRange.lines (number (decimal w.first)) (number (decimal w.shownTo))) = _
  rw [number_decimal, number_decimal]

theorem startsAtOne_row {width : Nat} {line rest : Text} : startsAtOne (rowOf width 1 line ++ rest) = true := by
  have one : decimal 1 = [0x31] := by decide
  unfold startsAtOne rowOf padStart List.leftpad
  rw [one, List.append_assoc, List.append_assoc, List.append_assoc, List.dropWhile_append_of_pos]
  · exact decide_eq_true ⟨cutLine line ++ rest, by simp [SPACE]⟩
  · intro c member
    rw [(List.mem_replicate.mp member).2]
    rfl

theorem rangeShown_whole (unmistaken : w.Unmistaken) (first : w.first = 1) (rows : w.rows ≠ []) (whole : w.isPart = false) :
    rangeShown w.text = some .whole := by
  have same : w.text = joinLines w.rows := by
    unfold text
    rw [if_neg (Bool.eq_false_iff.mp whole)]
  have none : execTrailer w.text = none := by
    unfold Unmistaken at unmistaken
    rw [← same] at unmistaken
    exact execTrailer_none unmistaken
  obtain ⟨row, more, split⟩ := List.exists_cons_of_ne_nil rows
  obtain ⟨line, head⟩ := takeRows_head split
  have starts : startsAtOne w.text = true := by
    rw [same, split, joinLines_cons, head, first]
    exact startsAtOne_row
  unfold rangeShown
  rw [none]
  exact if_pos starts

/-! ### What fits under the cap -/

/-- The lines of a window are lines of its file, and not too many to count. -/
structure Sound (w : Window) : Prop where
  starts : 1 ≤ w.first
  ordered : w.first ≤ w.last
  within : w.last ≤ w.total
  few : w.total ≤ 2 ^ 32

theorem Sound.shownTo_le (sound : w.Sound) : w.shownTo ≤ w.last := by
  have count : w.rows.length ≤ w.last + 1 - w.first :=
    takeRows_length.trans (List.length_take_le _ _)
  have starts := sound.starts
  have ordered := sound.ordered
  unfold shownTo
  omega

theorem Sound.rows_ne_nil (sound : w.Sound) (whole : w.isPart = false) : w.first = 1 ∧ w.rows ≠ [] := by
  obtain ⟨first, last⟩ := (Bool.or_eq_false_iff.mp whole)
  have starts := sound.starts
  have ordered := sound.ordered
  have within := sound.within
  have first := of_decide_eq_false first
  have last := of_decide_eq_false last
  refine ⟨by omega, fun none => last ?_⟩
  unfold shownTo
  rw [none]
  show w.first - 1 + 0 < w.total
  omega

theorem decimal_short {n : Nat} (small : n ≤ 2 ^ 32 + 1) : (decimal n).length ≤ 10 :=
  decimal_length (by decide) (by omega)

theorem Sound.trailer_length (sound : w.Sound) : w.trailer.length ≤ 200 := by
  have shown := sound.shownTo_le
  have ordered := sound.ordered
  have within := sound.within
  have few := sound.few
  have first := @decimal_short w.first (by omega)
  have last := @decimal_short w.shownTo (by omega)
  have total := @decimal_short w.total (by omega)
  have next := @decimal_short (w.shownTo + 1) (by omega)
  have continuation : w.continuation.length ≤ 100 := by
    unfold Window.continuation
    split
    · split <;> simp [ascii] <;> omega
    · exact Nat.zero_le _
  unfold trailer
  simp only [List.length_append]
  have marks : (ascii "[Lines ").length = 7 ∧ (ascii "-").length = 1 ∧ (ascii " of ").length = 4 ∧ (ascii ".").length = 1 ∧
      (ascii "]").length = 1 := by decide
  obtain ⟨opening, dash, of', dot, closing⟩ := marks
  omega

theorem Sound.text_length (sound : w.Sound) : w.text.length ≤ MAX_FILE_READ_OUTPUT_CHARS := by
  have rows : (joinLines w.rows).length ≤ OUTPUT_BUDGET := by
    have budget := @takeRows_budget (decimal w.last).length w.first 0 ((w.lines.drop (w.first - 1)).take (w.last + 1 - w.first))
      (Nat.zero_le _)
    rw [Nat.zero_add] at budget
    exact joinLines_length.trans budget
  by_cases part : w.isPart = true
  · obtain ⟨gap, split, short, _⟩ := text_part part
    have trailer := sound.trailer_length
    rw [split, List.length_append, List.length_append]
    unfold OUTPUT_BUDGET MAX_FILE_READ_OUTPUT_CHARS at *
    omega
  · unfold text
    rw [if_neg part]
    exact rows.trans (by decide)

end Window

namespace FoundFile
variable {file : FoundFile} {input : ReadInput}

theorem first_pos : 1 ≤ input.first := by
  unfold ReadInput.first
  omega

theorem first_length : (decimal input.first).length ≤ 400 := by
  have bound : ⌊input.offset.getD 1⌋ < 2 ^ 1024 := by
    cases given : input.offset with
    | none => decide +kernel
    | some x =>
      have small := input.finite x given
      rw [Option.getD_some, Int.floor_lt]
      exact_mod_cast small
  have positive := @first_pos input
  have first : input.first < 2 ^ 1024 := by
    unfold ReadInput.first at positive ⊢
    omega
  exact decimal_length (by decide) (first.trans (by decide +kernel))

theorem linesOf_length {content : Text} : (linesOf content).length ≤ content.length + 1 := by
  have pieces : (content.splitOn NEWLINE).length ≤ content.length + 1 := by
    have whole : joinLines (content.splitOn NEWLINE) = content := List.intercalate_splitOn _
    cases split : content.splitOn NEWLINE with
    | nil => exact Nat.zero_le _
    | cons row rows =>
      rw [split, Window.joinLines_cons] at whole
      have length := congrArg List.length whole
      rw [List.length_append, List.length_flatMap] at length
      have each : rows.length ≤ (rows.map fun row => (NEWLINE :: row).length).sum := by
        clear split whole length
        induction rows with
        | nil => exact Nat.le_refl 0
        | cons row rows ih =>
          simp only [List.map_cons, List.sum_cons, List.length_cons] at ih ⊢
          omega
      rw [List.length_cons]
      omega
  unfold linesOf
  dsimp only
  split
  · rw [List.length_dropLast]
    omega
  · exact pieces

theorem window_sound {w : Window} (shown : file.window? input = some w) : w.Sound := by
  unfold window? at shown
  cases content : file.content with
  | image format shown' => rw [content] at shown; cases shown
  | binary => rw [content] at shown; cases shown
  | text text fits =>
    rw [content] at shown
    dsimp only at shown
    split at shown
    · rename_i first
      cases shown
      have starts := @first_pos input
      have wanted : 1 ≤ input.wanted := by
        unfold ReadInput.wanted
        have many : (1 : Int) ≤ MAX_READ_LINES := by decide
        omega
      have count := @linesOf_length text
      refine ⟨starts, ?_, ?_, ?_⟩
      · show input.first ≤ min (linesOf text).length (input.first + input.wanted - 1)
        omega
      · exact Nat.min_le_left _ _
      · show (linesOf text).length ≤ _
        omega
    · cases shown

theorem read_window {w : Window} (shown : file.window? input = some w) : file.read input = w.text := by
  unfold window? at shown
  unfold read
  cases content : file.content with
  | image format shown' => rw [content] at shown; cases shown
  | binary => rw [content] at shown; cases shown
  | text text fits =>
    rw [content] at shown
    dsimp only at shown ⊢
    split at shown
    · rename_i first
      cases shown
      have starts := @first_pos input
      rw [if_neg (by omega), if_neg (by omega)]
    · cases shown

/-- A result without lines: a sentence about the file at an absolute path. -/
theorem read_notice (none : file.window? input = none) :
    ∃ rest, file.read input = file.target ++ rest ++ ascii "." ∧ rest.length ≤ 2 ^ 15 := by
  have size := file.size.property
  unfold window? at none
  unfold read
  cases content : file.content with
  | binary =>
    refine ⟨ascii " is a binary file (" ++ file.size.val ++ ascii "), so it is not shown as text", ?_, ?_⟩
    · simp [ascii]
    · simp [ascii]
      omega
  | image format shown =>
    have formatShort := format.property
    cases shown with
    | error reason =>
      have reasonShort := reason.property
      refine ⟨ascii " is a " ++ format.val ++ ascii " image (" ++ file.size.val ++ ascii ")" ++ ascii ". It was not shown: " ++ reason.val, ?_, ?_⟩
      · simp [ascii, aboutImage]
      · simp [ascii]
        omega
    | ok pixels =>
      have pixelsShort := pixels.property
      refine ⟨ascii " is a " ++ format.val ++ ascii " image (" ++ file.size.val ++ ascii ")" ++ (if pixels.val = [] then [] else ascii ", " ++ pixels.val) ++
        ascii ". You see it below this result in this reply only; read it again to look at it later", ?_, ?_⟩
      · simp [ascii, aboutImage]
      · split <;> simp [ascii] <;> omega
  | text text fits =>
    rw [content] at none
    dsimp only at none ⊢
    have past : (linesOf text).length < input.first := by
      by_contra inside
      rw [if_pos (by omega)] at none
      cases none
    by_cases empty : (linesOf text).length = 0
    · rw [if_pos empty]
      exact ⟨ascii " is empty", by simp [ascii], by decide⟩
    · rw [if_neg empty, if_pos past]
      refine ⟨ascii " has " ++ decimal (linesOf text).length ++ ascii " line" ++ (if (linesOf text).length = 1 then [] else ascii "s") ++
        ascii "; offset " ++ decimal input.first ++ ascii " is past the end", ?_, ?_⟩
      · simp [ascii]
      · have total := @linesOf_length text
        have digits := @Window.decimal_short (linesOf text).length (by omega)
        have offset := @first_length input
        split <;> simp [ascii] <;> omega

/-- The cap never cuts a read. -/
theorem capOutput_read : capOutput (file.read input) MAX_FILE_READ_OUTPUT_CHARS = file.read input := by
  unfold capOutput
  rw [if_pos]
  cases shown : file.window? input with
  | some w =>
    rw [read_window shown]
    exact (window_sound shown).text_length
  | none =>
    obtain ⟨rest, split, short⟩ := read_notice shown
    have target := file.short
    have dot : (ascii ".").length = 1 := rfl
    rw [split, List.length_append, List.length_append, dot]
    unfold MAX_FILE_READ_OUTPUT_CHARS
    omega

/-- Nothing that a read shows of the file is taken for its trailer. -/
def Unmistaken (file : FoundFile) (input : ReadInput) : Prop := ∀ w ∈ file.window? input, w.Unmistaken

theorem rangeShown_read (unmistaken : file.Unmistaken input) : rangeShown (file.read input) = (file.window? input).map Window.range := by
  cases shown : file.window? input with
  | some w =>
    have sound := window_sound shown
    have unmistaken := unmistaken w shown
    rw [read_window shown, Option.map_some, Window.range]
    by_cases part : w.isPart = true
    · rw [if_pos part]
      exact Window.rangeShown_part unmistaken part
    · rw [if_neg part]
      obtain ⟨first, rows⟩ := sound.rows_ne_nil (Bool.eq_false_iff.mpr part)
      exact Window.rangeShown_whole unmistaken first rows (Bool.eq_false_iff.mpr part)
  | none =>
    obtain ⟨rest, split, _⟩ := read_notice shown
    have open_ : execTrailer (file.read input) = none := by
      refine execTrailer_open ?_
      rw [split]
      simp [ascii]
    have later : startsAtOne (file.read input) = false := by
      have absolute := file.absolute
      rw [split]
      cases target : file.target with
      | nil =>
        rw [target] at absolute
        cases absolute
      | cons c more =>
        rw [target] at absolute
        have starts : startsAbsolute c = true := absolute
        have space : c ≠ SPACE := by
          rintro rfl
          exact absurd starts (by decide)
        have one : c ≠ 0x31 := by
          rintro rfl
          exact absurd starts (by decide)
        unfold startsAtOne
        rw [List.cons_append, List.cons_append, List.dropWhile_cons_of_neg (by simpa using space)]
        refine decide_eq_false fun starts => ?_
        exact one (List.cons_prefix_cons.mp starts).1.symm
    unfold rangeShown
    rw [open_, later]
    rfl

end FoundFile

/-! ### The size of a file of equal lines -/

section Long
variable {width number size count : Nat} {line : Text}

theorem rowOf_length (short : line.length ≤ MAX_READ_LINE_CHARS) (digits : (decimal number).length ≤ width) :
    (rowOf width number line).length = width + 1 + line.length := by
  unfold rowOf cutLine padStart
  rw [if_neg (by omega), List.length_append, List.length_append, List.length_leftpad]
  simp only [List.length_cons, List.length_nil]
  omega

theorem takeRows_replicate (short : line.length ≤ MAX_READ_LINE_CHARS) (digits : ∀ i < count, (decimal (number + i)).length ≤ width)
    (room : size + count * (width + line.length + 2) ≤ OUTPUT_BUDGET) :
    (takeRows width number size (List.replicate count line)).map List.length = List.replicate count (width + 1 + line.length) := by
  induction count generalizing number size with
  | zero => rfl
  | succ count ih =>
    have first := rowOf_length short (digits 0 (Nat.succ_pos _))
    rw [Nat.add_zero] at first
    rw [Nat.succ_mul] at room
    rw [List.replicate_succ, takeRows, if_neg (by omega), List.map_cons, first, ih, List.replicate_succ]
    · intro i inside
      have next := digits (i + 1) (Nat.succ_lt_succ inside)
      rwa [← Nat.add_assoc, Nat.add_right_comm] at next
    · omega

theorem joinLines_replicate {rows : List Text} {length : Nat} (same : rows.map List.length = List.replicate count length) (some : 0 < count) :
    (joinLines rows).length + 1 = count * (length + 1) := by
  have total : (rows.map fun row => row.length + 1).sum = count * (length + 1) := by
    have each : (rows.map fun row => row.length + 1) = (rows.map List.length).map (· + 1) := by
      rw [List.map_map]
      rfl
    rw [each, same, List.map_replicate, List.sum_replicate_nat]
  cases rows with
  | nil =>
    cases count with
    | zero => cases some
    | succ count => cases same
  | cons row rows =>
    rw [Window.joinLines_cons, List.length_append, List.length_flatMap, ← total, List.map_cons, List.sum_cons]
    show row.length + (rows.map fun row => row.length + 1).sum + 1 = row.length + 1 + (rows.map fun row => row.length + 1).sum
    omega

end Long

end Bike4Mind.ContextPruning
