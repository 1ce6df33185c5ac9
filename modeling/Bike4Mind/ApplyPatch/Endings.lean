import Bike4Mind.ApplyPatch.Placement
import Bike4Mind.ApplyPatch.Plan
import Mathlib.Algebra.Order.BigOperators.Group.List
import Mathlib.Algebra.Order.Ring.Nat

/-! The bytes of a patched file: which lines keep their own, line ending included. -/

namespace Bike4Mind.ApplyPatch
open Collections

inductive Ending where
  | none
  | lf
  | crlf
  deriving DecidableEq

def Ending.bytes : Ending → List Char
  | .none => []
  | .lf => ['\n']
  | .crlf => ['\r', '\n']

/-- A line of a file as it stands there. -/
structure RawLine where
  text : List Char
  ending : Ending
  deriving DecidableEq

def RawLine.bytes (line : RawLine) : List Char := line.text ++ line.ending.bytes

/-- The line as it is read after `\r\n` has become `\n`. -/
def RawLine.folded (line : RawLine) : List Char := line.text ++ if line.ending = .none then [] else ['\n']

def consChar (c : Char) : List RawLine → List RawLine
  | [] => [⟨[c], .none⟩]
  | line :: more => ⟨c :: line.text, line.ending⟩ :: more

def rawLines : List Char → List RawLine
  | '\r' :: '\n' :: rest => ⟨[], .crlf⟩ :: rawLines rest
  | '\n' :: rest => ⟨[], .lf⟩ :: rawLines rest
  | c :: rest => consChar c (rawLines rest)
  | [] => []

def hasBom (raw : String) : Bool := raw.toList.head? = some BOM

/-- The file behind its byte order mark. -/
def content (raw : String) : List Char := if hasBom raw then raw.toList.tail else raw.toList

def bomBytes (raw : String) : List Char := if hasBom raw then [BOM] else []

/-- Both kinds of line ending occur. -/
def Mixed (lines : List RawLine) : Prop := (∃ line ∈ lines, line.ending = .lf) ∧ ∃ line ∈ lines, line.ending = .crlf

/-- Only the last line may lack an ending, and then it is not empty. -/
def Ended : List RawLine → Prop
  | [] => True
  | [line] => line.ending = .none → line.text ≠ []
  | line :: next :: rest => line.ending ≠ .none ∧ Ended (next :: rest)

section RawLines
variable {text : List Char} {lines : List RawLine} {c : Char}

theorem consChar_bytes : (consChar c lines).flatMap RawLine.bytes = c :: lines.flatMap RawLine.bytes := by
  cases lines with
  | nil => rfl
  | cons line more => simp [consChar, RawLine.bytes]

theorem consChar_folded : (consChar c lines).flatMap RawLine.folded = c :: lines.flatMap RawLine.folded := by
  cases lines with
  | nil => rfl
  | cons line more => simp [consChar, RawLine.folded]

theorem consChar_count {p : Ending → Bool} (unended : p .none = false) :
    (consChar c lines).countP (p ·.ending) = lines.countP (p ·.ending) := by
  cases lines with
  | nil => simp [consChar, unended]
  | cons line more => simp [consChar, List.countP_cons]

theorem consChar_ended (ended : Ended lines) : Ended (consChar c lines) := by
  cases lines with
  | nil => exact fun _ => List.cons_ne_nil _ _
  | cons line more =>
    cases more with
    | nil => exact fun _ => List.cons_ne_nil _ _
    | cons next more => exact ended

theorem rawLines_crlf_cons (rest : List Char) : rawLines ('\r' :: '\n' :: rest) = ⟨[], .crlf⟩ :: rawLines rest := rfl

theorem rawLines_lf_cons (rest : List Char) : rawLines ('\n' :: rest) = ⟨[], .lf⟩ :: rawLines rest := rfl

theorem rawLines_cons {rest : List Char} (pair : ∀ more, c = '\r' → rest = '\n' :: more → False) (newline : c = '\n' → False) :
    rawLines (c :: rest) = consChar c (rawLines rest) := by
  rw [rawLines]
  · exact pair
  · exact newline

theorem endings_induction {motive : List Char → Prop} (crlf : ∀ rest, motive rest → motive ('\r' :: '\n' :: rest))
    (lf : ∀ rest, motive rest → motive ('\n' :: rest))
    (char : ∀ c rest, (∀ more, c = '\r' → rest = '\n' :: more → False) → (c = '\n' → False) → motive rest → motive (c :: rest))
    (empty : motive []) (text : List Char) : motive text := by
  induction text using rawLines.induct with
  | case1 rest ih => exact crlf rest ih
  | case2 rest ih => exact lf rest ih
  | case3 c rest pair newline ih => exact char c rest pair newline ih
  | case4 => exact empty

theorem rawLines_bytes : (rawLines text).flatMap RawLine.bytes = text := by
  induction text using endings_induction with
  | crlf rest ih => rw [rawLines_crlf_cons, List.flatMap_cons, ih]; rfl
  | lf rest ih => rw [rawLines_lf_cons, List.flatMap_cons, ih]; rfl
  | char c rest pair newline ih => rw [rawLines_cons pair newline, consChar_bytes, ih]
  | empty => rfl

theorem rawLines_folded : (rawLines text).flatMap RawLine.folded = crlfToLf text := by
  induction text using endings_induction with
  | crlf rest ih => rw [rawLines_crlf_cons, List.flatMap_cons, ih]; rfl
  | lf rest ih =>
    rw [rawLines_lf_cons, List.flatMap_cons, ih, crlfToLf]
    · rfl
    · exact nofun
  | char c rest pair newline ih =>
    rw [rawLines_cons pair newline, consChar_folded, ih, crlfToLf]
    exact pair
  | empty => rfl

theorem rawLines_crlf : crlfCount text = (rawLines text).countP (·.ending == .crlf) := by
  induction text using endings_induction with
  | crlf rest ih => rw [rawLines_crlf_cons, crlfCount, ih, List.countP_cons]; rfl
  | lf rest ih =>
    rw [rawLines_lf_cons, crlfCount, ih, List.countP_cons]
    · rfl
    · exact nofun
  | char c rest pair newline ih =>
    rw [rawLines_cons pair newline, consChar_count (p := (· == .crlf)) rfl, crlfCount, ih]
    exact pair
  | empty => rfl

theorem rawLines_newlines : text.count '\n' = (rawLines text).countP (·.ending != .none) := by
  induction text using endings_induction with
  | crlf rest ih => rw [rawLines_crlf_cons, List.countP_cons, ← ih]; simp
  | lf rest ih => rw [rawLines_lf_cons, List.countP_cons, ← ih]; simp
  | char c rest pair newline ih =>
    rw [rawLines_cons pair newline, consChar_count (p := (· != .none)) rfl, ← ih, List.count_cons_of_ne newline]
  | empty => rfl

theorem rawLines_ended : Ended (rawLines text) := by
  induction text using endings_induction with
  | crlf rest ih =>
    rw [rawLines_crlf_cons]
    cases shape : rawLines rest with
    | nil => exact nofun
    | cons line more => exact ⟨nofun, shape ▸ ih⟩
  | lf rest ih =>
    rw [rawLines_lf_cons]
    cases shape : rawLines rest with
    | nil => exact nofun
    | cons line more => exact ⟨nofun, shape ▸ ih⟩
  | char c rest pair newline ih =>
    rw [rawLines_cons pair newline]
    exact consChar_ended ih
  | empty => trivial

theorem rawLines_clean : ∀ line ∈ rawLines text, '\n' ∉ line.text := by
  induction text using endings_induction with
  | crlf rest ih =>
    rw [rawLines_crlf_cons]
    exact List.forall_mem_cons.mpr ⟨by simp, ih⟩
  | lf rest ih =>
    rw [rawLines_lf_cons]
    exact List.forall_mem_cons.mpr ⟨by simp, ih⟩
  | char c rest pair newline ih =>
    rw [rawLines_cons pair newline]
    cases shape : rawLines rest with
    | nil => simpa [consChar] using Ne.symm newline
    | cons line more =>
      rw [shape] at ih
      refine List.forall_mem_cons.mpr ⟨?_, fun other member => ih other (List.mem_cons_of_mem _ member)⟩
      have first := ih line List.mem_cons_self
      exact fun inside => (List.mem_cons.mp inside).elim (fun same => newline same.symm) first
  | empty => exact nofun

end RawLines

/-! ### Splitting -/

/-- The last line has its ending. -/
def Closed (lines : List RawLine) : Prop := ∀ line ∈ lines, line.ending ≠ .none

section Splitting
variable {lines : List RawLine} {raw : String}

instance : Decidable (Closed lines) := inferInstanceAs (Decidable (∀ line ∈ lines, line.ending ≠ .none))

theorem splitOn_folded (ended : Ended lines) (clean : ∀ line ∈ lines, '\n' ∉ line.text) :
    (lines.flatMap RawLine.folded).splitOn '\n' = lines.map (·.text) ++ if Closed lines then [[]] else [] := by
  induction lines with
  | nil => rfl
  | cons line more ih =>
    have here := clean line List.mem_cons_self
    have later := fun ended => ih ended fun other member => clean other (List.mem_cons_of_mem _ member)
    by_cases open_ : line.ending = .none
    · cases more with
      | nil =>
        have alone : ¬ Closed [line] := fun closed => closed line List.mem_cons_self open_
        rw [if_neg alone]
        simp [RawLine.folded, open_, List.splitOn_eq_singleton here]
      | cons next rest => exact (ended.1 open_).elim
    · have tail : Ended more := by
        cases more with
        | nil => trivial
        | cons next rest => exact ended.2
      have shape : (line :: more).flatMap RawLine.folded = line.text ++ '\n' :: more.flatMap RawLine.folded := by
        simp [RawLine.folded, open_]
      have same : Closed (line :: more) ↔ Closed more := by simp [Closed, open_]
      rw [shape, List.splitOn_append_cons_self_of_not_mem here, later tail]
      simp [same]

theorem not_closed_last (ended : Ended lines) (open_ : ¬ Closed lines) :
    ∃ front line, lines = front ++ [line] ∧ line.ending = .none ∧ line.text ≠ [] ∧ Closed front := by
  induction lines with
  | nil => exact (open_ nofun).elim
  | cons line more ih =>
    cases more with
    | nil =>
      have none : line.ending = .none := by simpa [Closed] using open_
      exact ⟨[], line, rfl, none, ended none, nofun⟩
    | cons next rest =>
      have later : ¬ Closed (next :: rest) := fun closed => open_ (List.forall_mem_cons.mpr ⟨ended.1, closed⟩)
      obtain ⟨front, last, shape, none, some, closed⟩ := ih ended.2 later
      exact ⟨line :: front, last, by rw [shape, List.cons_append], none, some, List.forall_mem_cons.mpr ⟨ended.1, closed⟩⟩

theorem splitText_lines : (splitText raw).lines = (rawLines (content raw)).map fun line => String.ofList line.text := by
  have same : (splitText raw).lines = splitLines (crlfToLf (content raw)) := by
    unfold splitText content hasBom
    by_cases bom : raw.toList.head? = some BOM <;> simp [bom]
  rw [same, ← rawLines_folded]
  unfold splitLines
  dsimp only
  rw [splitOn_folded rawLines_ended rawLines_clean]
  split
  · rename_i closed
    rw [List.map_append, List.map_singleton, List.getLast?_append]
    simp
  · rename_i open_
    obtain ⟨front, line, shape, -, some, -⟩ := not_closed_last rawLines_ended open_
    have visible : String.ofList line.text ≠ "" := fun empty => some (by simpa using congrArg String.toList empty)
    rw [shape]
    simp [visible]

theorem splitText_trailing : (splitText raw).trailingNewline = true ↔ rawLines (content raw) ≠ [] ∧ Closed (rawLines (content raw)) := by
  have same : (splitText raw).trailingNewline = decide ((crlfToLf (content raw)).getLast? = some '\n') := by
    unfold splitText content hasBom
    by_cases bom : raw.toList.head? = some BOM <;> simp [bom]
  rw [same, decide_eq_true_iff, ← rawLines_folded]
  by_cases closed : Closed (rawLines (content raw))
  · rcases List.eq_nil_or_concat (rawLines (content raw)) with none | ⟨front, line, shape⟩
    · simp [none]
    · rw [List.concat_eq_append] at shape
      have some : line.ending ≠ .none := closed line (by simp [shape])
      refine ⟨fun _ => ⟨by simp [shape], closed⟩, fun _ => ?_⟩
      rw [shape]
      simp [RawLine.folded, some]
  · obtain ⟨front, line, shape, none, some, -⟩ := not_closed_last rawLines_ended closed
    refine ⟨fun last => ?_, fun both => (closed both.2).elim⟩
    rw [shape] at last
    simp only [List.flatMap_append, List.flatMap_cons, List.flatMap_nil, List.append_nil, RawLine.folded, none, ↓reduceIte,
      List.getLast?_append] at last
    have inside : line.text.getLast? = Option.some '\n' := by
      cases ending : line.text.getLast? with
      | none => exact (some (List.getLast?_eq_none_iff.mp ending)).elim
      | some c =>
        rw [ending] at last
        exact last
    have clean : ∀ line ∈ rawLines (content raw), '\n' ∉ line.text := rawLines_clean
    exact (clean line (by simp [shape]) (List.mem_of_getLast? inside)).elim

theorem splitText_crlf : (splitText raw).crlf = true ↔ 0 < (rawLines (content raw)).countP (·.ending == .crlf) ∧
    (rawLines (content raw)).countP (·.ending == .lf) ≤ (rawLines (content raw)).countP (·.ending == .crlf) := by
  have same : (splitText raw).crlf = decide (0 < crlfCount (content raw) ∧
      ((content raw).count '\n' : Int) - crlfCount (content raw) ≤ crlfCount (content raw)) := by
    unfold splitText content hasBom
    by_cases bom : raw.toList.head? = some BOM <;> simp [bom]
  have both : ∀ lines : List RawLine, lines.countP (·.ending != .none) =
      lines.countP (·.ending == .lf) + lines.countP (·.ending == .crlf) := by
    intro lines
    induction lines with
    | nil => rfl
    | cons line more ih =>
      simp only [List.countP_cons, ih]
      cases line.ending <;> simp <;> omega
  rw [same, decide_eq_true_iff, rawLines_crlf, rawLines_newlines, both]
  omega

end Splitting

/-! ### Joining -/

/-- A line of the edited file: one of the file's own, or one that a hunk adds. -/
abbrev EditedLine : Type := RawLine ⊕ String

def EditedLine.text : EditedLine → String
  | .inl line => String.ofList line.text
  | .inr text => text

/-- The edited file, with the file's own lines as they stood there. -/
def editedLines (lines : List RawLine) (chunks : List PatchChunk) (placed : List Placement) : List EditedLine :=
  rebuild (lines.map .inl) 0 (cuts .inr (lines.map .inl) chunks placed) ++ (appended chunks).map .inr

/-- The line ending that at least half of the file's lines have. -/
def prevailing (raw : String) : Ending := if (splitText raw).crlf then .crlf else .lf

/-- Whether the last line that is written gets an ending. -/
def closes (raw : String) : Bool := (splitText raw).trailingNewline || (splitText raw).lines.length = 0

def EditedLine.written (ending : Ending) : EditedLine → List Char
  | .inl line => line.text
  | .inr text => if ending = .crlf then lfToCrlf text.toList else text.toList

/-- The lines that are written, each with its bytes. -/
def writtenLines (ending : Ending) (closes : Bool) : List EditedLine → List (List Char)
  | [] => []
  | [line] => [line.written ending ++ if closes then ending.bytes else []]
  | line :: next :: rest => (line.written ending ++ ending.bytes) :: writtenLines ending closes (next :: rest)

section Joining
variable {ending : Ending} {final : Bool} {edited : List EditedLine}

theorem writtenLines_at {i : Nat} : (writtenLines ending final edited)[i]? = edited[i]?.map fun line =>
    line.written ending ++ if i + 1 < edited.length ∨ final = true then ending.bytes else [] := by
  induction edited generalizing i with
  | nil => rfl
  | cons line more ih =>
    cases more with
    | nil =>
      cases i with
      | zero => simp [writtenLines]
      | succ i => simp [writtenLines]
    | cons next rest =>
      cases i with
      | zero => simp [writtenLines]
      | succ i =>
        rw [writtenLines, List.getElem?_cons_succ, ih, List.getElem?_cons_succ]
        simp

theorem lfToCrlf_append {a b : List Char} : lfToCrlf (a ++ b) = lfToCrlf a ++ lfToCrlf b := List.flatMap_append

theorem lfToCrlf_clean {a : List Char} (clean : '\n' ∉ a) : lfToCrlf a = a := by
  unfold lfToCrlf
  induction a with
  | nil => rfl
  | cons c rest ih =>
    obtain ⟨other, later⟩ := not_or.mp (mt List.mem_cons.mpr clean)
    rw [List.flatMap_cons, ih later, if_neg (Ne.symm other)]
    rfl

theorem writtenLines_lf : (['\n'].intercalate (edited.map (·.text.toList)) ++ if 0 < edited.length ∧ final = true then ['\n'] else []) =
    (writtenLines .lf final edited).flatten := by
  have own : ∀ line : EditedLine, line.written .lf = line.text.toList := by
    rintro (line | text)
    · exact String.toList_ofList.symm
    · rfl
  induction edited with
  | nil => rfl
  | cons line more ih =>
    cases more with
    | nil => simp [writtenLines, own, Ending.bytes]
    | cons next rest =>
      simp only [List.map_cons] at ih
      rw [List.map_cons, List.map_cons, List.intercalate_cons_cons, writtenLines, List.flatten_cons, ← ih, own]
      simp [Ending.bytes]

theorem writtenLines_crlf (clean : ∀ line, .inl line ∈ edited → '\n' ∉ line.text) :
    lfToCrlf (writtenLines .lf final edited).flatten = (writtenLines .crlf final edited).flatten := by
  have own : ∀ line ∈ edited, lfToCrlf (line.written .lf) = line.written .crlf := by
    rintro (line | text) member
    · exact lfToCrlf_clean (clean line member)
    · rfl
  have broken : lfToCrlf Ending.lf.bytes = Ending.crlf.bytes := rfl
  induction edited with
  | nil => rfl
  | cons line more ih =>
    have later := ih (fun other member => clean other (List.mem_cons_of_mem _ member))
      fun other member => own other (List.mem_cons_of_mem _ member)
    cases more with
    | nil =>
      simp only [writtenLines, List.flatten_cons, List.flatten_nil, List.append_nil, lfToCrlf_append, own line List.mem_cons_self]
      cases final
      · rfl
      · rfl
    | cons next rest =>
      rw [writtenLines, List.flatten_cons, lfToCrlf_append, lfToCrlf_append, later, own line List.mem_cons_self, broken]
      rfl

theorem joinText_written {raw : String} (clean : ∀ line, .inl line ∈ edited → '\n' ∉ line.text) :
    (joinText { splitText raw with lines := edited.map EditedLine.text, trailingNewline := final }).toList =
      bomBytes raw ++ (writtenLines (prevailing raw) final edited).flatten := by
  have body : (String.intercalate "\n" (edited.map EditedLine.text)).toList ++
      (if 0 < edited.length ∧ final = true then ['\n'] else []) = (writtenLines .lf final edited).flatten := by
    rw [String.toList_intercalate, List.map_map]
    exact writtenLines_lf
  have bom : (splitText raw).bom = hasBom raw := rfl
  unfold joinText
  dsimp only
  rw [String.toList_ofList, List.length_map, bom]
  have joined : (if (splitText raw).crlf then lfToCrlf (writtenLines .lf final edited).flatten
      else (writtenLines .lf final edited).flatten) = (writtenLines (prevailing raw) final edited).flatten := by
    unfold prevailing
    cases (splitText raw).crlf
    · rfl
    · exact writtenLines_crlf clean
  have nested : (if 0 < edited.length ∧ final = true then
      (String.intercalate "\n" (edited.map EditedLine.text)).toList ++ ['\n']
      else (String.intercalate "\n" (edited.map EditedLine.text)).toList) = (writtenLines .lf final edited).flatten := by
    rw [← body]
    split <;> simp
  rw [nested, joined]
  unfold bomBytes
  cases hasBom raw <;> rfl

end Joining

/-! ### The file's own lines -/

section Kept
variable {raw : String} {lines : List RawLine} {chunks : List PatchChunk} {placed : List Placement}

theorem mem_rebuild {α : Type} {xs : List α} {k : Nat} {cuts : List (Cut α)} {x : α} (member : x ∈ rebuild xs k cuts) :
    x ∈ xs ∨ ∃ c ∈ cuts, x ∈ c.lines := by
  induction cuts generalizing k with
  | nil => exact Or.inl (List.mem_of_mem_drop member)
  | cons c rest ih =>
    rcases List.mem_append.mp member with member | member
    · rcases List.mem_append.mp member with own | new
      · exact Or.inl (List.mem_of_mem_drop (List.mem_of_mem_take own))
      · exact Or.inr ⟨c, List.mem_cons_self, new⟩
    · exact (ih member).imp id fun ⟨d, within, inside⟩ => ⟨d, List.mem_cons_of_mem _ within, inside⟩

theorem mem_merged {α : Type} {written : String → α} {body : List (Mark × String)} {own : List α} {x : α}
    (member : x ∈ merged written body own) : x ∈ own ∨ ∃ text, x = written text := by
  induction body, own using merged.induct with
  | case1 own => cases member
  | case2 text rest own ih =>
    rcases List.mem_cons.mp member with rfl | member
    · exact Or.inr ⟨text, rfl⟩
    · exact ih member
  | case3 text rest line own ih =>
    rcases List.mem_cons.mp member with rfl | member
    · exact Or.inl List.mem_cons_self
    · exact (ih member).imp (List.mem_cons_of_mem _) id
  | case4 text rest line own ih => exact (ih member).imp (List.mem_cons_of_mem _) id
  | case5 mark text rest other ih =>
    cases mark with
    | added => exact (other rfl).elim
    | context => exact ih member
    | removed => exact ih member

theorem own_of_edited {line : RawLine} (member : .inl line ∈ editedLines lines chunks placed) : line ∈ lines := by
  have own : ∀ x, x ∈ lines.map (.inl : RawLine → EditedLine) → x = .inl line → line ∈ lines := by
    rintro x inside rfl
    obtain ⟨other, within, same⟩ := List.mem_map.mp inside
    cases same
    exact within
  rcases List.mem_append.mp member with member | added
  · rcases mem_rebuild member with inside | ⟨c, within, inside⟩
    · exact own _ inside rfl
    · unfold cuts at within
      obtain ⟨chunk, p, rfl⟩ : ∃ chunk p, c = PatchChunk.cut .inr (lines.map .inl) chunk p := by
        obtain ⟨i, bound, rfl⟩ := List.getElem_of_mem within
        exact ⟨_, _, List.getElem_zipWith⟩
      rcases mem_merged inside with inside | ⟨text, same⟩
      · exact own _ (List.mem_of_mem_drop (List.mem_of_mem_take inside)) rfl
      · cases same
  · obtain ⟨text, -, same⟩ := List.mem_map.mp added
    cases same

theorem cuts_map {α β : Type} {written : String → α} {f : α → β} {own : List α} :
    (cuts written own chunks placed).map (fun c => ⟨c.start, c.length, c.lines.map f⟩) = cuts (f ∘ written) (own.map f) chunks placed := by
  unfold cuts
  rw [List.map_zipWith]
  congr 1
  funext chunk p
  simp only [PatchChunk.cut, Placement.covered]
  rw [merged_map, List.map_take, List.map_drop]

theorem editedLines_text : (editedLines lines chunks placed).map EditedLine.text =
    rebuild (lines.map fun line => String.ofList line.text) 0
      (cuts id (lines.map fun line => String.ofList line.text) chunks placed) ++ appended chunks := by
  unfold editedLines
  rw [List.map_append, rebuild_map, cuts_map, List.map_map, List.map_map]
  congr 1
  exact List.map_id _

theorem unmixed_prevails {line : RawLine} (unmixed : ¬ Mixed (rawLines (content raw))) (member : line ∈ rawLines (content raw))
    (ends : line.ending ≠ .none) : line.ending = prevailing raw := by
  unfold prevailing
  split
  · rename_i flag
    obtain ⟨other, within, crlf⟩ := List.countP_pos_iff.mp (splitText_crlf.mp flag).1
    cases ending : line.ending with
    | none => exact (ends ending).elim
    | crlf => rfl
    | lf => exact (unmixed ⟨⟨line, member, ending⟩, other, within, beq_iff_eq.mp crlf⟩).elim
  · rename_i flag
    cases ending : line.ending with
    | none => exact (ends ending).elim
    | lf => rfl
    | crlf =>
      have some : 0 < (rawLines (content raw)).countP (·.ending == .crlf) :=
        List.countP_pos_iff.mpr ⟨line, member, beq_iff_eq.mpr ending⟩
      have more : ¬ (rawLines (content raw)).countP (·.ending == .lf) ≤ (rawLines (content raw)).countP (·.ending == .crlf) :=
        fun few => flag (splitText_crlf.mpr ⟨some, few⟩)
      obtain ⟨other, within, lf⟩ := List.countP_pos_iff.mp (show 0 < (rawLines (content raw)).countP (·.ending == .lf) by omega)
      exact (unmixed ⟨⟨other, within, beq_iff_eq.mp lf⟩, line, member, ending⟩).elim

theorem closes_iff : closes raw = true ↔ Closed (rawLines (content raw)) := by
  unfold closes
  rw [Bool.or_eq_true, splitText_trailing, decide_eq_true_iff, splitText_lines, List.length_map, List.length_eq_zero_iff]
  constructor
  · rintro (⟨-, closed⟩ | none)
    · exact closed
    · rw [none]
      exact nofun
  · intro closed
    by_cases none : rawLines (content raw) = []
    · exact Or.inr none
    · exact Or.inl ⟨none, closed⟩

/-- A line that keeps its place at the end, or away from it, keeps its bytes in a file with one kind of line ending. -/
theorem kept_bytes {edited : List EditedLine} {i : Nat} {line : RawLine} (member : line ∈ rawLines (content raw))
    (inside : i < edited.length) (unmixed : ¬ Mixed (rawLines (content raw)))
    (ends : closes raw = true ∨ (i + 1 = edited.length ↔ line.ending = .none)) :
    (line.text ++ if i + 1 < edited.length ∨ closes raw = true then (prevailing raw).bytes else []) = line.bytes := by
  unfold RawLine.bytes
  congr 1
  rcases ends with closed | ends
  · have some := closes_iff.mp closed line member
    rw [if_pos (Or.inr closed), unmixed_prevails unmixed member some]
  · by_cases last : i + 1 = edited.length
    · by_cases closed : closes raw = true
      · exact (closes_iff.mp closed line member (ends.mp last)).elim
      · rw [if_neg (by rintro (before | again); omega; exact closed again), ends.mp last]
        rfl
    · have some : line.ending ≠ .none := fun none => last (ends.mpr none)
      rw [if_pos (Or.inl (by omega)), unmixed_prevails unmixed member some]

theorem own_written {ending : Ending} {final : Bool} (ended : Ended lines) (closed : final = true ↔ lines ≠ [] ∧ Closed lines) :
    (writtenLines ending final (lines.map .inl)).flatten =
      lines.flatMap fun line => line.text ++ if line.ending = .none then [] else ending.bytes := by
  induction lines with
  | nil => rfl
  | cons line more ih =>
    cases more with
    | nil =>
      have same : final = true ↔ line.ending ≠ .none := by simpa [Closed] using closed
      by_cases none : line.ending = .none
      · have : final = false := by simpa [none] using same
        simp [writtenLines, EditedLine.written, none, this]
      · have : final = true := same.mpr none
        simp [writtenLines, EditedLine.written, none, this]
    | cons next rest =>
      have some := ended.1
      have later := ih ended.2 (by simpa [Closed, some] using closed)
      show line.text ++ ending.bytes ++ (writtenLines ending final ((next :: rest).map .inl)).flatten =
        (line.text ++ if line.ending = .none then [] else ending.bytes) ++ (next :: rest).flatMap _
      rw [later, if_neg some]

theorem raw_bytes : raw.toList = bomBytes raw ++ content raw := by
  unfold bomBytes content hasBom
  cases chars : raw.toList with
  | nil => rfl
  | cons c rest =>
    by_cases bom : c = BOM
    · simp [bom]
    · simp [bom]

theorem mixed_differs (mixed : Mixed lines) {ending : Ending} (ends : ending ≠ .none) :
    (lines.flatMap fun line => line.text ++ if line.ending = .none then [] else ending.bytes) ≠ lines.flatMap RawLine.bytes := by
  intro same
  have long := congrArg List.length same
  rw [List.length_flatMap, List.length_flatMap] at long
  obtain ⟨⟨lf, lf_member, is_lf⟩, crlf, crlf_member, is_crlf⟩ := mixed
  cases ending with
  | none => exact ends rfl
  | lf =>
    refine absurd long (Nat.ne_of_lt (List.sum_lt_sum _ _ (fun line _ => ?_) ⟨crlf, crlf_member, ?_⟩))
    · unfold RawLine.bytes
      cases line.ending <;> simp [Ending.bytes]
    · unfold RawLine.bytes
      rw [is_crlf]
      simp [Ending.bytes]
  | crlf =>
    refine absurd long (Nat.ne_of_gt (List.sum_lt_sum _ _ (fun line _ => ?_) ⟨lf, lf_member, ?_⟩))
    · unfold RawLine.bytes
      cases line.ending <;> simp [Ending.bytes]
    · unfold RawLine.bytes
      rw [is_lf]
      simp [Ending.bytes]

/-- Splitting and joining give the text back exactly when its line endings are of one kind. -/
theorem joinText_splitText : joinText (splitText raw) = raw ↔ ¬ Mixed (rawLines (content raw)) := by
  have texts : ((rawLines (content raw)).map (.inl : RawLine → EditedLine)).map EditedLine.text = (splitText raw).lines := by
    rw [splitText_lines, List.map_map]
    rfl
  have clean : ∀ line, .inl line ∈ (rawLines (content raw)).map (.inl : RawLine → EditedLine) → '\n' ∉ line.text := by
    intro line member
    obtain ⟨other, within, same⟩ := List.mem_map.mp member
    cases same
    exact rawLines_clean line within
  have joined : (joinText (splitText raw)).toList = bomBytes raw ++
      (rawLines (content raw)).flatMap fun line => line.text ++ if line.ending = .none then [] else (prevailing raw).bytes := by
    rw [← own_written rawLines_ended splitText_trailing, ← joinText_written clean, texts]
  rw [← String.toList_inj, joined, @raw_bytes raw, List.append_cancel_left_eq]
  constructor
  · intro same mixed
    refine mixed_differs mixed (?_ : prevailing raw ≠ .none) (same.trans rawLines_bytes.symm)
    unfold prevailing
    split <;> decide
  · intro unmixed
    refine Eq.trans ?_ rawLines_bytes
    refine List.flatMap_congr fun line member => ?_
    unfold RawLine.bytes
    by_cases none : line.ending = .none
    · rw [if_pos none, none]
      rfl
    · rw [if_neg none, unmixed_prevails unmixed member none]

theorem untouched_lines_kept {describeMiss : List String → List String → Nat → List OtherFile → String} {others : List OtherFile}
    (clean : (applyChunks describeMiss (splitText raw).lines chunks others).failures = []) :
    (∃ placed, List.Forall₂ (Placed (splitText raw).lines) (chunks.filter PatchChunk.replaces) placed ∧
      placed.Pairwise (fun p q => p.start + p.length ≤ q.start) ∧
      (patchedText (splitText raw) (applyChunks describeMiss (splitText raw).lines chunks others).lines).toList =
        bomBytes raw ++
          (writtenLines (prevailing raw) (closes raw) (editedLines (rawLines (content raw)) chunks placed)).flatten ∧
      ∀ i line, (editedLines (rawLines (content raw)) chunks placed)[i]? = some (.inl line) →
        (writtenLines (prevailing raw) (closes raw) (editedLines (rawLines (content raw)) chunks placed))[i]? =
          some (line.text ++ if i + 1 < (editedLines (rawLines (content raw)) chunks placed).length ∨ closes raw = true
            then (prevailing raw).bytes else []) ∧
        (¬ Mixed (rawLines (content raw)) →
          closes raw = true ∨ (i + 1 = (editedLines (rawLines (content raw)) chunks placed).length ↔ line.ending = .none) →
          (writtenLines (prevailing raw) (closes raw) (editedLines (rawLines (content raw)) chunks placed))[i]? =
            some line.bytes)) ∧
    (joinText (splitText raw) = raw ↔ ¬ Mixed (rawLines (content raw))) := by
  obtain ⟨placed, landed, ascending, edited⟩ := applyChunks_placed clean
  refine ⟨⟨placed, landed, placed_apart landed ascending, ?_, fun i line own => ?_⟩, joinText_splitText⟩
  · have texts : (applyChunks describeMiss (splitText raw).lines chunks others).lines =
        (editedLines (rawLines (content raw)) chunks placed).map EditedLine.text := by
      rw [edited, editedLines_text, splitText_lines]
    have whole : ∀ line, .inl line ∈ editedLines (rawLines (content raw)) chunks placed → '\n' ∉ line.text :=
      fun line member => rawLines_clean line (own_of_edited member)
    rw [texts, ← joinText_written whole]
    rfl
  · have there : (writtenLines (prevailing raw) (closes raw) (editedLines (rawLines (content raw)) chunks placed))[i]? =
        some (line.text ++ if i + 1 < (editedLines (rawLines (content raw)) chunks placed).length ∨ closes raw = true
          then (prevailing raw).bytes else []) := by
      rw [writtenLines_at, own]
      rfl
    obtain ⟨inside, -⟩ := List.getElem?_eq_some_iff.mp own
    refine ⟨there, fun unmixed ends => ?_⟩
    rw [there, kept_bytes (own_of_edited (List.mem_of_getElem? own)) inside unmixed ends]

def Sample.secondLine : List PatchChunk := [
  { anchors := [], oldLines := ["one", "two"], newLines := ["one", "2"], body := [(.context, "one"), (.removed, "two"), (.added, "2")],
    addedLines := ["2"], endOfFile := false }]

theorem crlf_file_kept : joinText (splitText "\uFEFFone\r\ntwo\r\nthree") = "\uFEFFone\r\ntwo\r\nthree" := by
  have clean : (applyChunks (fun _ _ _ _ => "") (splitText "\uFEFFone\r\ntwo\r\nthree").lines Sample.secondLine).failures = [] := by
    decide
  refine (untouched_lines_kept clean).2.mpr ?_
  unfold Mixed
  decide

/-- A file of which one line ends in `\n` and one in `\r\n` is not written back as it was, and a file without final
newline gives the newline of a line up when the line behind it goes. -/
theorem endings_not_kept : joinText (splitText "a\nb\r\n") = "a\r\nb\r\n" ∧
    patchedText (splitText "a\nb") (applyChunks (fun _ _ _ _ => "") (splitText "a\nb").lines [
      { anchors := [], oldLines := ["b"], newLines := [], body := [(.removed, "b")], addedLines := [], endOfFile := false }]).lines =
      "a" := by
  refine ⟨by decide, ?_⟩
  have lines : (splitText "a\nb").lines = ["a", "b"] := by decide
  have found : seekSequence ["a", "b"] ["b"] 0 = some (1, .exact) := by decide
  have edited : (applyChunks (fun _ _ _ _ => "") ["a", "b"] [
      { anchors := [], oldLines := ["b"], newLines := [], body := [(.removed, "b")], addedLines := [], endOfFile := false }]).lines =
      ["a"] := by
    simp [applyChunks, locateChunk, seekAnchors, seekChunk, found, replacementLines, splice, Locating.note]
  rw [lines, edited]
  decide

end Kept
end Bike4Mind.ApplyPatch
