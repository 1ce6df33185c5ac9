import Bike4Mind.Texts.Decimals
import Bike4Mind.Texts.PosixPaths
import Mathlib.Algebra.Order.Floor.Ring
import Mathlib.Data.Rat.Floor

/-! What `file_read` shows of a file, as the text that the model is sent. -/

namespace Bike4Mind.ContextPruning
open Texts

def NEWLINE : CodeUnit := 0x0a
def TAB : CodeUnit := 0x09
def SPACE : CodeUnit := 0x20

def MAX_READ_LINES : Nat := 2000
def MAX_READ_LINE_CHARS : Nat := 2000
def MAX_FILE_READ_OUTPUT_CHARS : Nat := 100000
def OUTPUT_BUDGET : Nat := MAX_FILE_READ_OUTPUT_CHARS - 500

/-- The finite numbers that `optionalNumber` finds in the arguments of the call. -/
structure ReadInput where
  offset : Option ℚ
  limit : Option ℚ
  finite : ∀ x ∈ offset, x < 2 ^ 1024

/-- A short text: a format, a size, the reason why an image is not shown. -/
abbrev Label := { text : Text // text.length < 2 ^ 12 }

/-- What the bytes of a file turn out to be. Its text is one string of the runtime, which bounds its length. -/
inductive FileContent where
  | image (format : Label) (shown : Except Label Label)
  | binary
  | text (content : Text) (fits : content.length < 2 ^ 32)

/-- A slash, a backslash or the letter of a drive. -/
def startsAbsolute (c : CodeUnit) : Bool := c = SLASH || c = 0x5c || (0x61 ≤ lowerCase c && lowerCase c ≤ 0x7a)

/-- A file as the call finds it, at an absolute path of a length that the system allows. -/
structure FoundFile where
  target : Text
  absolute : target.head?.any startsAbsolute = true
  short : target.length < 2 ^ 15
  size : Label
  content : FileContent

/-- `text.split('\n')`, without the piece behind a newline at the end -/
def linesOf (content : Text) : List Text :=
  let lines := content.splitOn NEWLINE
  if lines.getLast? = some [] then lines.dropLast else lines

def joinLines (rows : List Text) : Text := [NEWLINE].intercalate rows

def cutLine (line : Text) : Text :=
  if MAX_READ_LINE_CHARS < line.length then
    line.take MAX_READ_LINE_CHARS ++ ascii "... [line cut at " ++ decimal MAX_READ_LINE_CHARS ++ ascii " characters]"
  else line

def rowOf (width number : Nat) (line : Text) : Text := padStart (decimal number) width ++ [TAB] ++ cutLine line

/-- The rows that the budget has room for. -/
def takeRows (width : Nat) : (number size : Nat) → List Text → List Text
  | _, _, [] => []
  | number, size, line :: rest =>
    let row := rowOf width number line
    if OUTPUT_BUDGET < size + row.length + 1 then [] else row :: takeRows width (number + 1) (size + row.length + 1) rest

/-- The lines from `first` to `last` of a file. -/
structure Window where
  lines : List Text
  first : Nat
  last : Nat

namespace Window

def total (w : Window) : Nat := w.lines.length

def rows (w : Window) : List Text :=
  takeRows (decimal w.last).length w.first 0 ((w.lines.drop (w.first - 1)).take (w.last + 1 - w.first))

def shownTo (w : Window) : Nat := w.first - 1 + w.rows.length

def isPart (w : Window) : Bool := 1 < w.first || w.shownTo < w.total

/-- The end of the trailer that names where to go on. -/
def continuation (w : Window) : Text :=
  if w.shownTo < w.total then
    ascii " Continue with offset " ++ decimal (w.shownTo + 1) ++ ascii "." ++
      (if w.shownTo < w.last then ascii " The rest did not fit in one result." else [])
  else []

/-- `contextPruning.ts` parses this trailer to learn which lines a read covered. -/
def trailer (w : Window) : Text :=
  ascii "[Lines " ++ decimal w.first ++ ascii "-" ++ decimal w.shownTo ++ ascii " of " ++ decimal w.total ++ ascii "." ++
    w.continuation ++ ascii "]"

def text (w : Window) : Text := joinLines (if w.isPart then w.rows ++ [[], w.trailer] else w.rows)

end Window

namespace ReadInput

def first (input : ReadInput) : Nat := (max 1 ⌊input.offset.getD 1⌋).toNat

def wanted (input : ReadInput) : Nat := (min (MAX_READ_LINES : Int) (max 1 ⌊input.limit.getD MAX_READ_LINES⌋)).toNat

def window (input : ReadInput) (lines : List Text) : Window :=
  { lines, first := input.first, last := min lines.length (input.first + input.wanted - 1) }

end ReadInput

namespace FoundFile

/-- The lines that a read shows, of a file that is shown as text and has them. -/
def window? (file : FoundFile) (input : ReadInput) : Option Window :=
  match file.content with
  | .text content _ => if input.first ≤ (linesOf content).length then some (input.window (linesOf content)) else none
  | _ => none

def aboutImage (file : FoundFile) (format : Label) : Text :=
  file.target ++ ascii " is a " ++ format.val ++ ascii " image (" ++ file.size.val ++ ascii ")"

def read (file : FoundFile) (input : ReadInput) : Text :=
  match file.content with
  | .image format (.error reason) => file.aboutImage format ++ ascii ". It was not shown: " ++ reason.val ++ ascii "."
  | .image format (.ok pixels) =>
    file.aboutImage format ++ (if pixels.val = [] then [] else ascii ", " ++ pixels.val) ++
      ascii ". You see it below this result in this reply only; read it again to look at it later."
  | .binary => file.target ++ ascii " is a binary file (" ++ file.size.val ++ ascii "), so it is not shown as text."
  | .text content _ =>
    let lines := linesOf content
    let total := lines.length
    if total = 0 then file.target ++ ascii " is empty."
    else if total < input.first then
      file.target ++ ascii " has " ++ decimal total ++ ascii " line" ++ (if total = 1 then [] else ascii "s") ++
        ascii "; offset " ++ decimal input.first ++ ascii " is past the end."
    else (input.window lines).text

end FoundFile

/-- What the call keeps of a result. -/
def capOutput (text : Text) (limit : Nat) : Text :=
  if text.length ≤ limit then text
  else text.take limit ++ [NEWLINE, NEWLINE] ++ ascii "[truncated: " ++ decimal (text.length - limit) ++ ascii " more characters]"

end Bike4Mind.ContextPruning
