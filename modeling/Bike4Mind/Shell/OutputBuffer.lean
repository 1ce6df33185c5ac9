import Bike4Mind.Texts.CodeUnits

/-! The output of a background command, capped and read by cursor. -/

namespace Bike4Mind.Shell
open Texts

inductive OutputStream where
  | stdout
  | stderr
  deriving DecidableEq

def OutputStream.name : OutputStream → String
  | .stdout => "stdout"
  | .stderr => "stderr"

structure Entry where
  stream : OutputStream
  text : Text
  offset : Nat

structure OutputSlice where
  text : Text
  cursor : Nat
  missed : Nat

/-- `endAt` is the source's `end`. -/
structure OutputBuffer where
  capacity : Nat
  entries : List Entry := []
  start : Nat := 0
  endAt : Nat := 0
  retained : Nat := 0
  dropped : Nat := 0

namespace OutputBuffer

/-- The loop of `trim` over `entries`, the oldest first; what it cuts in two ends it. -/
def trimEntries (b : OutputBuffer) : List Entry → OutputBuffer
  | [] => { b with entries := [] }
  | oldest :: rest =>
    if b.retained ≤ b.capacity then { b with entries := oldest :: rest }
    else
      let excess := b.retained - b.capacity
      if oldest.text.length ≤ excess then
        trimEntries
          { b with
            retained := b.retained - oldest.text.length
            dropped := b.dropped + oldest.text.length
            start := oldest.offset + oldest.text.length } rest
      else
        { b with
          entries := { oldest with text := oldest.text.drop excess, offset := oldest.offset + excess } :: rest
          retained := b.retained - excess
          dropped := b.dropped + excess
          start := oldest.offset + excess }

def trim (b : OutputBuffer) : OutputBuffer := b.trimEntries b.entries

/-- `push` before `trim`. -/
def receive (b : OutputBuffer) (stream : OutputStream) (text : Text) : OutputBuffer :=
  { b with
    entries := b.entries ++ [⟨stream, text, b.endAt⟩]
    endAt := b.endAt + text.length
    retained := b.retained + text.length }

def push (b : OutputBuffer) (stream : OutputStream) (text : Text) : OutputBuffer :=
  if text = [] then b else (b.receive stream text).trim

def visible (b : OutputBuffer) (begin finish : Nat) : List Entry :=
  b.entries.filter fun entry => decide (begin < entry.offset + entry.text.length) && decide (entry.offset < finish)

def mixed (visible : List Entry) : Bool := visible.any (·.stream = .stdout) && visible.any (·.stream = .stderr)

def sliceOf (begin finish : Nat) (entry : Entry) : Text :=
  slice entry.text (begin - entry.offset) (min entry.text.length (finish - entry.offset))

/-- The marker of a stream after `out`. -/
def marker (out : Text) (stream : OutputStream) : Text :=
  (if out ≠ [] ∧ out.getLast? ≠ some 0x0a then ascii "\n" else []) ++ ascii "[" ++ ascii stream.name ++ ascii "]\n"

def renderFrom (mixed : Bool) (begin finish : Nat) (out : Text) (previous : Option OutputStream) : List Entry → Text
  | [] => out
  | entry :: rest =>
    let slice := sliceOf begin finish entry
    if slice = [] then renderFrom mixed begin finish out previous rest
    else if mixed = true ∧ some entry.stream ≠ previous then
      renderFrom mixed begin finish (out ++ marker out entry.stream ++ slice) (some entry.stream) rest
    else renderFrom mixed begin finish (out ++ slice) previous rest

def render (b : OutputBuffer) (begin finish : Nat) : Text :=
  let visible := b.visible begin finish
  if visible = [] then [] else renderFrom (mixed visible) begin finish [] none visible

def read (b : OutputBuffer) (since maxChars : Nat) : OutputSlice :=
  let missedByTrim := b.start - since
  let begin := max since b.start
  let full := b.render begin b.endAt
  if full.length ≤ maxChars then { text := full, cursor := b.endAt, missed := missedByTrim }
  else
    { text := full.drop (full.length - maxChars)
      cursor := b.endAt
      missed := missedByTrim + (full.length - maxChars) }

def tail (b : OutputBuffer) (maxChars : Nat) : Text := (b.read b.start maxChars).text

end OutputBuffer
end Bike4Mind.Shell
