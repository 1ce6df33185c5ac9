import Bike4Mind.ApplyPatch.Parsing
import Bike4Mind.ContextPruning.FileRead

/-! Which old tool results are replaced by a placeholder on the wire. -/

namespace Bike4Mind.ContextPruning
open Texts

inductive ToolName where
  | fileRead
  | fileWrite
  | fileEdit
  | applyPatch
  | other
  deriving DecidableEq

/-- `ChatToolCall`. `patchText` is what `findPatchText` finds in the arguments, and `inputChars` the length of their JSON. -/
structure ToolCall where
  id : String
  name : ToolName
  path : Option Text
  patchText : Option String
  inputChars : Nat
  done : Bool
  error : Text
  preview : Text
  cleared : Bool

abbrev ToolRounds := List (List ToolCall)

structure PruningPolicy where
  minChars : Nat
  minShare : ℚ
  exemptRounds : Nat

def DEFAULT_PRUNING_POLICY : PruningPolicy := { minChars := 40000, minShare := 1 / 3, exemptRounds := 2 }

/-! ### Paths -/

/-- What `.` does not match. -/
def isLineTerminator (c : CodeUnit) : Bool := c = 0x0a || c = 0x0d || c = 0x2028 || c = 0x2029

/-- `path.replace(/(.)\/+$/, '$1')` -/
def dropTrailingSlashes (path : Text) : Text :=
  let slashes := path.drop (trimSlashes path).length
  match (trimSlashes path).getLast? with
  | some c => if isLineTerminator c then trimSlashes path ++ slashes.take 1 else trimSlashes path
  | none => slashes.take 1

def cleanPath (path : Text) : Text := dropTrailingSlashes (normalize path)

/-- The code units of a string that holds whole characters. -/
def units (text : String) : Text := (ApplyPatch.utf16 text.toList).map UInt16.ofNat

/-- `opening\s*(.+?)\s*` -/
def headerPattern (opening : Regex CodeUnit) : Regex CodeUnit :=
  let any : Regex CodeUnit := .unit (! isLineTerminator ·)
  let spaces : Regex CodeUnit := .star true (.unit isSpace)
  .seq opening (.seq spaces (.seq (.group (.seq any (.star false any))) spaces))

/-- The run of a pattern that ends in `$`. -/
def toEnd (run : Run CodeUnit) : Option (Run CodeUnit) := if run.rest = [] then some run else none

def headerPath (opening : Regex CodeUnit) (line : Text) : Option Text :=
  ((headerPattern opening).find toEnd line).bind (·.captures.head?)

def addOrDelete : Text → Option Text :=
  headerPath (.seq (.literal (ascii "*** ")) (.seq (.alt (.literal (ascii "Add")) (.literal (ascii "Delete"))) (.literal (ascii " File:"))))

def updateFile : Text → Option Text := headerPath (.literal (ascii "*** Update File:"))

def moveTo : Text → Option Text := headerPath (.literal (ascii "*** Move to:"))

def rewritesFrom : (moving : Option Text) → List Text → List Text
  | _, [] => []
  | moving, line :: rest =>
    let added := ((addOrDelete line).map cleanPath).toList
    match updateFile line with
    | some path => added ++ rewritesFrom (some path) rest
    | none =>
      match moveTo line, moving with
      | some target, some source => added ++ [cleanPath source, cleanPath target] ++ rewritesFrom none rest
      | _, _ => added ++ rewritesFrom moving rest

/-- `\r?\n` -/
def LINE_BREAK : Regex CodeUnit := .seq (.optional (.only 0x0d)) (.only NEWLINE)

/-! ### The lines of a read, from its own text -/

inductive LineRange where
  | whole
  | lines (first last : Nat)
  deriving DecidableEq

namespace LineRange

def first : LineRange → Nat
  | whole => 1
  | lines first _ => first

def last : LineRange → WithTop Nat
  | whole => ⊤
  | lines _ last => last

def covers (covers range : LineRange) : Bool := decide (covers.first ≤ range.first) && decide (range.last ≤ covers.last)

end LineRange

def DIGITS : Regex CodeUnit := .plus (.unit isDigit)

/-- `\[Lines (\d+)-(\d+) of \d+\.(?: Continue with offset \d+\.[^\]]*)?\]` -/
def TRAILER : Regex CodeUnit :=
  .seq (.literal (ascii "[Lines ")) <| .seq (.group DIGITS) <| .seq (.literal (ascii "-")) <| .seq (.group DIGITS) <|
    .seq (.literal (ascii " of ")) <| .seq DIGITS <| .seq (.literal (ascii ".")) <|
    .seq (.optional (.seq (.literal (ascii " Continue with offset ")) <| .seq DIGITS <| .seq (.literal (ascii ".")) <|
      .star true (.except 0x5d))) (.literal (ascii "]"))

/-- The match of the trailer that starts here and ends with the text. -/
def trailerAt (text : Text) : Option (Run CodeUnit) := TRAILER.find toEnd text

def execTrailer : Text → Option (Run CodeUnit)
  | [] => trailerAt []
  | c :: rest => (trailerAt (c :: rest)).or (execTrailer rest)

/-- `/^ *1\t/` -/
def startsAtOne (text : Text) : Bool := [0x31, TAB] <+: text.dropWhile (· = SPACE)

def rangeShown (text : Text) : Option LineRange :=
  match execTrailer text with
  | some run => some (.lines (number (run.captures.getD 0 [])) (number (run.captures.getD 1 [])))
  | none => if startsAtOne text then some .whole else none

namespace ToolCall

def succeeded (call : ToolCall) : Bool := call.done && call.error = []

def pathOf (call : ToolCall) : Option Text := (call.path.filter (· ≠ [])).map cleanPath

def patchRewrites (call : ToolCall) : List Text :=
  match call.patchText with
  | none => []
  | some text => rewritesFrom none (LINE_BREAK.split (units text))

def shownRange (call : ToolCall) : Option LineRange := rangeShown call.preview

def stalePlaceholder (call : ToolCall) : Text :=
  let path := call.path.getD (ascii "this file")
  let place :=
    match call.shownRange with
    | some (.lines first last) => path ++ ascii " lines " ++ decimal first ++ ascii "-" ++ decimal last
    | _ => path
  ascii "[stale: " ++ place ++ ascii " was read here; the file was rewritten or re-read later. Read it again if you need it.]"

def toolResultContent (call : ToolCall) : Text :=
  if call.error ≠ [] then call.error else if call.cleared then call.stalePlaceholder else call.preview

def resultChars (call : ToolCall) : Nat := call.toolResultContent.length

def wireChars (call : ToolCall) : Nat := call.resultChars + call.inputChars

/-- Whether `next` leaves nothing true of what `call` showed, or shows it again. -/
def supersedes (next : ToolCall) (path : Text) (range : Option LineRange) : Bool :=
  next.succeeded &&
    if next.name = .applyPatch then decide (path ∈ next.patchRewrites)
    else if next.pathOf ≠ some path then false
    else if next.name = .fileWrite then true
    else if next.name = .fileRead then
      match range, next.shownRange with
      | some range, some again => again.covers range
      | _, _ => false
    else false

def isStale (call : ToolCall) (later : ToolRounds) : Bool :=
  if call.name ≠ .fileRead ∨ call.succeeded = false then false
  else
    match call.pathOf with
    | none => false
    | some path => later.any fun round => round.any fun next => next.supersedes path call.shownRange

end ToolCall

/-! ### The scan -/

structure StaleCall where
  round : Nat
  index : Nat
  call : ToolCall

structure StaleScan where
  clearIds : List String
  pendingChars : Nat

/-- The stale results of the next `eligible` rounds, of which the first has the number `round`. -/
def staleFrom : (round eligible : Nat) → ToolRounds → List StaleCall
  | _, 0, _ => []
  | _, _ + 1, [] => []
  | round, eligible + 1, calls :: later =>
    (calls.zipIdx.filter fun entry => ! entry.1.cleared && entry.1.isStale later).map (fun entry => ⟨round, entry.2, entry.1⟩) ++
      staleFrom (round + 1) eligible later

/-- The characters on the wire from one call on. -/
def tailChars (rounds : ToolRounds) (earliest : StaleCall) : Nat :=
  (rounds.zipIdx.flatMap fun round => round.1.zipIdx.map fun entry =>
    if earliest.round < round.2 ∨ (round.2 = earliest.round ∧ earliest.index ≤ entry.2) then entry.1.wireChars else 0).sum

def findStaleResults (rounds : ToolRounds) (policy : PruningPolicy) : StaleScan :=
  let nonEmpty := rounds.filter (! ·.isEmpty)
  let eligible := nonEmpty.length - policy.exemptRounds
  let stale := staleFrom 0 eligible nonEmpty
  let pendingChars := (stale.map fun entry => entry.call.resultChars).sum
  match stale with
  | [] => ⟨[], pendingChars⟩
  | earliest :: _ =>
    if pendingChars < policy.minChars then ⟨[], pendingChars⟩
    else if (pendingChars : ℚ) < tailChars nonEmpty earliest * policy.minShare then ⟨[], pendingChars⟩
    else ⟨stale.map (·.call.id), pendingChars⟩

/-! ### The rounds of a stored reply -/

/-- A round as the ids name it, of the calls not placed before. -/
def placeRound (calls : List ToolCall) : (placed ids : List String) → List ToolCall × List String
  | placed, [] => ([], placed)
  | placed, id :: rest =>
    -- a map holds the last of the calls with one id
    match calls.reverse.find? (·.id = id) with
    | none => placeRound calls placed rest
    | some call =>
      if id ∈ placed then placeRound calls placed rest
      else (call :: (placeRound calls (placed ++ [id]) rest).1, (placeRound calls (placed ++ [id]) rest).2)

def placeRounds (calls : List ToolCall) : (placed : List String) → List (List String) → ToolRounds × List String
  | placed, [] => ([], placed)
  | placed, ids :: rest =>
    let here := placeRound calls placed ids
    let later := placeRounds calls here.2 rest
    (here.1 :: later.1, later.2)

/-- The rounds that made a reply's calls. A reply stored before rounds were recorded is one round. -/
def splitRounds (calls : List ToolCall) : Option (List (List String)) → ToolRounds
  | none => [calls]
  | some roundIds =>
    let placed := placeRounds calls [] roundIds
    let stray := calls.filter (·.id ∉ placed.2)
    (if stray.isEmpty then placed.1 else placed.1 ++ [stray]).filter (! ·.isEmpty)

/-- A reply as it is stored: its calls in the order they ran, and the ids of each round. -/
structure StoredReply where
  toolCalls : List ToolCall
  rounds : Option (List (List String))

def historyRounds (messages : List StoredReply) : ToolRounds :=
  messages.flatMap fun message => if message.toolCalls = [] then [] else splitRounds message.toolCalls message.rounds

end Bike4Mind.ContextPruning
