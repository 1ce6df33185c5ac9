import Bike4Mind.ApplyPatch.Files
import Bike4Mind.ApplyPatch.Patch
import Bike4Mind.Collections.OrderedMap
import Mathlib.Algebra.GroupWithZero.Nat

/-! Planning a patch in memory, collapsing the plan into one change per file, and writing it. -/

namespace Bike4Mind.ApplyPatch
open Concurrency Collections

def MAX_WRITE_BYTES : Nat := 1000000

def MAX_HINT_FILE_BYTES : Nat := 300000

structure TargetState where
  present : Bool
  content : String
  deriving DecidableEq

/-- What the tool reads from its surroundings: path names, the files the session has seen, the state each
file had when its diff was approved, and the words for a hunk that missed. -/
structure ToolContext where
  displayPath : Path → String
  dirname : Path → String
  recentFiles : List Path
  assertUnchanged : Path → TargetState → Except JsError Unit
  aborted : Bool
  describeMiss : (lines expected : List String) → (start : Nat) → List OtherFile → String

structure ResolvedOp where
  op : PatchOp
  target : Path
  moveTarget : Option Path

structure Entry extends TargetState where
  -- Where the content came from when a move carried it here.
  renamedFrom : Option Path

inductive ChangeStatus where
  | A
  | M
  | D
  | R
  deriving DecidableEq

structure FileChange where
  status : ChangeStatus
  display : String
  fromPath : Path
  toPath : Path
  after : String

structure PatchPlan where
  changes : List FileChange
  disk : OrderedMap Path TargetState
  notes : List String

/-! ### Reading -/

def readTarget (target : Path) (allowBinary : Bool) : Async TargetState := do
  let info ← tryCatch (do return some (← stat target)) fun _ => return none
  match info with
  | none => return { present := false, content := "" }
  | some info =>
    if info.isDirectory then throw (.error s!"{target.text} is a directory, not a file.")
    else if !info.isFile then throw (.error s!"{target.text} is not a regular file, so it cannot be rewritten.")
    else if MAX_WRITE_BYTES < info.size then
      throw (.error s!"{target.text} is {info.size} bytes, too large to diff and rewrite safely.")
    else do
      let content ← readFile target
      if !allowBinary ∧ '\x00' ∈ content.toList then
        throw (.error s!"{target.text} looks like a binary file. Refusing to rewrite it as text.")
      else return { present := true, content := content }

/-- A file that cannot be read just cannot be suggested. -/
def loadOtherFile (context : ToolContext) (path : Path) : Async (Option OtherFile) :=
  tryCatch (do
    let info ← stat path
    if !info.isFile ∨ MAX_HINT_FILE_BYTES < info.size then return none
    else do
      let text ← readFile path
      if '\x00' ∈ text.toList then return none
      else return some { display := context.displayPath path, lines := (splitText text).lines })
    fun _ => return none

def loadOtherFiles (target : Path) (context : ToolContext) : List Path → Async (List OtherFile)
  | [] => return []
  | path :: rest =>
    if path = target then loadOtherFiles target context rest
    else do
      let other ← loadOtherFile context path
      return other.toList ++ (← loadOtherFiles target context rest)

/-! ### Checks on what would be written -/

def isForbiddenControl (c : Char) : Bool := c.toNat < 0x20 && c ∉ ['\t', '\n', '\r', '\x0c']

def codeUnits (text : List Char) : Nat := (text.map fun c => if c.toNat < 0x10000 then 1 else 2).sum

def assertNoControlCharacters (text label : String) : Except String Unit :=
  match text.toList.dropWhile (!isForbiddenControl ·) with
  | [] => .ok ()
  | c :: _ =>
    let before := text.toList.takeWhile (!isForbiddenControl ·)
    let line := before.count '\n' + 1
    let column := codeUnits (before.reverse.takeWhile (· ≠ '\n')) + 1
    let code := String.ofList (List.leftpad 4 '0' ((Nat.toDigits 16 c.toNat).map Char.toUpper))
    .error (s!"{label} contains U+{code} at line {line}, column {column}, which looks like a garbled \\u escape. " ++
      "Write the character itself (e.g. the actual middle dot) instead of an escape. Nothing was written.")

def addedText (lines : List String) : String :=
  if 0 < lines.length then String.intercalate "\n" lines ++ "\n" else ""

def newFile (lines : List String) : Except String String := do
  assertNoControlCharacters (String.intercalate "\n" lines) "the added lines"
  if MAX_WRITE_BYTES < (addedText lines).utf8ByteSize then
    throw s!"the new file is larger than the {MAX_WRITE_BYTES} byte limit for a single write."
  else return addedText lines

def patchedText (split : SplitText) (lines : List String) : String :=
  joinText { split with lines := lines, trailingNewline := split.trailingNewline || split.lines.length = 0 }

def updatedFile (split : SplitText) (lines : List String) (chunks : List PatchChunk) : Except String String := do
  assertNoControlCharacters (String.intercalate "\n" (chunks.flatMap PatchChunk.addedLines)) "the added lines"
  let content := patchedText split lines
  if MAX_WRITE_BYTES < content.utf8ByteSize then
    throw s!"the result would be larger than the {MAX_WRITE_BYTES} byte limit for a single write."
  else return content

/-! ### Planning -/

/-- The variables of `planPatch`. -/
structure Planning where
  disk : OrderedMap Path TargetState := ∅
  view : OrderedMap Path Entry := ∅
  problems : List String := []
  notes : List String := []
  missed : Bool := false

namespace Planning

def refuse (s : Planning) (problem : String) : Planning := { s with problems := s.problems ++ [problem] }

def assign (s : Planning) (target : Path) (entry : Entry) : Planning := { s with view := s.view.set target entry }

/-- A file is read when the patch first names it. -/
def entryFor (s : Planning) (target : Path) : Async (Entry × Planning) :=
  match s.view.get? target with
  | some known => return (known, s)
  | none => do
    let state ← readTarget target true
    let entry : Entry := { state with renamedFrom := none }
    return (entry, { s with disk := s.disk.set target state, view := s.view.set target entry })

end Planning

def MATCH_NOTES : MatchLevel → String
  | .exact => ""
  | .trimEnd => "trailing whitespace"
  | .trim => "indentation"
  | .unicode => "indentation or typographic punctuation"

section Operations
variable (context : ToolContext) (target : Path)

def planAdd (path : String) (lines : List String) (entry : Entry) (s : Planning) : Planning :=
  if entry.present then
    s.refuse (s!"{context.displayPath target}: Add File, but the file already exists. " ++
      s!"Use \"*** Update File: {path}\" to change it, or delete it first in the same patch to replace it.")
  else
    match newFile lines with
    | .error message => s.refuse s!"{context.displayPath target}: {message}"
    | .ok content => s.assign target { entry with present := true, content := content }

def planDelete (entry : Entry) (s : Planning) : Planning :=
  if !entry.present then s.refuse s!"{context.displayPath target}: Delete File, but the file does not exist."
  else s.assign target { entry with present := false, content := "" }

/-- Applies the hunks, a second time with other files for the messages when some miss. -/
def locate (chunks : List PatchChunk) (lines : List String) : Async AppliedChunks := do
  let applied := applyChunks context.describeMiss lines chunks []
  if applied.failures.length = 0 then return applied
  else do
    let others ← loadOtherFiles target context context.recentFiles
    if others.length = 0 then return applied
    else return applyChunks context.describeMiss lines chunks others

def noteMatch (loosest : MatchLevel) (s : Planning) : Planning :=
  if loosest = .exact then s
  else { s with notes := s.notes ++ [
    s!"{context.displayPath target}: some hunks matched only after ignoring {MATCH_NOTES loosest}. " ++
      "Copy lines exactly as file_read shows them (without the line-number prefix)."] }

def planMove (moveTarget : Path) (entry : Entry) (content : String) (s : Planning) : Async Planning := do
  let (destination, s) ← s.entryFor moveTarget
  if destination.present then
    return s.refuse s!"{context.displayPath target}: Move to {context.displayPath moveTarget}, but that file already exists."
  else
    let moved : Entry := { present := true, content := content, renamedFrom := some (entry.renamedFrom.getD target) }
    return (s.assign moveTarget moved).assign target { entry with present := false, content := "" }

def planUpdate (path : String) (moveTarget : Option Path) (chunks : List PatchChunk) (entry : Entry) (s : Planning) :
    Async Planning := do
  let display := context.displayPath target
  if !entry.present then
    return s.refuse s!"{display}: Update File, but the file does not exist. Use \"*** Add File: {path}\" to create it."
  else if '\x00' ∈ entry.content.toList then
    return s.refuse s!"{display}: looks like a binary file. Refusing to patch it as text."
  else do
    let split := splitText entry.content
    let applied ← locate context target chunks split.lines
    if applied.failures.length ≠ 0 then
      return { s with missed := true, problems := s.problems ++ applied.failures.map fun f => s!"{display}, {f.message}" }
    else
      match updatedFile split applied.lines chunks with
      | .error message => return s.refuse s!"{display}: {message}"
      | .ok content =>
        let s := noteMatch context target applied.loosest s
        match moveTarget.filter (· ≠ target) with
        | some moveTarget => planMove context target moveTarget entry content s
        | none => return s.assign target { entry with content := content }

end Operations

def planOp (context : ToolContext) (r : ResolvedOp) (s : Planning) : Async Planning := do
  let (entry, s) ← s.entryFor r.target
  match r.op with
  | .add path lines => return planAdd context r.target path lines entry s
  | .delete _ => return planDelete context r.target entry s
  | .update path _ chunks => planUpdate context r.target path r.moveTarget chunks entry s

/-- Every operation is checked against the result of the ones before it, also after one was refused. -/
def planOps (context : ToolContext) : List ResolvedOp → Planning → Async Planning
  | [], s => return s
  | r :: rest, s => do planOps context rest (← planOp context r s)

/-! ### Collapsing the view into changes -/

def deriveChange (context : ToolContext) (renamedAway : List Path) (disk : OrderedMap Path TargetState) (target : Path)
    (entry : Entry) : Option FileChange :=
  let before := (disk.get? target).getD { present := false, content := "" }
  let make (status : ChangeStatus) (fromPath : Path) : FileChange :=
    { status := status, display := context.displayPath target, fromPath := fromPath, toPath := target, after := entry.content }
  match entry.renamedFrom with
  | some source => some (make .R source)
  | none =>
    if !entry.present then
      if before.present ∧ target ∉ renamedAway then some { make .D target with after := "" } else none
    else if !before.present then some (make .A target)
    else if before.content ≠ entry.content then some (make .M target)
    else none

def deriveChanges (context : ToolContext) (view : OrderedMap Path Entry) (disk : OrderedMap Path TargetState) : List FileChange :=
  let renamedAway := view.values.filterMap Entry.renamedFrom
  view.entries.filterMap fun e => deriveChange context renamedAway disk e.1 e.2

def Planning.plan (context : ToolContext) (s : Planning) : PatchPlan :=
  { changes := deriveChanges context s.view s.disk, disk := s.disk, notes := s.notes }

def Planning.refusal (s : Planning) : JsError :=
  let retry := if s.missed then
      "\n\nBefore retrying, read each range named above with file_read and rebuild those hunks from its " ++
        "output. Then send the whole patch again, every file in it, as nothing from this one was applied."
    else ""
  .error ("The patch was not applied. Nothing was written.\n\n" ++ String.intercalate "\n\n" s.problems ++ retry)

def planPatch (resolved : List ResolvedOp) (context : ToolContext) : Async PatchPlan := do
  let s ← planOps context resolved {}
  if s.problems.length ≠ 0 then throw s.refusal
  else return s.plan context

/-! ### Writing -/

/-- A file that cannot be put back is left as it is. -/
def restoreFile (plan : PatchPlan) (target : Path) : Async Unit :=
  match plan.disk.get? target with
  | none => return
  | some before =>
    tryCatch (if before.present then writeFile target before.content else unlink target) fun _ => return

/-- Puts the given files back, in the order given, as the plan found them. -/
def restore (plan : PatchPlan) : List Path → Async Unit
  | [] => return
  | target :: rest => do
    restoreFile plan target
    restore plan rest

/-- A block that lists the files it touches; the list outlives what it throws. -/
abbrev Touching := ExceptT JsError (StateT (List Path) Async)

def touch (path : Path) : Touching Unit := modify (· ++ [path])

/-- An awaited call, its rejection thrown inside the block. -/
def attempt {α : Type} (call : Async α) : Touching α :=
  ExceptT.mk fun touched => Program.tryCatch (do return (.ok (← call), touched)) fun e => return (.error e, touched)

def writeChange (context : ToolContext) (change : FileChange) : Touching Unit := do
  touch change.toPath
  if change.status = .D then attempt (unlink change.toPath)
  else do
    attempt (mkdir (context.dirname change.toPath))
    attempt (writeFile change.toPath change.after)
    if change.status = .R ∧ change.fromPath ≠ change.toPath then do
      touch change.fromPath
      attempt (unlink change.fromPath)
    else return

def writeAll (context : ToolContext) : List FileChange → Touching Unit
  | [] => return
  | change :: rest => do
    writeChange context change
    writeAll context rest

def writeChanges (plan : PatchPlan) (context : ToolContext) : Async Unit := do
  let (outcome, touched) ← (writeAll context plan.changes).run.run []
  match outcome with
  | .ok () => return
  | .error e => do
    restore plan touched.reverse
    throw (.error s!"Writing the patch failed part-way ({e.message}); every file was put back as it was.")

inductive PatchOutcome where
  | noChange
  | applied (plan : PatchPlan)

def assertAllUnchanged (context : ToolContext) : List (Path × TargetState) → Async Unit
  | [] => return
  | (target, state) :: rest => do
    Program.settle (context.assertUnchanged target state)
    assertAllUnchanged context rest

/-- The tool under its locks, from the resolved operations on. -/
def runPatch (resolved : List ResolvedOp) (context : ToolContext) : Async PatchOutcome := do
  let plan ← planPatch resolved context
  if plan.changes.length = 0 then return .noChange
  else do
    assertAllUnchanged context plan.disk.entries
    if context.aborted then throw (.error "The turn was stopped before this change was written.")
    else do
      writeChanges plan context
      return .applied plan

end Bike4Mind.ApplyPatch
