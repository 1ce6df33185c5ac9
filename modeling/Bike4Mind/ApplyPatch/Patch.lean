import Mathlib.Data.List.Sort

/-! The text half of `apply_patch`: splitting a file into lines, locating hunks in it and joining it again. -/

namespace Bike4Mind.ApplyPatch

def BOM : Char := '\uFEFF'

/-- What `trim` takes off: white space and line terminators. -/
def isSpace (c : Char) : Bool :=
  c ∈ ['\t', '\n', '\u000B', '\u000C', '\r', ' ', '\u00A0', '\u1680', '\u2028', '\u2029', '\u202F', '\u205F', '\u3000', BOM] ||
    (0x2000 ≤ c.toNat && c.toNat ≤ 0x200A)

def trimStart (text : String) : String := String.ofList (text.toList.dropWhile isSpace)

def trimEnd (text : String) : String := String.ofList (text.toList.reverse.dropWhile isSpace).reverse

def trim (text : String) : String := trimEnd (trimStart text)

/-! ### Lines -/

structure SplitText where
  lines : List String
  crlf : Bool
  bom : Bool
  trailingNewline : Bool

/-- `replace(/\r\n/g, '\n')` -/
def crlfToLf : List Char → List Char
  | '\r' :: '\n' :: rest => '\n' :: crlfToLf rest
  | c :: rest => c :: crlfToLf rest
  | [] => []

/-- `replace(/\n/g, '\r\n')` -/
def lfToCrlf (text : List Char) : List Char := text.flatMap fun c => if c = '\n' then ['\r', '\n'] else [c]

def crlfCount : List Char → Nat
  | '\r' :: '\n' :: rest => crlfCount rest + 1
  | _ :: rest => crlfCount rest
  | [] => 0

/-- `split('\n')`, and the last line taken off when it is empty. -/
def splitLines (text : List Char) : List String :=
  let lines := (text.splitOn '\n').map String.ofList
  if lines.getLast? = some "" then lines.dropLast else lines

def splitText (raw : String) : SplitText :=
  let bom := raw.toList.head? = some BOM
  let text := if bom then raw.toList.tail else raw.toList
  let lf := crlfToLf text
  { lines := splitLines lf
    crlf := 0 < crlfCount text ∧ (text.count '\n' : Int) - crlfCount text ≤ crlfCount text
    bom := bom
    trailingNewline := lf.getLast? = some '\n' }

def joinText (parts : SplitText) : String :=
  let body := (String.intercalate "\n" parts.lines).toList
  let body := if 0 < parts.lines.length ∧ parts.trailingNewline then body ++ ['\n'] else body
  let body := if parts.crlf then lfToCrlf body else body
  String.ofList (if parts.bom then BOM :: body else body)

/-! ### Hunks -/

inductive Mark where
  | context
  | removed
  | added
  deriving DecidableEq

structure PatchChunk where
  anchors : List String
  oldLines : List String
  newLines : List String
  body : List (Mark × String)
  addedLines : List String
  endOfFile : Bool

inductive PatchOp where
  | add (path : String) (lines : List String)
  | delete (path : String)
  | update (path : String) (moveTo : Option String) (chunks : List PatchChunk)

/-- How much of a line a comparison ignores, strictest first. -/
inductive MatchLevel where
  | exact
  | trimEnd
  | trim
  | unicode
  deriving DecidableEq

namespace MatchLevel

def LEVELS : List MatchLevel := [.exact, .trimEnd, .trim, .unicode]

def rank : MatchLevel → Nat
  | .exact => 0
  | .trimEnd => 1
  | .trim => 2
  | .unicode => 3

def loosest (a b : MatchLevel) : MatchLevel := if a.rank ≤ b.rank then b else a

end MatchLevel

def normalizeChar (c : Char) : List Char :=
  if c ∈ ['\u2018', '\u2019', '\u201A', '\u201B'] then ['\'']
  else if c ∈ ['\u201C', '\u201D', '\u201E', '\u201F'] then ['"']
  else if (0x2010 ≤ c.toNat && c.toNat ≤ 0x2015) || c = '\u2212' then ['-']
  else if c = '\u2026' then ['.', '.', '.']
  else if c ∈ ['\u00A0', '\u202F', '\u205F', '\u3000'] || (0x2002 ≤ c.toNat && c.toNat ≤ 0x200A) then [' ']
  else [c]

def normalizeUnicode (text : String) : String := String.ofList (text.toList.flatMap normalizeChar)

/-- A line as the loosest comparison sees it. -/
def foldLine (line : String) : String := normalizeUnicode (trim line)

/-- A line as the comparison of this level sees it. -/
def MatchLevel.view : MatchLevel → String → String
  | .exact => id
  | .trimEnd => ApplyPatch.trimEnd
  | .trim => ApplyPatch.trim
  | .unicode => foldLine

def matchesAt (lines pattern : List String) (start : Nat) (level : MatchLevel) : Bool :=
  pattern.map level.view = ((lines.drop start).take pattern.length).map level.view

/-- Where `pattern` occurs at or after `start`, strictest comparison first. An end-of-file hunk is tried
against the last lines before anything else. -/
def seekSequence (lines pattern : List String) (start : Nat) (endOfFile : Bool := false) : Option (Nat × MatchLevel) :=
  if pattern.length = 0 then none
  else MatchLevel.LEVELS.findSome? fun level =>
    let last := lines.length - pattern.length
    if endOfFile ∧ start + pattern.length ≤ lines.length ∧ matchesAt lines pattern last level then some (last, level)
    else ((List.range' start (lines.length + 1 - pattern.length - start)).find? (matchesAt lines pattern · level)).map (·, level)

structure OtherFile where
  display : String
  lines : List String

structure ChunkFailure where
  hunk : Nat
  message : String

structure AppliedChunks where
  lines : List String
  failures : List ChunkFailure
  loosest : MatchLevel

/-- What goes where the hunk matched. Context lines keep the file's own text. -/
def replacementLines (chunk : PatchChunk) (fileLines : List String) (start matched : Nat) : List String :=
  (chunk.body.foldl (fun (out, seen) (mark, text) => match mark with
    | .added => (out ++ [text], seen)
    | .context => (if seen < matched then out ++ (fileLines[start + seen]?).toList else out, seen + 1)
    | .removed => (out, seen + 1)) ([], 0)).1

structure Replacement where
  start : Nat
  length : Nat
  lines : List String

structure Locating where
  replacements : List Replacement := []
  failures : List ChunkFailure := []
  loosest : MatchLevel := .exact
  cursor : Nat := 0

def Locating.fail (s : Locating) (hunk : Nat) (message : String) : Locating :=
  { s with failures := s.failures ++ [⟨hunk, message⟩] }

def Locating.note (s : Locating) (level : MatchLevel) : Locating := { s with loosest := s.loosest.loosest level }

section Chunks
variable (describeMiss : (lines expected : List String) → (start : Nat) → List OtherFile → String)
variable (fileLines : List String)

/-- Follows the `@@` lines of a hunk. The result is where the hunk may start, or what it missed. -/
def seekAnchors (hunk : Nat) (label : String) : List String → Nat → Locating → Locating × Option Nat
  | [], start, s => (s, some start)
  | anchor :: rest, start, s =>
    match seekSequence fileLines [anchor] start with
    | none => (s.fail hunk s!"{label}, \"@@\" context: {describeMiss fileLines [anchor] start []}", none)
    | some (index, level) => seekAnchors hunk label rest (index + 1) (s.note level)

/-- The place of the hunk's lines. A trailing blank line is tried without. -/
def seekChunk (chunk : PatchChunk) (start : Nat) : Option (Nat × MatchLevel) × List String :=
  match seekSequence fileLines chunk.oldLines start chunk.endOfFile with
  | some found => (some found, chunk.oldLines)
  | none =>
    if chunk.oldLines.getLast? = some "" then
      (seekSequence fileLines chunk.oldLines.dropLast start chunk.endOfFile, chunk.oldLines.dropLast)
    else (none, chunk.oldLines)

def locateChunk (others : List OtherFile) (total : Nat) (s : Locating) (hunk : Nat) (chunk : PatchChunk) : Locating :=
  let label := s!"hunk {hunk} of {total}"
  match seekAnchors describeMiss fileLines hunk label chunk.anchors s.cursor s with
  | (s, none) => s
  | (s, some start) =>
    if chunk.oldLines.length = 0 then
      { s with replacements := s.replacements ++ [⟨fileLines.length, 0, chunk.newLines⟩] }
    else
      match seekChunk fileLines chunk start with
      | (none, _) => s.fail hunk s!"{label}: {describeMiss fileLines chunk.oldLines start others}"
      | (some (index, level), pattern) =>
        { s.note level with
          replacements := s.replacements ++
            [⟨index, pattern.length, replacementLines chunk fileLines index pattern.length⟩]
          cursor := index + pattern.length }

def splice (lines : List String) (r : Replacement) : List String :=
  lines.take r.start ++ r.lines ++ lines.drop (r.start + r.length)

/-- Locates every hunk and applies them from the last one up. -/
def applyChunks (chunks : List PatchChunk) (others : List OtherFile := []) : AppliedChunks :=
  let s := chunks.zipIdx.foldl
    (fun s c => locateChunk describeMiss fileLines others chunks.length s (c.2 + 1) c.1) {}
  let ordered := s.replacements.mergeSort fun a b => a.start ≤ b.start
  { lines := ordered.foldr (fun r lines => splice lines r) fileLines, failures := s.failures, loosest := s.loosest }

end Chunks

/-! ### The wording of a miss

Where hunks land does not depend on the words for the ones that miss, nor on the files these words name. -/

/-- Equal but for the texts of the failures. -/
structure Locating.Same (s t : Locating) : Prop where
  replacements : s.replacements = t.replacements
  failures : s.failures.length = t.failures.length
  cursor : s.cursor = t.cursor

namespace Locating.Same
variable {s t : Locating} {wording wording' : List String → List String → Nat → List OtherFile → String}
variable {fileLines : List String}

theorem fail (same : s.Same t) {hunk hunk' : Nat} {message message' : String} :
    (s.fail hunk message).Same (t.fail hunk' message') where
  replacements := same.replacements
  failures := by simp [Locating.fail, same.failures]
  cursor := same.cursor

theorem note (same : s.Same t) {level : MatchLevel} : (s.note level).Same (t.note level) :=
  ⟨same.replacements, same.failures, same.cursor⟩

theorem seekAnchors (same : s.Same t) {hunk : Nat} {label : String} {anchors : List String} {start : Nat} :
    (seekAnchors wording fileLines hunk label anchors start s).1.Same (seekAnchors wording' fileLines hunk label anchors start t).1 ∧
      (ApplyPatch.seekAnchors wording fileLines hunk label anchors start s).2 =
        (ApplyPatch.seekAnchors wording' fileLines hunk label anchors start t).2 := by
  induction anchors generalizing start s t with
  | nil => exact ⟨same, rfl⟩
  | cons anchor rest ih =>
    unfold ApplyPatch.seekAnchors
    cases seekSequence fileLines [anchor] start with
    | none => exact ⟨same.fail, rfl⟩
    | some found => exact ih same.note

theorem locateChunk (same : s.Same t) {others others' : List OtherFile} {total hunk : Nat} {chunk : PatchChunk} :
    (locateChunk wording fileLines others total s hunk chunk).Same
      (ApplyPatch.locateChunk wording' fileLines others' total t hunk chunk) := by
  unfold ApplyPatch.locateChunk
  dsimp only
  rw [same.cursor]
  obtain ⟨after, start⟩ := @seekAnchors s t wording wording' fileLines same hunk
    s!"hunk {hunk} of {total}" chunk.anchors t.cursor
  generalize ApplyPatch.seekAnchors wording fileLines hunk s!"hunk {hunk} of {total}" chunk.anchors t.cursor s = left at after start
  generalize ApplyPatch.seekAnchors wording' fileLines hunk s!"hunk {hunk} of {total}" chunk.anchors t.cursor t = right at after start
  obtain ⟨s, at₁⟩ := left
  obtain ⟨t, at₂⟩ := right
  cases start
  cases at₁ with
  | none => exact after
  | some start =>
    dsimp only
    split
    · exact ⟨by rw [after.replacements], after.failures, after.cursor⟩
    · generalize seekChunk fileLines chunk start = sought
      obtain ⟨found, pattern⟩ := sought
      cases found with
      | none => exact after.fail
      | some found => exact ⟨by rw [after.replacements], after.failures, rfl⟩

end Locating.Same

theorem applyChunks_wording {wording wording' : List String → List String → Nat → List OtherFile → String}
    {fileLines : List String} {chunks : List PatchChunk} {others others' : List OtherFile} :
    (applyChunks wording fileLines chunks others).lines = (applyChunks wording' fileLines chunks others').lines ∧
      (applyChunks wording fileLines chunks others).failures.length =
        (applyChunks wording' fileLines chunks others').failures.length := by
  have folded : ∀ (l : List (PatchChunk × Nat)) (s t : Locating), s.Same t → Locating.Same
      (l.foldl (fun s c => locateChunk wording fileLines others chunks.length s (c.2 + 1) c.1) s)
      (l.foldl (fun s c => locateChunk wording' fileLines others' chunks.length s (c.2 + 1) c.1) t) := by
    intro l
    induction l with
    | nil => exact fun s t same => same
    | cons c rest ih => exact fun s t same => ih _ _ same.locateChunk
  have same := folded chunks.zipIdx {} {} ⟨rfl, rfl, rfl⟩
  unfold applyChunks
  dsimp only
  exact ⟨by rw [same.replacements], same.failures⟩

end Bike4Mind.ApplyPatch
