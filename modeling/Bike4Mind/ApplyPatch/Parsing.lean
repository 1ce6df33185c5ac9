import Bike4Mind.ApplyPatch.Patch
import Bike4Mind.Runtime

/-! The `apply_patch` envelope, read line by line into operations. -/

namespace Bike4Mind.ApplyPatch

def PATCH_BEGIN : String := "*** Begin Patch"
def END : String := "*** End Patch"
def END_OF_FILE : String := "*** End of File"
def ADD : String := "*** Add File:"
def DELETE : String := "*** Delete File:"
def UPDATE : String := "*** Update File:"
def MOVE : String := "*** Move to:"

structure PatchParseError where
  message : String
  deriving DecidableEq

def startsWith (line opening : String) : Bool := opening.toList.isPrefixOf line.toList

/-- `line.slice(count)`, past characters of one code unit each. -/
def slice (line : String) (count : Nat) : String := String.ofList (line.toList.drop count)

/-! ### Heredocs -/

/-- `\w` -/
def isWord (c : Char) : Bool := c.isAlphanum || c = '_'

/-- `[ \t]` -/
def isBlank (c : Char) : Bool := c = ' ' || c = '\t'

/-- `['"]` -/
def isQuote (c : Char) : Bool := c = '\'' || c = '"'

def dropOptional (accepts : Char → Bool) : List Char → List Char
  | c :: rest => if accepts c then rest else c :: rest
  | [] => []

/-- `(?:(?:cat|apply_patch)\s+)?` -/
def dropCommand (text : List Char) : List Char :=
  let behind := if "cat".toList.isPrefixOf text then text.drop 3
    else if "apply_patch".toList.isPrefixOf text then text.drop 11 else []
  match behind with
  | c :: _ => if isSpace c then behind.dropWhile isSpace else text
  | [] => text

/-- `<<-?['"]?(\w+)['"]?[ \t]*\n`, as the word and the text behind it. -/
def heredocTag : List Char → Option (List Char × List Char)
  | '<' :: '<' :: rest =>
    let rest := dropOptional isQuote (dropOptional (· = '-') rest)
    let tag := rest.takeWhile isWord
    match (dropOptional isQuote (rest.dropWhile isWord)).dropWhile isBlank with
    | '\n' :: body => if tag = [] then none else some (tag, body)
    | _ => none
  | _ => none

/-- `([\s\S]*?)\n[ \t]*\1[ \t]*$`: the lines before the last one, which holds the word alone. -/
def heredocBody (tag body : List Char) : Option (List Char) :=
  let lastReversed := body.reverse.takeWhile (· ≠ '\n')
  let word := (lastReversed.dropWhile isBlank).reverse.dropWhile isBlank
  if '\n' ∈ body ∧ word = tag then some (body.take (body.length - lastReversed.length - 1)) else none

/-- Models paste the patch the way a shell would take it. -/
def stripHeredoc (text : List Char) : List Char :=
  match heredocTag (dropCommand text) with
  | some (tag, body) => (heredocBody tag body).getD text
  | none => text

/-! ### Quoting a line in a message -/

/-- The UTF-16 code units of a text. -/
def utf16 (text : List Char) : List Nat := text.flatMap fun c =>
  if c.toNat < 0x10000 then [c.toNat]
  else [0xD800 + (c.toNat - 0x10000) / 0x400, 0xDC00 + (c.toNat - 0x10000) % 0x400]

def quoteUnit (unit : Nat) : List Char :=
  if unit = 0x22 then ['\\', '"']
  else if unit = 0x5C then ['\\', '\\']
  else if unit = 0x08 then ['\\', 'b']
  else if unit = 0x09 then ['\\', 't']
  else if unit = 0x0A then ['\\', 'n']
  else if unit = 0x0C then ['\\', 'f']
  else if unit = 0x0D then ['\\', 'r']
  else if unit < 0x20 ∨ (0xD800 ≤ unit ∧ unit < 0xE000) then ['\\', 'u'] ++ List.leftpad 4 '0' (Nat.toDigits 16 unit)
  else [Char.ofNat unit]

def quoteUnits : List Nat → List Char
  | high :: low :: rest =>
    if 0xD800 ≤ high ∧ high < 0xDC00 ∧ 0xDC00 ≤ low ∧ low < 0xE000 then
      Char.ofNat (0x10000 + (high - 0xD800) * 0x400 + (low - 0xDC00)) :: quoteUnits rest
    else quoteUnit high ++ quoteUnits (low :: rest)
  | [unit] => quoteUnit unit
  | [] => []

/-- `JSON.stringify` of the first 80 code units of a line. -/
def showLine (line : String) : String :=
  let units := utf16 line.toList
  String.ofList ('"' :: quoteUnits (if 80 < units.length then units.take 80 ++ [0x2E, 0x2E, 0x2E] else units) ++ ['"'])

/-! ### Hunks -/

def headerPath (line opening : String) : String := trim (slice line opening.length)

def isHeader (line : String) : Bool := startsWith line "***"

def requirePath (headerLine opening : String) (n : Nat) : Except PatchParseError String :=
  let path := headerPath headerLine opening
  if path = "" then .error ⟨s!"Line {n}: \"{opening}\" needs a path."⟩ else .ok path

namespace PatchChunk

def addLine (chunk : PatchChunk) (text : String) : PatchChunk :=
  { chunk with
    newLines := chunk.newLines ++ [text]
    body := chunk.body ++ [(.added, text)]
    addedLines := chunk.addedLines ++ [text] }

def removeLine (chunk : PatchChunk) (text : String) : PatchChunk :=
  { chunk with
    oldLines := chunk.oldLines ++ [text]
    body := chunk.body ++ [(.removed, text)] }

def keepLine (chunk : PatchChunk) (text : String) : PatchChunk :=
  { chunk with
    oldLines := chunk.oldLines ++ [text]
    newLines := chunk.newLines ++ [text]
    body := chunk.body ++ [(.context, text)] }

/-- Blank lines that merely separate the hunk from the next section are not context. -/
def dropBare (chunk : PatchChunk) (bare : Nat) : PatchChunk :=
  if !chunk.endOfFile ∧ 0 < bare then
    { chunk with
      oldLines := chunk.oldLines.take (chunk.oldLines.length - bare)
      newLines := chunk.newLines.take (chunk.newLines.length - bare)
      body := chunk.body.take (chunk.body.length - bare) }
  else chunk

end PatchChunk

/-- The lines of a hunk after its `@@` lines, with how many bare ones it ends in. `n` numbers the lines. -/
def parseBody (n : Nat) (chunk : PatchChunk) (bare : Nat) : List String →
    Except PatchParseError (PatchChunk × Nat × Nat × List String)
  | [] => .ok (chunk, bare, n, [])
  | line :: rest =>
    if startsWith line "@@" then .ok (chunk, bare, n, line :: rest)
    else if trim line = END_OF_FILE then .ok ({ chunk with endOfFile := true }, bare, n + 1, rest)
    else if isHeader line then .ok (chunk, bare, n, line :: rest)
    else
      let bare := if line = "" then bare + 1 else 0
      if startsWith line "+" then parseBody (n + 1) (chunk.addLine (slice line 1)) bare rest
      else if startsWith line "-" then parseBody (n + 1) (chunk.removeLine (slice line 1)) bare rest
      -- A bare empty line is how models write a blank context line.
      else if startsWith line " " ∨ line = "" then parseBody (n + 1) (chunk.keepLine (slice line 1)) bare rest
      else
        let skip := if startsWith (foldLine line) "..." then
            " A hunk cannot skip lines with \"...\"; quote every line between its first and last." else ""
        .error ⟨s!"Line {n}: a hunk line must start with \" \" (context), \"-\" or \"+\", got: {showLine line}.{skip}"⟩

def parseHunk (n : Nat) (lines : List String) : Except PatchParseError (PatchChunk × Nat × List String) :=
  let anchorLines := lines.takeWhile (startsWith · "@@")
  let anchors := (anchorLines.map fun line => trim (slice line 2)).filter (· ≠ "")
  let opened : PatchChunk :=
    { anchors := anchors, oldLines := [], newLines := [], body := [], addedLines := [], endOfFile := false }
  match parseBody (n + anchorLines.length) opened 0 (lines.dropWhile (startsWith · "@@")) with
  | .error e => .error e
  | .ok (chunk, bare, n, rest) =>
    let chunk := chunk.dropBare bare
    if chunk.oldLines.length = 0 ∧ chunk.newLines.length = 0 then .error ⟨s!"Line {n}: a hunk has no lines in it."⟩
    else .ok (chunk, n, rest)

theorem parseBody_rest {n n' bare bare' : Nat} {chunk chunk' : PatchChunk} {lines rest : List String}
    (parsed : parseBody n chunk bare lines = .ok (chunk', bare', n', rest)) : rest <:+ lines := by
  induction lines generalizing n chunk bare with
  | nil =>
    cases parsed
    exact List.suffix_refl _
  | cons line more ih =>
    have later := List.suffix_cons line more
    unfold parseBody at parsed
    split at parsed
    · cases parsed
      exact List.suffix_refl _
    split at parsed
    · cases parsed
      exact later
    split at parsed
    · cases parsed
      exact List.suffix_refl _
    dsimp only at parsed
    split at parsed
    · exact (ih parsed).trans later
    split at parsed
    · exact (ih parsed).trans later
    split at parsed
    · exact (ih parsed).trans later
    · cases parsed

theorem parseHunk_suffix {n n' : Nat} {lines rest : List String} {chunk : PatchChunk}
    (parsed : parseHunk n lines = .ok (chunk, n', rest)) : rest <:+ lines := by
  unfold parseHunk at parsed
  dsimp only at parsed
  split at parsed
  · cases parsed
  rename_i read
  split at parsed
  · cases parsed
  cases parsed
  exact (parseBody_rest read).trans (List.dropWhile_suffix _)

theorem parseHunk_rest {n n' : Nat} {line : String} {more rest : List String} {chunk : PatchChunk} (body : isHeader line = false)
    (parsed : parseHunk n (line :: more) = .ok (chunk, n', rest)) : rest.length < (line :: more).length := by
  unfold parseHunk at parsed
  dsimp only at parsed
  split at parsed
  · cases parsed
  rename_i found read
  split at parsed
  · cases parsed
  cases parsed
  cases anchor : startsWith line "@@" with
  | true =>
    rw [List.dropWhile_cons_of_pos (by simpa using anchor)] at read
    have left := (parseBody_rest read).length_le
    have dropped := (List.dropWhile_suffix (l := more) (startsWith · "@@")).length_le
    simp only [List.length_cons]
    omega
  | false =>
    rw [List.dropWhile_cons_of_neg (by simpa using anchor)] at read
    unfold parseBody at read
    rw [if_neg (by simpa using anchor)] at read
    split at read
    · cases read
      exact Nat.lt_succ_self _
    rw [if_neg (by simpa using body)] at read
    dsimp only at read
    split at read
    · exact Nat.lt_succ_of_le (parseBody_rest read).length_le
    split at read
    · exact Nat.lt_succ_of_le (parseBody_rest read).length_le
    split at read
    · exact Nat.lt_succ_of_le (parseBody_rest read).length_le
    · cases read

def parseChunks (n : Nat) : List String → Except PatchParseError (List PatchChunk × Nat × List String)
  | [] => .ok ([], n, [])
  | line :: more =>
    if header : isHeader line then .ok ([], n, line :: more)
    else match read : parseHunk n (line :: more) with
      | .error e => .error e
      | .ok (chunk, n, rest) =>
        have : rest.length < (line :: more).length := parseHunk_rest (by simpa using header) read
        (parseChunks n rest).map fun out => (chunk :: out.1, out.2)
termination_by lines => lines.length
decreasing_by exact this

section Chunks
variable {n n' : Nat} {line : String} {more rest : List String} {chunk : PatchChunk} {e : PatchParseError}

theorem parseChunks_failed (body : ¬ isHeader line = true) (read : parseHunk n (line :: more) = .error e) :
    parseChunks n (line :: more) = .error e := by
  rw [parseChunks, dif_neg body]
  split
  · rename_i other
    exact congrArg _ (Except.error.inj (other.symm.trans read))
  · rename_i other
    rw [read] at other
    cases other

theorem parseChunks_read (body : ¬ isHeader line = true) (read : parseHunk n (line :: more) = .ok (chunk, n', rest)) :
    parseChunks n (line :: more) = (parseChunks n' rest).map fun out => (chunk :: out.1, out.2) := by
  rw [parseChunks, dif_neg body]
  split
  · rename_i other
    rw [read] at other
    cases other
  · rename_i other
    rw [read] at other
    cases other
    rfl

end Chunks

/-! ### Sections -/

/-- The `+` lines of an Add File section. -/
def parseAdded (n : Nat) : List String → Except PatchParseError (List String × Nat × List String)
  | [] => .ok ([], n, [])
  | line :: rest =>
    if isHeader line then .ok ([], n, line :: rest)
    else if !startsWith line "+" then
      .error ⟨s!"Line {n}: every line of an Add File section must start with \"+\", got: {showLine line}"⟩
    else (parseAdded (n + 1) rest).map fun out => (slice line 1 :: out.1, out.2)

def parseMove (n : Nat) : List String → Except PatchParseError (Option String × Nat × List String)
  | [] => .ok (none, n, [])
  | line :: rest =>
    if startsWith line MOVE then (requirePath line MOVE n).map fun path => (some path, n + 1, rest)
    else .ok (none, n, line :: rest)

/-- One file section, read from its header line. -/
def parseSection (n : Nat) (line : String) (rest : List String) : Except PatchParseError (PatchOp × Nat × List String) := do
  if startsWith line ADD then
    let path ← requirePath line ADD n
    let (added, n, rest) ← parseAdded (n + 1) rest
    return (.add path added, n, rest)
  else if startsWith line DELETE then
    let path ← requirePath line DELETE n
    return (.delete path, n + 1, rest)
  else if startsWith line UPDATE then
    let path ← requirePath line UPDATE n
    let (moveTo, n, rest) ← parseMove (n + 1) rest
    let (chunks, next, rest) ← parseChunks n rest
    if chunks.length = 0 ∧ moveTo = none then
      throw ⟨s!"Line {n}: the Update File section for {path} has no hunks."⟩
    else return (.update path moveTo chunks, next, rest)
  else throw ⟨s!"Line {n}: expected \"{ADD} <path>\", \"{DELETE} <path>\" or \"{UPDATE} <path>\", got: {showLine line}"⟩

theorem parseChunks_rest {n n' : Nat} {lines rest : List String} {chunks : List PatchChunk}
    (parsed : parseChunks n lines = .ok (chunks, n', rest)) : rest <:+ lines := by
  induction n, lines using parseChunks.induct generalizing chunks with
  | case1 n =>
    unfold parseChunks at parsed
    cases parsed
    exact List.suffix_refl _
  | case2 n line more header =>
    unfold parseChunks at parsed
    rw [dif_pos header] at parsed
    cases parsed
    exact List.suffix_refl _
  | case3 n line more body e read =>
    rw [parseChunks_failed body read] at parsed
    cases parsed
  | case4 n line more body chunk n₁ left read shorter ih =>
    rw [parseChunks_read body read] at parsed
    cases later : parseChunks n₁ left with
    | error e => rw [later] at parsed; cases parsed
    | ok out =>
      rw [later] at parsed
      obtain ⟨chunks, next, rest⟩ := out
      cases parsed
      exact (ih later).trans (parseHunk_suffix read)

theorem parseAdded_rest {n n' : Nat} {lines rest added : List String}
    (parsed : parseAdded n lines = .ok (added, n', rest)) : rest <:+ lines := by
  induction lines generalizing n added with
  | nil =>
    cases parsed
    exact List.suffix_refl _
  | cons line more ih =>
    unfold parseAdded at parsed
    split at parsed
    · cases parsed
      exact List.suffix_refl _
    split at parsed
    · cases parsed
    · cases later : parseAdded (n + 1) more with
      | error e => rw [later] at parsed; cases parsed
      | ok out =>
        rw [later] at parsed
        obtain ⟨added, next, rest⟩ := out
        cases parsed
        exact (ih later).trans (List.suffix_cons line more)

theorem parseMove_rest {n n' : Nat} {lines rest : List String} {moveTo : Option String}
    (parsed : parseMove n lines = .ok (moveTo, n', rest)) : rest <:+ lines := by
  cases lines with
  | nil =>
    cases parsed
    exact List.suffix_refl _
  | cons line more =>
    simp only [parseMove] at parsed
    split at parsed
    · cases required : requirePath line MOVE n with
      | error e => rw [required] at parsed; cases parsed
      | ok path =>
        rw [required] at parsed
        cases parsed
        exact List.suffix_cons _ _
    · cases parsed
      exact List.suffix_refl _

/-- A section is a path and added lines, a path alone, or a path, perhaps a new one, and hunks. -/
theorem parseSection_cases {n n' : Nat} {line : String} {rest left : List String} {op : PatchOp}
    (parsed : parseSection n line rest = .ok (op, n', left)) :
    (∃ path added m, op = .add path added ∧ parseAdded m rest = .ok (added, n', left)) ∨
    (∃ path, op = .delete path ∧ left = rest) ∨
    ∃ path moveTo chunks m m' more, op = .update path moveTo chunks ∧ parseMove m rest = .ok (moveTo, m', more) ∧
      parseChunks m' more = .ok (chunks, n', left) := by
  unfold parseSection at parsed
  split at parsed
  · obtain ⟨path, -, parsed⟩ := bind_ok parsed
    obtain ⟨⟨added, next, more⟩, read, parsed⟩ := bind_ok parsed
    cases parsed
    exact Or.inl ⟨path, added, n + 1, rfl, read⟩
  split at parsed
  · obtain ⟨path, -, parsed⟩ := bind_ok parsed
    cases parsed
    exact Or.inr (Or.inl ⟨path, rfl, rfl⟩)
  split at parsed
  · obtain ⟨path, -, parsed⟩ := bind_ok parsed
    obtain ⟨⟨moveTo, next, more⟩, moved, parsed⟩ := bind_ok parsed
    obtain ⟨⟨chunks, last, rest⟩, read, parsed⟩ := bind_ok parsed
    dsimp only at parsed
    split at parsed
    · cases parsed
    · cases parsed
      exact Or.inr (Or.inr ⟨path, moveTo, chunks, n + 1, next, more, rfl, moved, read⟩)
  · cases parsed

theorem parseSection_rest {n n' : Nat} {line : String} {rest left : List String} {op : PatchOp}
    (parsed : parseSection n line rest = .ok (op, n', left)) : left <:+ rest := by
  rcases parseSection_cases parsed with ⟨_, _, _, _, read⟩ | ⟨_, _, rfl⟩ | ⟨_, _, _, _, _, _, _, moved, read⟩
  · exact parseAdded_rest read
  · exact List.suffix_refl _
  · exact (parseChunks_rest read).trans (parseMove_rest moved)

def parseOps (n : Nat) : List String → Except PatchParseError (List PatchOp)
  | [] => .ok []
  | line :: rest =>
    if trim line = "" then parseOps (n + 1) rest
    else match read : parseSection n line rest with
      | .error e => .error e
      | .ok (op, n, left) =>
        have : left.length < (line :: rest).length := Nat.lt_succ_of_le (parseSection_rest read).length_le
        (parseOps n left).map (op :: ·)
termination_by lines => lines.length
decreasing_by
  · exact Nat.lt_succ_self _
  · exact this

section Ops
variable {n n' : Nat} {line : String} {rest left : List String} {op : PatchOp} {e : PatchParseError}

theorem parseOps_failed (visible : trim line ≠ "") (read : parseSection n line rest = .error e) :
    parseOps n (line :: rest) = .error e := by
  rw [parseOps, if_neg visible]
  split
  · rename_i other
    exact congrArg _ (Except.error.inj (other.symm.trans read))
  · rename_i other
    rw [read] at other
    cases other

theorem parseOps_read (visible : trim line ≠ "") (read : parseSection n line rest = .ok (op, n', left)) :
    parseOps n (line :: rest) = (parseOps n' left).map (op :: ·) := by
  rw [parseOps, if_neg visible]
  split
  · rename_i other
    rw [read] at other
    cases other
  · rename_i other
    rw [read] at other
    cases other
    rfl

end Ops

def parsePatch (patchText : String) : Except PatchParseError (List PatchOp) :=
  let text := stripHeredoc (trim (String.ofList (crlfToLf patchText.toList))).toList
  let lines := (text.splitOn '\n').map String.ofList
  match lines.dropWhile (trim · ≠ PATCH_BEGIN) with
  | [] => .error ⟨s!"The patch must start with a \"{PATCH_BEGIN}\" line."⟩
  | _ :: rest =>
    if rest.any (trim · = END) then parseOps 1 (rest.takeWhile (trim · ≠ END))
    else .error ⟨s!"The patch must finish with a \"{END}\" line."⟩

end Bike4Mind.ApplyPatch
