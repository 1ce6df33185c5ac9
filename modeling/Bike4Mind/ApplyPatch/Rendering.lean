import Bike4Mind.ApplyPatch.Parsed

/-! Operations written out as a patch, and what reading that patch gives. -/

namespace Bike4Mind.ApplyPatch

def Mark.text : Mark → String
  | .context => " "
  | .removed => "-"
  | .added => "+"

def renderLine (line : Mark × String) : String := line.1.text ++ line.2

def renderChunk (chunk : PatchChunk) : List String :=
  chunk.anchors.map ("@@ " ++ ·) ++ chunk.body.map renderLine ++ if chunk.endOfFile then [END_OF_FILE] else []

def renderHeader (opening path : String) : String := opening ++ (" " ++ path)

def renderOp : PatchOp → List String
  | .add path lines => renderHeader ADD path :: lines.map ("+" ++ ·)
  | .delete path => [renderHeader DELETE path]
  | .update path moveTo chunks =>
    renderHeader UPDATE path :: ((moveTo.map (renderHeader MOVE)).toList ++ chunks.flatMap renderChunk)

/-- The documented format. -/
def renderPatch (ops : List PatchOp) : String :=
  String.intercalate "\n" (PATCH_BEGIN :: (ops.flatMap renderOp ++ [END]))

/-- A line text without a line break. -/
def OneLine (text : String) : Prop := '\n' ∉ text.toList ∧ text.toList.getLast? ≠ some '\r'

/-- A path or an anchor: trimmed, not empty, and on one line. -/
structure Trimmed (text : String) : Prop where
  trimmed : trim text = text
  nonempty : text ≠ ""
  oneLine : '\n' ∉ text.toList

structure PatchChunk.Renderable (chunk : PatchChunk) : Prop extends chunk.Parsed where
  anchors : ∀ anchor ∈ chunk.anchors, Trimmed anchor
  nonempty : chunk.body ≠ []
  lines : ∀ line ∈ chunk.body, OneLine line.2

def PatchOp.Renderable : PatchOp → Prop
  | .add path lines => Trimmed path ∧ ∀ line ∈ lines, OneLine line
  | .delete path => Trimmed path
  | .update path moveTo chunks => Trimmed path ∧ (∀ moved ∈ moveTo, Trimmed moved) ∧ (chunks ≠ [] ∨ moveTo ≠ none) ∧
      (∀ chunk ∈ chunks, chunk.Renderable) ∧ chunks.IsChain fun chunk next => chunk.endOfFile = true ∨ next.anchors ≠ []

def PatchChunk.context (chunk : PatchChunk) : List String := (chunk.body.filter (·.1 = .context)).map (·.2)

/-- The context lines of an operation. -/
def PatchOp.context : PatchOp → List String
  | .update _ _ chunks => chunks.flatMap PatchChunk.context
  | _ => []

/-! ### Texts -/

section Texts
variable {text opening path line : String}

theorem slice_append : slice (opening ++ text) opening.length = text := by
  unfold slice
  rw [String.toList_append, ← String.length_toList, List.drop_left, String.ofList_toList]

theorem startsWith_append : startsWith (opening ++ text) opening = true := by
  unfold startsWith
  rw [String.toList_append, List.isPrefixOf_iff_prefix]
  exact List.prefix_append _ _

theorem trim_prefix {c : Char} (first : text.toList.head? = some c) (visible : isSpace c = false) :
    (trim text).toList <+: text.toList := by
  obtain ⟨rest, shape⟩ : ∃ rest, text.toList = c :: rest := by
    cases chars : text.toList with
    | nil => rw [chars] at first; cases first
    | cons d rest =>
      rw [chars] at first
      cases first
      exact ⟨rest, rfl⟩
  unfold trim trimEnd trimStart
  rw [shape, List.dropWhile_cons_of_neg (by simp [visible]), String.toList_ofList, String.toList_ofList]
  have cut := List.dropWhile_suffix (l := (c :: rest).reverse) isSpace
  rw [← List.reverse_prefix, List.reverse_reverse] at cut
  exact cut

theorem not_both {a b chars : List Char} (start : a <+: chars) (other : b <+: chars) (apart : ¬ a <+: b) (apart' : ¬ b <+: a) : False :=
  (List.prefix_or_prefix_of_prefix start other).elim apart apart'

theorem trim_ne {c d : Char} {rest : List Char} {marker : String} (first : line.toList.head? = some c) (visible : isSpace c = false)
    (shape : marker.toList = d :: rest) (other : c ≠ d) : trim line ≠ marker := by
  intro same
  have cut := trim_prefix first visible
  rw [same, shape] at cut
  obtain ⟨tail, whole⟩ := cut
  rw [← whole] at first
  exact other (Option.some.inj first).symm

theorem header_ne {marker : String} (first : opening.toList.head? = some '*') (apart : ¬ opening.toList <+: marker.toList)
    (apart' : ¬ marker.toList <+: opening.toList) : trim (renderHeader opening path) ≠ marker := by
  intro same
  have start : opening.toList <+: (renderHeader opening path).toList := by
    unfold renderHeader
    rw [String.toList_append]
    exact List.prefix_append _ _
  have head : (renderHeader opening path).toList.head? = some '*' := by
    obtain ⟨tail, whole⟩ := start
    rw [← whole, List.head?_append, first]
    rfl
  have cut := trim_prefix head (by decide)
  rw [same] at cut
  exact not_both start cut apart apart'

theorem headerPath_rendered (trimmed : Trimmed path) : headerPath (renderHeader opening path) opening = path := by
  unfold headerPath renderHeader
  rw [slice_append, trim_space, trimmed.trimmed]

theorem requirePath_rendered {n : Nat} (trimmed : Trimmed path) :
    requirePath (renderHeader opening path) opening n = .ok path := by
  unfold requirePath
  rw [headerPath_rendered trimmed, if_neg trimmed.nonempty]

theorem header_starts : startsWith (renderHeader opening path) opening = true := startsWith_append

theorem header_other {other : String} (apart : ¬ other.toList <+: opening.toList) (apart' : ¬ opening.toList <+: other.toList) :
    startsWith (renderHeader opening path) other = false := by
  rw [Bool.eq_false_iff]
  intro starts
  have left := List.isPrefixOf_iff_prefix.mp starts
  have right : opening.toList <+: (renderHeader opening path).toList := List.isPrefixOf_iff_prefix.mp header_starts
  exact not_both left right apart apart'

end Texts

/-! ### Body lines -/

section Lines
variable {line : Mark × String} {rest : List String}

theorem body_no_anchor : startsWith (renderLine line) "@@" = false := by
  obtain ⟨mark, text⟩ := line
  cases mark <;> simp [startsWith, renderLine, Mark.text, List.isPrefixOf]

theorem body_no_header : isHeader (renderLine line) = false := by
  obtain ⟨mark, text⟩ := line
  cases mark <;> simp [isHeader, startsWith, renderLine, Mark.text, List.isPrefixOf]

theorem body_not_blank : renderLine line ≠ "" := by
  intro empty
  have chars := congrArg String.toList empty
  obtain ⟨mark, text⟩ := line
  cases mark <;> simp [renderLine, Mark.text] at chars

/-- Only a context line is taken for a marker, by the trimmed comparison. -/
theorem body_trim {marker : String} {chars : List Char} (shape : marker.toList = '*' :: chars)
    (plain : line.1 = .context → trim line.2 ≠ marker) : trim (renderLine line) ≠ marker := by
  obtain ⟨mark, text⟩ := line
  cases mark with
  | context =>
    show trim (" " ++ text) ≠ marker
    rw [trim_space]
    exact plain rfl
  | removed =>
    refine trim_ne (c := '-') ?_ (by decide) shape (by decide)
    simp [renderLine, Mark.text]
  | added =>
    refine trim_ne (c := '+') ?_ (by decide) shape (by decide)
    simp [renderLine, Mark.text]

/-- A hunk with one more line of its body. -/
def PatchChunk.push (chunk : PatchChunk) (line : Mark × String) : PatchChunk :=
  match line.1 with
  | .added => chunk.addLine line.2
  | .removed => chunk.removeLine line.2
  | .context => chunk.keepLine line.2

theorem parseBody_line {n : Nat} {chunk : PatchChunk} (plain : line.1 = .context → trim line.2 ≠ END_OF_FILE) :
    parseBody n chunk 0 (renderLine line :: rest) = parseBody (n + 1) (chunk.push line) 0 rest := by
  have text : slice (renderLine line) 1 = line.2 := by
    have one : line.1.text.length = 1 := by cases line.1 <;> rfl
    rw [← one]
    exact slice_append
  rw [parseBody, if_neg (by simp [body_no_anchor]), if_neg (body_trim rfl plain), if_neg (by simp [body_no_header])]
  dsimp only
  rw [if_neg body_not_blank, text]
  obtain ⟨mark, written⟩ := line
  cases mark with
  | context =>
    have marked : startsWith (renderLine (.context, written)) " " = true := startsWith_append
    rw [if_neg (by simp [startsWith, renderLine, Mark.text, List.isPrefixOf]),
      if_neg (by simp [startsWith, renderLine, Mark.text, List.isPrefixOf]), if_pos (Or.inl marked)]
    rfl
  | removed =>
    have marked : startsWith (renderLine (.removed, written)) "-" = true := startsWith_append
    rw [if_neg (by simp [startsWith, renderLine, Mark.text, List.isPrefixOf]), if_pos marked]
    rfl
  | added =>
    have marked : startsWith (renderLine (.added, written)) "+" = true := startsWith_append
    rw [if_pos marked]
    rfl

theorem parseBody_lines {lines : List (Mark × String)} {n : Nat} {chunk : PatchChunk}
    (plain : ∀ line ∈ lines, line.1 = .context → trim line.2 ≠ END_OF_FILE) :
    parseBody n chunk 0 (lines.map renderLine ++ rest) = parseBody (n + lines.length) (lines.foldl PatchChunk.push chunk) 0 rest := by
  induction lines generalizing n chunk with
  | nil => rfl
  | cons line more ih =>
    rw [List.map_cons, List.cons_append, parseBody_line (plain line List.mem_cons_self),
      ih fun other member => plain other (List.mem_cons_of_mem _ member), List.length_cons,
      show n + 1 + more.length = n + (more.length + 1) by omega]
    rfl

theorem push_all {lines : List (Mark × String)} {chunk : PatchChunk} : lines.foldl PatchChunk.push chunk =
    { chunk with
      oldLines := chunk.oldLines ++ (lines.filter (·.1 ≠ .added)).map (·.2)
      newLines := chunk.newLines ++ (lines.filter (·.1 ≠ .removed)).map (·.2)
      body := chunk.body ++ lines
      addedLines := chunk.addedLines ++ (lines.filter (·.1 = .added)).map (·.2) } := by
  induction lines generalizing chunk with
  | nil => simp
  | cons line more ih =>
    rw [List.foldl_cons, ih]
    obtain ⟨mark, text⟩ := line
    cases mark <;> simp [PatchChunk.push, PatchChunk.addLine, PatchChunk.removeLine, PatchChunk.keepLine]

end Lines

/-! ### Hunks -/

section Hunks
variable {chunk : PatchChunk} {chunks : List PatchChunk} {rest : List String} {n : Nat}

/-- Nothing of a hunk goes on here. -/
def Stops (rest : List String) : Prop :=
  ∀ line ∈ rest.head?, startsWith line "@@" = true ∨ isHeader line = true ∧ trim line ≠ END_OF_FILE

/-- A file section starts here, or nothing does. -/
def Sectioned (rest : List String) : Prop := ∀ line ∈ rest.head?, isHeader line = true ∧ trim line ≠ END_OF_FILE

theorem parseBody_stops (stops : Stops rest) : parseBody n chunk 0 rest = .ok (chunk, 0, n, rest) := by
  cases rest with
  | nil => rfl
  | cons line more =>
    rw [parseBody]
    rcases stops line rfl with anchor | ⟨header, open_⟩
    · rw [if_pos anchor]
    · by_cases anchor : startsWith line "@@" = true
      · rw [if_pos anchor]
      · rw [if_neg anchor, if_neg open_, if_pos header]

theorem parseBody_end : parseBody n chunk 0 (END_OF_FILE :: rest) = .ok ({ chunk with endOfFile := true }, 0, n + 1, rest) := by
  rw [parseBody, if_neg (by decide), if_pos (by decide)]

theorem dropBare_zero : chunk.dropBare 0 = chunk := by simp [PatchChunk.dropBare]

/-- A hunk is read back when its context does not look like the end of the file. -/
theorem parseHunk_rendered (renderable : chunk.Renderable)
    (plain : ∀ line ∈ chunk.body, line.1 = .context → trim line.2 ≠ END_OF_FILE) (stops : chunk.endOfFile = true ∨ Stops rest) :
    ∃ n', parseHunk n (renderChunk chunk ++ rest) = .ok (chunk, n', rest) := by
  have opening : ∀ line ∈ chunk.anchors.map ("@@ " ++ ·), startsWith line "@@" = true := by
    intro line member
    obtain ⟨anchor, -, rfl⟩ := List.mem_map.mp member
    simp [startsWith, List.isPrefixOf]
  have body : ∀ more, (chunk.body.map renderLine ++ more).takeWhile (startsWith · "@@") = [] ∧
      (chunk.body.map renderLine ++ more).dropWhile (startsWith · "@@") = chunk.body.map renderLine ++ more := by
    intro more
    cases shape : chunk.body with
    | nil => exact (renderable.nonempty shape).elim
    | cons line lines => simp [body_no_anchor]
  have anchors : ((chunk.anchors.map ("@@ " ++ ·)).map fun line => trim (slice line 2)).filter (· ≠ "") = chunk.anchors := by
    rw [List.map_map]
    have read : ∀ anchor ∈ chunk.anchors, ((fun line => trim (slice line 2)) ∘ ("@@ " ++ ·)) anchor = anchor := by
      intro anchor member
      show trim (slice ("@@ " ++ anchor) 2) = anchor
      have cut : slice ("@@ " ++ anchor) 2 = " " ++ anchor := by
        rw [show "@@ " ++ anchor = "@@" ++ (" " ++ anchor) by rw [← String.append_assoc]; rfl]
        exact slice_append
      rw [cut, trim_space, (renderable.anchors anchor member).trimmed]
    rw [List.map_congr_left read, List.map_id', List.filter_eq_self]
    intro anchor member
    simpa using (renderable.anchors anchor member).nonempty
  have filled : chunk.body.foldl PatchChunk.push
      { anchors := chunk.anchors, oldLines := [], newLines := [], body := [], addedLines := [], endOfFile := false } =
      { chunk with endOfFile := false } := by
    rw [push_all]
    simp only [List.nil_append]
    rw [← renderable.oldLines, ← renderable.newLines, ← renderable.addedLines]
  have kept : ¬ (chunk.oldLines.length = 0 ∧ chunk.newLines.length = 0) := by
    rw [renderable.oldLines, renderable.newLines]
    cases shape : chunk.body with
    | nil => exact (renderable.nonempty shape).elim
    | cons line lines =>
      obtain ⟨mark, text⟩ := line
      cases mark <;> simp
  unfold parseHunk renderChunk
  dsimp only
  rw [List.append_assoc, List.append_assoc, List.takeWhile_append_of_pos opening, List.dropWhile_append_of_pos opening,
    (body _).1, (body _).2, List.append_nil, anchors, parseBody_lines plain, filled]
  cases ends : chunk.endOfFile with
  | true =>
    have whole : { chunk with endOfFile := true } = chunk := by rw [← ends]
    rw [if_pos rfl, List.singleton_append, parseBody_end]
    dsimp only
    rw [whole, dropBare_zero, if_neg kept]
    exact ⟨_, rfl⟩
  | false =>
    have whole : { chunk with endOfFile := false } = chunk := by rw [← ends]
    have stops : Stops rest := stops.resolve_left (by simp [ends])
    rw [if_neg (by decide), List.nil_append, parseBody_stops stops, whole]
    dsimp only
    rw [dropBare_zero, if_neg kept]
    exact ⟨_, rfl⟩

theorem Sectioned.stops (sectioned : Sectioned rest) : Stops rest := fun line first => Or.inr (sectioned line first)

theorem renderChunk_first (renderable : chunk.Renderable) :
    ∃ line more, renderChunk chunk = line :: more ∧ isHeader line = false ∧ (chunk.anchors ≠ [] → startsWith line "@@" = true) := by
  unfold renderChunk
  cases shape : chunk.anchors with
  | cons anchor anchors =>
    refine ⟨"@@ " ++ anchor, _, rfl, ?_, fun _ => ?_⟩
    · simp [isHeader, startsWith, List.isPrefixOf]
    · simp [startsWith, List.isPrefixOf]
  | nil =>
    cases body : chunk.body with
    | nil => exact (renderable.nonempty body).elim
    | cons line lines => exact ⟨renderLine line, _, rfl, body_no_header, fun some => (some rfl).elim⟩

theorem parseChunks_rendered (renderable : ∀ chunk ∈ chunks, chunk.Renderable)
    (chained : chunks.IsChain fun chunk next => chunk.endOfFile = true ∨ next.anchors ≠ [])
    (plain : ∀ chunk ∈ chunks, ∀ line ∈ chunk.body, line.1 = .context → trim line.2 ≠ END_OF_FILE) (sectioned : Sectioned rest) :
    ∃ n', parseChunks n (chunks.flatMap renderChunk ++ rest) = .ok (chunks, n', rest) := by
  induction chunks generalizing n with
  | nil =>
    rw [List.flatMap_nil, List.nil_append]
    cases rest with
    | nil => exact ⟨n, by rw [parseChunks]⟩
    | cons line more => exact ⟨n, by rw [parseChunks, dif_pos (sectioned line rfl).1]⟩
  | cons chunk later ih =>
    have here := renderable chunk List.mem_cons_self
    have stops : chunk.endOfFile = true ∨ Stops (later.flatMap renderChunk ++ rest) := by
      cases later with
      | nil => exact Or.inr sectioned.stops
      | cons next more =>
        refine (List.isChain_cons_cons.mp chained).1.imp id fun anchored => ?_
        obtain ⟨line, lines, shape, -, opens⟩ := renderChunk_first (renderable next (by simp))
        intro first member
        rw [List.flatMap_cons, shape] at member
        cases member
        exact Or.inl (opens anchored)
    obtain ⟨mid, read⟩ := parseHunk_rendered (n := n) here (plain chunk List.mem_cons_self) stops
    obtain ⟨last, followed⟩ := ih (n := mid) (fun other member => renderable other (List.mem_cons_of_mem _ member))
      (List.isChain_of_isChain_cons chained)
      fun other member => plain other (List.mem_cons_of_mem _ member)
    obtain ⟨line, lines, shape, body, -⟩ := renderChunk_first here
    rw [List.flatMap_cons, List.append_assoc]
    rw [shape, List.cons_append] at read ⊢
    refine ⟨last, ?_⟩
    rw [parseChunks_read (by simp [body]) read, followed]
    rfl

end Hunks

/-! ### Sections -/

section Sections
variable {op : PatchOp} {ops : List PatchOp} {rest : List String} {n : Nat}

/-- No context line of the operation is taken for the end of the file. -/
def PatchOp.Open : PatchOp → Prop
  | .update _ _ chunks => ∀ chunk ∈ chunks, ∀ line ∈ chunk.body, line.1 = .context → trim line.2 ≠ END_OF_FILE
  | _ => True

theorem parseAdded_rendered (lines : List String) (sectioned : Sectioned rest) :
    ∃ n', parseAdded n (lines.map ("+" ++ ·) ++ rest) = .ok (lines, n', rest) := by
  induction lines generalizing n with
  | nil =>
    rw [List.map_nil, List.nil_append]
    cases rest with
    | nil => exact ⟨n, rfl⟩
    | cons line more => exact ⟨n, by rw [parseAdded, if_pos (sectioned line rfl).1]⟩
  | cons line more ih =>
    obtain ⟨last, read⟩ := ih (n := n + 1)
    refine ⟨last, ?_⟩
    have body : isHeader (renderLine (.added, line)) = false := body_no_header
    change isHeader ("+" ++ line) = false at body
    have marked : startsWith ("+" ++ line) "+" = true := startsWith_append
    have cut : slice ("+" ++ line) 1 = line := slice_append
    rw [List.map_cons, List.cons_append, parseAdded, if_neg (by simp [body]), if_neg (by simp [marked]), read, cut]
    rfl

theorem renderOp_first (op : PatchOp) : ∃ line more, renderOp op = line :: more ∧ isHeader line = true ∧ trim line ≠ END_OF_FILE ∧ trim line ≠ "" := by
  have visible : ∀ opening path : String, opening.toList.head? = some '*' → trim (renderHeader opening path) ≠ "" := by
    intro opening path first empty
    have head : (renderHeader opening path).toList.head? = some '*' := by
      rw [renderHeader, String.toList_append, List.head?_append, first]
      rfl
    cases chars : (renderHeader opening path).toList with
    | nil => rw [chars] at head; cases head
    | cons c rest =>
      rw [chars] at head
      cases head
      unfold trim trimEnd trimStart at empty
      rw [chars, List.dropWhile_cons_of_neg (by decide), String.toList_ofList] at empty
      have none := congrArg String.toList empty
      rw [String.toList_ofList] at none
      have all : ('*' :: rest).reverse.dropWhile isSpace = [] := List.reverse_eq_nil_iff.mp none
      exact absurd (List.dropWhile_eq_nil_iff.mp all '*' (by simp)) (by decide)
  have header : ∀ opening path : String, startsWith opening "***" = true → isHeader (renderHeader opening path) = true := by
    intro opening path starts
    unfold isHeader startsWith renderHeader at *
    rw [String.toList_append]
    exact List.isPrefixOf_iff_prefix.mpr ((List.isPrefixOf_iff_prefix.mp starts).trans (List.prefix_append _ _))
  cases op with
  | add path lines =>
    exact ⟨_, _, rfl, header _ _ (by decide), header_ne (by decide) (by decide) (by decide), visible _ _ (by decide)⟩
  | delete path =>
    exact ⟨_, _, rfl, header _ _ (by decide), header_ne (by decide) (by decide) (by decide), visible _ _ (by decide)⟩
  | update path moveTo chunks =>
    exact ⟨_, _, rfl, header _ _ (by decide), header_ne (by decide) (by decide) (by decide), visible _ _ (by decide)⟩

theorem ops_sectioned (ops : List PatchOp) : Sectioned (ops.flatMap renderOp) := by
  cases ops with
  | nil => exact fun line member => nomatch member
  | cons op later =>
    obtain ⟨line, more, shape, header, open_, -⟩ := renderOp_first op
    intro first member
    rw [List.flatMap_cons, shape] at member
    cases member
    exact ⟨header, open_⟩

/-- Every section is read back, and up to where the next one starts. -/
theorem parseSection_rendered (renderable : op.Renderable) (plain : op.Open) (sectioned : Sectioned rest) :
    ∃ line more n', renderOp op = line :: more ∧ parseSection n line (more ++ rest) = .ok (op, n', rest) := by
  cases op with
  | add path lines =>
    obtain ⟨last, read⟩ := parseAdded_rendered (n := n + 1) lines sectioned
    refine ⟨_, _, last, rfl, ?_⟩
    unfold parseSection
    rw [if_pos header_starts, requirePath_rendered renderable.1]
    show (parseAdded (n + 1) (lines.map ("+" ++ ·) ++ rest) >>= _) = _
    rw [read]
    rfl
  | delete path =>
    refine ⟨_, _, n + 1, rfl, ?_⟩
    unfold parseSection
    rw [if_neg (by rw [header_other (by decide) (by decide)]; decide), if_pos header_starts, requirePath_rendered renderable]
    rfl
  | update path moveTo chunks =>
    obtain ⟨named, movedOn, some, hunks, chained⟩ := renderable
    have moved : ∃ n', parseMove (n + 1) ((moveTo.map (renderHeader MOVE)).toList ++ chunks.flatMap renderChunk ++ rest) =
        .ok (moveTo, n', chunks.flatMap renderChunk ++ rest) := by
      cases moveTo with
      | some path =>
        refine ⟨n + 2, ?_⟩
        show parseMove (n + 1) (renderHeader MOVE path :: (chunks.flatMap renderChunk ++ rest)) = _
        rw [parseMove, if_pos header_starts, requirePath_rendered (movedOn path rfl)]
        rfl
      | none =>
        obtain ⟨chunk, later, rfl⟩ := List.exists_cons_of_ne_nil (some.resolve_right (by simp))
        obtain ⟨line, lines, shape, body, -⟩ := renderChunk_first (hunks chunk List.mem_cons_self)
        refine ⟨n + 1, ?_⟩
        have stays : startsWith line MOVE = false := by
          rw [Bool.eq_false_iff]
          intro starts
          have header : isHeader line = true := by
            unfold isHeader startsWith at *
            exact List.isPrefixOf_iff_prefix.mpr
              (List.IsPrefix.trans (by decide) (List.isPrefixOf_iff_prefix.mp starts))
          rw [body] at header
          cases header
        rw [Option.map_none, Option.toList_none, List.nil_append, List.flatMap_cons, shape, List.cons_append, List.cons_append,
          parseMove, if_neg (by simp [stays])]
    obtain ⟨mid, moved⟩ := moved
    obtain ⟨last, read⟩ := parseChunks_rendered (n := mid) hunks chained plain sectioned
    refine ⟨_, _, last, rfl, ?_⟩
    unfold parseSection
    rw [if_neg (by rw [header_other (by decide) (by decide)]; decide), if_neg (by rw [header_other (by decide) (by decide)]; decide),
      if_pos header_starts, requirePath_rendered named]
    show (parseMove (n + 1) ((moveTo.map (renderHeader MOVE)).toList ++ chunks.flatMap renderChunk ++ rest) >>= _) = _
    rw [moved]
    show (parseChunks mid (chunks.flatMap renderChunk ++ rest) >>= _) = _
    rw [read]
    have hunked : ¬ (chunks.length = 0 ∧ moveTo = none) := by
      rintro ⟨empty, still⟩
      exact some.elim (fun full => full (List.eq_nil_of_length_eq_zero empty)) fun moves => moves still
    show (if chunks.length = 0 ∧ moveTo = none then _ else _) = _
    rw [if_neg hunked]
    rfl

theorem parseOps_rendered (renderable : ∀ op ∈ ops, op.Renderable) (plain : ∀ op ∈ ops, op.Open) :
    parseOps n (ops.flatMap renderOp) = .ok ops := by
  induction ops generalizing n with
  | nil => rw [List.flatMap_nil, parseOps]
  | cons op later ih =>
    have followed := fun n => ih (n := n) (fun other member => renderable other (List.mem_cons_of_mem _ member))
      fun other member => plain other (List.mem_cons_of_mem _ member)
    obtain ⟨line, more, mid, shape, read⟩ := parseSection_rendered (n := n) (renderable op List.mem_cons_self)
      (plain op List.mem_cons_self) (ops_sectioned later)
    obtain ⟨line', more', shape', -, -, visible⟩ := renderOp_first op
    rw [shape] at shape'
    cases shape'
    rw [List.flatMap_cons, shape, List.cons_append, parseOps_read visible read, followed]
    rfl

end Sections

/-! ### The text of a patch -/

section Text
variable {text a b : String} {lines inner tail : List String}

theorem oneLine_append (left : OneLine a) (right : OneLine b) : OneLine (a ++ b) := by
  refine ⟨?_, ?_⟩
  · rw [String.toList_append, List.mem_append]
    exact fun inside => inside.elim left.1 right.1
  · rw [String.toList_append, List.getLast?_append]
    cases last : b.toList.getLast? with
    | none => simpa using left.2
    | some c => simpa [last] using right.2

theorem Trimmed.visible (trimmed : Trimmed text) : ∃ c, text.toList.getLast? = some c ∧ isSpace c = false := by
  have kept := trimmed.trimmed
  unfold trim at kept
  generalize trimStart text = middle at kept
  have shape : text.toList = (middle.toList.reverse.dropWhile isSpace).reverse := by
    rw [← kept]
    exact String.toList_ofList
  rw [shape, List.getLast?_reverse]
  cases left : middle.toList.reverse.dropWhile isSpace with
  | nil =>
    rw [left] at shape
    exact (trimmed.nonempty (String.toList_inj.mp (shape.trans String.toList_empty.symm))).elim
  | cons c rest =>
    refine ⟨c, rfl, ?_⟩
    have head := List.head?_dropWhile_not isSpace middle.toList.reverse
    rw [left] at head
    simpa using head

theorem Trimmed.line (trimmed : Trimmed text) : OneLine text := by
  refine ⟨trimmed.oneLine, fun last => ?_⟩
  obtain ⟨c, same, visible⟩ := trimmed.visible
  rw [last] at same
  cases same
  exact absurd visible (by decide)

theorem oneLine_rendered {op : PatchOp} (renderable : op.Renderable) : ∀ line ∈ renderOp op, OneLine line := by
  have header : ∀ opening path : String, OneLine opening → Trimmed path → OneLine (renderHeader opening path) :=
    fun opening path open_ trimmed => oneLine_append open_ (oneLine_append (by unfold OneLine; decide) trimmed.line)
  intro line member
  cases op with
  | add path lines =>
    rcases List.mem_cons.mp member with rfl | member
    · exact header _ _ (by unfold OneLine; decide) renderable.1
    · obtain ⟨text, within, rfl⟩ := List.mem_map.mp member
      exact oneLine_append (by unfold OneLine; decide) (renderable.2 text within)
  | delete path =>
    cases List.mem_singleton.mp member
    exact header _ _ (by unfold OneLine; decide) renderable
  | update path moveTo chunks =>
    obtain ⟨named, movedOn, -, hunks, -⟩ := renderable
    rcases List.mem_cons.mp member with rfl | member
    · exact header _ _ (by unfold OneLine; decide) named
    rcases List.mem_append.mp member with moved | member
    · obtain ⟨path, moves, rfl⟩ := Option.map_eq_some_iff.mp (Option.mem_toList.mp moved)
      exact header _ _ (by unfold OneLine; decide) (movedOn path moves)
    · obtain ⟨chunk, within, member⟩ := List.mem_flatMap.mp member
      have hunk := hunks chunk within
      rcases List.mem_append.mp member with member | last
      · rcases List.mem_append.mp member with member | member
        · obtain ⟨anchor, within, rfl⟩ := List.mem_map.mp member
          exact oneLine_append (by unfold OneLine; decide) (hunk.anchors anchor within).line
        · obtain ⟨⟨mark, text⟩, within, rfl⟩ := List.mem_map.mp member
          have marked : OneLine mark.text := by cases mark <;> (unfold OneLine; decide)
          exact oneLine_append marked (hunk.lines _ within)
      · split at last
        · cases List.mem_singleton.mp last
          unfold OneLine
          decide
        · cases last

/-- Only a context line of an operation is taken for the end of the patch. -/
theorem rendered_not_end {op : PatchOp} (plain : ∀ text ∈ op.context, trim text ≠ END) : ∀ line ∈ renderOp op, trim line ≠ END := by
  intro line member
  cases op with
  | add path lines =>
    rcases List.mem_cons.mp member with rfl | member
    · exact header_ne (by decide) (by decide) (by decide)
    · obtain ⟨text, within, rfl⟩ := List.mem_map.mp member
      exact @body_trim (.added, text) _ _ rfl nofun
  | delete path =>
    cases List.mem_singleton.mp member
    exact header_ne (by decide) (by decide) (by decide)
  | update path moveTo chunks =>
    rcases List.mem_cons.mp member with rfl | member
    · exact header_ne (by decide) (by decide) (by decide)
    rcases List.mem_append.mp member with moved | member
    · obtain ⟨path, moves, rfl⟩ := Option.map_eq_some_iff.mp (Option.mem_toList.mp moved)
      exact header_ne (by decide) (by decide) (by decide)
    · obtain ⟨chunk, within, member⟩ := List.mem_flatMap.mp member
      rcases List.mem_append.mp member with member | last
      · rcases List.mem_append.mp member with member | member
        · obtain ⟨anchor, -, rfl⟩ := List.mem_map.mp member
          exact trim_ne (c := '@') (by simp) (by decide) rfl (by decide)
        · obtain ⟨line, inside, rfl⟩ := List.mem_map.mp member
          refine body_trim rfl fun context => plain line.2 ?_
          refine List.mem_flatMap.mpr ⟨chunk, within, List.mem_map.mpr ⟨line, List.mem_filter.mpr ⟨inside, ?_⟩, rfl⟩⟩
          simpa using context
      · split at last
        · cases List.mem_singleton.mp last
          decide
        · cases last

theorem crlfToLf_line {line rest : List Char} (broken : '\n' ∉ line) (ends : line.getLast? ≠ some '\r') :
    crlfToLf (line ++ '\n' :: rest) = line ++ '\n' :: crlfToLf rest := by
  induction line with
  | nil => rfl
  | cons c line ih =>
    have later : '\n' ∉ line := fun inside => broken (List.mem_cons_of_mem _ inside)
    cases line with
    | nil =>
      have other : c ≠ '\r' := fun same => ends (by rw [same]; rfl)
      rw [List.cons_append, List.nil_append, crlfToLf]
      · rfl
      · rintro rest rfl
        exact fun _ => other rfl
    | cons d line =>
      have other : d ≠ '\n' := fun same => later (by rw [same]; exact List.mem_cons_self)
      rw [List.cons_append, crlfToLf, ih later (by simpa using ends)]
      · rfl
      · rintro rest rfl same
        cases same
        exact other rfl

theorem crlfToLf_last {line : List Char} (broken : '\n' ∉ line) : crlfToLf line = line := by
  induction line with
  | nil => rfl
  | cons c line ih =>
    rw [crlfToLf, ih fun inside => broken (List.mem_cons_of_mem _ inside)]
    rintro rest rfl same
    cases same
    exact broken (by simp)

theorem crlfToLf_lines {line : String} {more : List String} (oneLine : ∀ other ∈ line :: more, OneLine other) :
    crlfToLf (['\n'].intercalate ((line :: more).map String.toList)) = ['\n'].intercalate ((line :: more).map String.toList) := by
  induction more generalizing line with
  | nil => simpa using crlfToLf_last (oneLine line List.mem_cons_self).1
  | cons next more ih =>
    have here := oneLine line List.mem_cons_self
    have later := ih fun other member => oneLine other (List.mem_cons_of_mem _ member)
    have shape : ['\n'].intercalate ((line :: next :: more).map String.toList) =
        line.toList ++ '\n' :: ['\n'].intercalate ((next :: more).map String.toList) := by
      simp [List.intercalate_cons_cons]
    rw [shape, crlfToLf_line here.1 here.2, later]

theorem trim_visible {c d : Char} (first : text.toList.head? = some c) (visible : isSpace c = false)
    (last : text.toList.getLast? = some d) (visible' : isSpace d = false) : trim text = text := by
  have front : text.toList.dropWhile isSpace = text.toList := by
    cases chars : text.toList with
    | nil => rfl
    | cons e rest =>
      rw [chars] at first
      cases first
      exact List.dropWhile_cons_of_neg (by simp [visible])
  have back : text.toList.reverse.dropWhile isSpace = text.toList.reverse := by
    cases chars : text.toList.reverse with
    | nil => rfl
    | cons e rest =>
      rw [← List.head?_reverse, chars] at last
      cases last
      exact List.dropWhile_cons_of_neg (by simp [visible'])
  unfold trim trimEnd trimStart
  rw [front, String.ofList_toList, back, List.reverse_reverse, String.ofList_toList]

theorem stripHeredoc_plain {rest : List Char} : stripHeredoc ('*' :: rest) = '*' :: rest := by
  simp [stripHeredoc, dropCommand, heredocTag, List.isPrefixOf]

theorem intercalate_ends {separator : List Char} {more : List (List Char)} {last : List Char} :
    ∃ front, separator.intercalate (more ++ [last]) = front ++ last := by
  induction more with
  | nil => exact ⟨[], by simp⟩
  | cons line more ih =>
    obtain ⟨front, shape⟩ := ih
    cases more with
    | nil => exact ⟨line ++ separator, by simp [List.intercalate_cons_cons]⟩
    | cons next more =>
      refine ⟨line ++ separator ++ front, ?_⟩
      rw [List.cons_append, List.cons_append, List.intercalate_cons_cons, ← List.cons_append, shape]
      simp

/-- The lines between the first one and the first that trims to the end marker are read. -/
theorem parsePatch_lines {stop : String} (oneLine : ∀ line ∈ inner ++ stop :: tail, OneLine line)
    (plain : ∀ line ∈ inner, trim line ≠ END) (stops : trim stop = END) (last : (stop :: tail).getLast? = some END) :
    parsePatch (String.intercalate "\n" (PATCH_BEGIN :: (inner ++ stop :: tail))) = parseOps 1 inner := by
  generalize whole : PATCH_BEGIN :: (inner ++ stop :: tail) = all
  have oneLine : ∀ line ∈ all, OneLine line := by
    rw [← whole]
    intro line member
    rcases List.mem_cons.mp member with rfl | member
    · unfold OneLine
      decide
    · exact oneLine line member
  have chars : (String.intercalate "\n" all).toList = ['\n'].intercalate (all.map String.toList) := String.toList_intercalate
  have lf : crlfToLf (['\n'].intercalate (all.map String.toList)) = ['\n'].intercalate (all.map String.toList) := by
    rw [← whole] at oneLine ⊢
    exact crlfToLf_lines oneLine
  have first : ∃ rest, ['\n'].intercalate (all.map String.toList) = '*' :: rest := by
    rw [← whole, List.map_cons]
    cases (inner ++ stop :: tail).map String.toList with
    | nil => exact ⟨_, rfl⟩
    | cons next more =>
      rw [List.intercalate_cons_cons]
      exact ⟨_, rfl⟩
  have final : (['\n'].intercalate (all.map String.toList)).getLast? = some 'h' := by
    obtain ⟨front, shape⟩ : ∃ front, all = front ++ [END] := by
      obtain ⟨front, ended⟩ := List.getLast?_eq_some_iff.mp last
      exact ⟨PATCH_BEGIN :: (inner ++ front), by rw [← whole, ended]; simp⟩
    rw [shape, List.map_append]
    obtain ⟨before, ended⟩ := @intercalate_ends ['\n'] (front.map String.toList) END.toList
    rw [List.map_singleton, ended, List.getLast?_append]
    rfl
  obtain ⟨rest, first⟩ := first
  have trimmed : trim (String.ofList (['\n'].intercalate (all.map String.toList))) =
      String.ofList (['\n'].intercalate (all.map String.toList)) := by
    refine trim_visible (c := '*') (d := 'h') ?_ (by decide) ?_ (by decide)
    · rw [String.toList_ofList, first]
      rfl
    · rw [String.toList_ofList, final]
  have kept : stripHeredoc (['\n'].intercalate (all.map String.toList)) = ['\n'].intercalate (all.map String.toList) := by
    rw [first]
    exact stripHeredoc_plain
  have split : (['\n'].intercalate (all.map String.toList)).splitOn '\n' = all.map String.toList := by
    refine List.splitOn_intercalate _ (fun line member => ?_) (by simp [← whole])
    obtain ⟨text, within, rfl⟩ := List.mem_map.mp member
    exact (oneLine text within).1
  have lines : (all.map String.toList).map String.ofList = all := by
    rw [List.map_map]
    exact (List.map_congr_left fun line _ => String.ofList_toList).trans (List.map_id _)
  unfold parsePatch
  dsimp only
  rw [chars, lf, trimmed, String.toList_ofList, kept, split, lines, ← whole]
  rw [List.dropWhile_cons_of_neg (by decide)]
  dsimp only
  have stopped : (inner ++ stop :: tail).takeWhile (fun line => decide (trim line ≠ END)) = inner := by
    rw [List.takeWhile_append_of_pos fun line member => by simpa using plain line member,
      List.takeWhile_cons_of_neg (by simp [stops]), List.append_nil]
  rw [if_pos (by simp [stops]), stopped]

end Text

/-! ### Reading back -/

section ReadingBack
variable {ops : List PatchOp}

theorem open_of_plain {op : PatchOp} (plain : ∀ text ∈ op.context, ¬ LooksLikeEnd text) : op.Open := by
  cases op with
  | add path lines => trivial
  | delete path => trivial
  | update path moveTo chunks =>
    intro chunk within line inside context file
    refine plain line.2 ?_ (Or.inr file)
    refine List.mem_flatMap.mpr ⟨chunk, within, List.mem_map.mpr ⟨line, List.mem_filter.mpr ⟨inside, ?_⟩, rfl⟩⟩
    simpa using context

theorem context_of_sound {op : PatchOp} (sound : op.Sound) : ∀ text ∈ op.context, ¬ LooksLikeEnd text := by
  intro text member
  cases op with
  | add path lines => cases member
  | delete path => cases member
  | update path moveTo chunks =>
    obtain ⟨chunk, within, member⟩ := List.mem_flatMap.mp member
    obtain ⟨line, kept, rfl⟩ := List.mem_map.mp member
    obtain ⟨inside, context⟩ := List.mem_filter.mp kept
    exact (sound chunk within).context line inside (by simpa using context)

/-- A rendered patch is read back exactly when none of its context lines looks like the end of a hunk or of the patch. -/
theorem patch_read_back_iff (renderable : ∀ op ∈ ops, op.Renderable) :
    parsePatch (renderPatch ops) = .ok ops ↔ ∀ op ∈ ops, ∀ text ∈ op.context, ¬ LooksLikeEnd text := by
  constructor
  · exact fun parsed op member => context_of_sound (parsePatch_sound parsed op member)
  · intro plain
    have oneLine : ∀ line ∈ ops.flatMap renderOp ++ [END], OneLine line := by
      intro line member
      rcases List.mem_append.mp member with member | last
      · obtain ⟨op, within, member⟩ := List.mem_flatMap.mp member
        exact oneLine_rendered (renderable op within) line member
      · cases List.mem_singleton.mp last
        unfold OneLine
        decide
    have inside : ∀ line ∈ ops.flatMap renderOp, trim line ≠ END := by
      intro line member
      obtain ⟨op, within, member⟩ := List.mem_flatMap.mp member
      exact rendered_not_end (fun text context looks => plain op within text context (Or.inl looks)) line member
    unfold renderPatch
    rw [parsePatch_lines oneLine inside (by decide) rfl]
    exact parseOps_rendered renderable fun op member => open_of_plain (plain op member)

/-! A file that quotes the end of a patch: the hunk around the quoted line and the operation after it. -/

def Sample.cutOff : List PatchOp := [.update "doc.md" none [
  { anchors := [], oldLines := ["old"], newLines := ["new"], body := [(.removed, "old"), (.added, "new")], addedLines := ["new"],
    endOfFile := false }]]

def Sample.quoting : List PatchOp := [.update "doc.md" none [
  { anchors := [], oldLines := ["old", "*** End Patch"], newLines := ["new", "*** End Patch", "more"],
    body := [(.removed, "old"), (.added, "new"), (.context, "*** End Patch"), (.added, "more")], addedLines := ["new", "more"],
    endOfFile := false }], .delete "gone.txt"]

theorem Sample.trimmed : Trimmed "doc.md" ∧ Trimmed "gone.txt" :=
  ⟨⟨by decide, by decide, by decide⟩, ⟨by decide, by decide, by decide⟩⟩

theorem Sample.cutOff_renderable : ∀ op ∈ Sample.cutOff, op.Renderable := by
  intro op member
  cases List.mem_singleton.mp member
  refine ⟨Sample.trimmed.1, nofun, Or.inl (by simp), fun chunk within => ?_, .singleton _⟩
  cases List.mem_singleton.mp within
  refine ⟨⟨rfl, rfl, rfl⟩, nofun, by simp, ?_⟩
  unfold OneLine
  decide

theorem Sample.quoting_renderable : ∀ op ∈ Sample.quoting, op.Renderable := by
  intro op member
  rcases List.mem_cons.mp member with rfl | member
  · refine ⟨Sample.trimmed.1, nofun, Or.inl (by simp), fun chunk within => ?_, .singleton _⟩
    cases List.mem_singleton.mp within
    refine ⟨⟨rfl, rfl, rfl⟩, nofun, by simp, ?_⟩
    unfold OneLine
    decide
  · cases List.mem_singleton.mp member
    exact Sample.trimmed.2

theorem cutOff_read_back : parsePatch (renderPatch Sample.cutOff) = .ok Sample.cutOff :=
  (patch_read_back_iff Sample.cutOff_renderable).mpr (by decide)

/-- The context line ends the patch: its own hunk and the later operation are dropped without an error. -/
theorem quoted_end_drops_rest : (∀ op ∈ Sample.quoting, op.Renderable) ∧
    parsePatch (renderPatch Sample.quoting) = .ok Sample.cutOff ∧ Sample.cutOff.length < Sample.quoting.length := by
  refine ⟨Sample.quoting_renderable, ?_, by decide⟩
  have lines : Sample.quoting.flatMap renderOp ++ [END] =
      Sample.cutOff.flatMap renderOp ++ " *** End Patch" :: ["+more", "*** Delete File: gone.txt", END] := by decide
  unfold renderPatch
  rw [lines, parsePatch_lines (by unfold OneLine; decide) (by decide) (by decide) rfl]
  exact parseOps_rendered Sample.cutOff_renderable fun op member => open_of_plain (by revert op; decide)

end ReadingBack
end Bike4Mind.ApplyPatch
