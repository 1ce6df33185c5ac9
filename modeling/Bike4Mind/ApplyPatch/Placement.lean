import Bike4Mind.ApplyPatch.Patch
import Bike4Mind.Collections.Splice

/-! Where the hunks of a patch land, and what they leave as it was. -/

namespace Bike4Mind.ApplyPatch
open Collections

/-- The lists of a hunk agree with its body, as the parser fills them. -/
structure PatchChunk.Parsed (chunk : PatchChunk) : Prop where
  oldLines : chunk.oldLines = (chunk.body.filter (·.1 ≠ .added)).map (·.2)
  newLines : chunk.newLines = (chunk.body.filter (·.1 ≠ .removed)).map (·.2)
  addedLines : chunk.addedLines = (chunk.body.filter (·.1 = .added)).map (·.2)

/-- The body of a hunk over the lines it matched: added lines, and the file's own for context. A body line
past the matched ones is the blank that the match went without. -/
def merged {α : Type} (written : String → α) : List (Mark × String) → List α → List α
  | [], _ => []
  | (.added, text) :: rest, own => written text :: merged written rest own
  | (.context, _) :: rest, line :: own => line :: merged written rest own
  | (.removed, _) :: rest, _ :: own => merged written rest own
  | (_, _) :: rest, [] => merged written rest []

/-- Where the anchors and the old lines of a hunk were found. -/
structure Placement where
  anchors : List Nat
  start : Nat
  length : Nat
  level : MatchLevel

/-- The lines of `fileLines` that a placement covers. -/
def Placement.covered {α : Type} (p : Placement) (fileLines : List α) : List α := (fileLines.drop p.start).take p.length

/-- The file's lines and the given ones read the same at this level. -/
def SameLines (level : MatchLevel) (lines pattern : List String) : Prop := lines.map level.view = pattern.map level.view

structure Placed (fileLines : List String) (chunk : PatchChunk) (p : Placement) : Prop where
  anchored : List.Forall₂ (fun anchor index => ∃ level line, fileLines[index]? = some line ∧ SameLines level [line] [anchor])
    chunk.anchors p.anchors
  after : (p.anchors ++ [p.start]).Pairwise (· < ·)
  inside : p.start + p.length ≤ fileLines.length
  nonempty : 0 < p.length
  matched : ∃ pattern, (pattern = chunk.oldLines ∨ pattern ++ [""] = chunk.oldLines) ∧
    SameLines p.level (p.covered fileLines) pattern

def PatchChunk.replaces (chunk : PatchChunk) : Bool := chunk.oldLines.length ≠ 0

/-- A hunk, applied where it landed. -/
def PatchChunk.cut {α : Type} (written : String → α) (fileLines : List α) (chunk : PatchChunk) (p : Placement) : Cut α :=
  ⟨p.start, p.length, merged written chunk.body (p.covered fileLines)⟩

/-- The hunks with old lines applied where they landed, in order. -/
def cuts {α : Type} (written : String → α) (fileLines : List α) (chunks : List PatchChunk) (placed : List Placement) : List (Cut α) :=
  List.zipWith (PatchChunk.cut written fileLines) (chunks.filter PatchChunk.replaces) placed

/-- The added lines of the hunks without old ones. -/
def appended (chunks : List PatchChunk) : List String := (chunks.filter (!·.replaces)).flatMap PatchChunk.newLines

def Replacement.cut (r : Replacement) : Cut String := ⟨r.start, r.length, r.lines⟩

/-- The replacement starts inside a file of `n` lines. -/
def Replacement.within (n : Nat) (r : Replacement) : Bool := r.start < n

section Seeking
variable {lines pattern : List String} {start index : Nat} {endOfFile : Bool} {level : MatchLevel}

theorem seekSequence_spec (found : seekSequence lines pattern start endOfFile = some (index, level)) :
    0 < pattern.length ∧ start ≤ index ∧ index + pattern.length ≤ lines.length ∧
      SameLines level ((lines.drop index).take pattern.length) pattern := by
  unfold seekSequence at found
  split at found
  · cases found
  rename_i nonempty
  obtain ⟨at_level, -, found⟩ := List.exists_of_findSome?_eq_some found
  dsimp only at found
  split at found
  · rename_i last
    cases found
    obtain ⟨-, fits, same⟩ := last
    refine ⟨by omega, by omega, by omega, (of_decide_eq_true same).symm⟩
  · obtain ⟨place, found, same⟩ := Option.map_eq_some_iff.mp found
    cases same
    have matched := List.find?_some found
    have range := List.mem_of_find?_eq_some found
    rw [List.mem_range'_1] at range
    refine ⟨by omega, by omega, by omega, (of_decide_eq_true matched).symm⟩

/-- A hunk is matched by its old lines, or by those without a blank last one. -/
theorem seekChunk_spec {chunk : PatchChunk} (found : seekChunk lines chunk start = (some (index, level), pattern)) :
    (pattern = chunk.oldLines ∨ pattern ++ [""] = chunk.oldLines) ∧ 0 < pattern.length ∧ start ≤ index ∧
      index + pattern.length ≤ lines.length ∧ SameLines level ((lines.drop index).take pattern.length) pattern := by
  unfold seekChunk at found
  split at found
  · rename_i sought
    cases found
    exact ⟨Or.inl rfl, seekSequence_spec sought⟩
  · split at found
    · rename_i blank
      obtain ⟨sought, rfl⟩ := Prod.mk.inj found
      exact ⟨Or.inr (List.dropLast_append_getLast? "" blank), seekSequence_spec sought⟩
    · cases found

end Seeking

/-! ### What one hunk writes -/

/-- One turn of the loop of `replacementLines`. -/
def replaceLine (fileLines : List String) (start matched : Nat) (s : List String × Nat) (line : Mark × String) : List String × Nat :=
  match line.1 with
  | .added => (s.1 ++ [line.2], s.2)
  | .context => (if s.2 < matched then s.1 ++ (fileLines[start + s.2]?).toList else s.1, s.2 + 1)
  | .removed => (s.1, s.2 + 1)

section Merging
variable {body : List (Mark × String)} {fileLines : List String} {start matched seen : Nat}

theorem replacementLines_go (out : List String) (inside : start + matched ≤ fileLines.length) :
    (body.foldl (replaceLine fileLines start matched) (out, seen)).1 =
      out ++ merged id body (((fileLines.drop start).take matched).drop seen) := by
  induction body generalizing out seen with
  | nil => simp [merged]
  | cons line rest ih =>
    obtain ⟨mark, text⟩ := line
    have own : seen < matched → ((fileLines.drop start).take matched).drop seen =
        (fileLines[start + seen]?).toList ++ ((fileLines.drop start).take matched).drop (seen + 1) := by
      intro before
      have within : start + seen < fileLines.length := by omega
      have short : seen < ((fileLines.drop start).take matched).length := by
        rw [List.length_take, List.length_drop]
        omega
      rw [List.drop_eq_getElem_cons short, List.getElem?_eq_getElem within]
      simp
    have past : ¬ seen < matched → ∀ k, seen ≤ k → ((fileLines.drop start).take matched).drop k = [] := by
      intro behind k beyond
      refine List.drop_of_length_le ?_
      rw [List.length_take, List.length_drop]
      omega
    rw [List.foldl_cons]
    cases mark with
    | added =>
      show (rest.foldl (replaceLine fileLines start matched) (out ++ [text], seen)).1 = _
      rw [ih]
      simp [merged]
    | context =>
      show (rest.foldl (replaceLine fileLines start matched)
        (if seen < matched then out ++ (fileLines[start + seen]?).toList else out, seen + 1)).1 = _
      rw [ih]
      by_cases before : seen < matched
      · have within : start + seen < fileLines.length := by omega
        rw [own before, List.getElem?_eq_getElem within]
        simp [merged, before]
      · rw [past before _ (Nat.le_refl _), past before _ (Nat.le_succ _)]
        simp [merged, before]
    | removed =>
      show (rest.foldl (replaceLine fileLines start matched) (out, seen + 1)).1 = _
      rw [ih]
      by_cases before : seen < matched
      · have within : start + seen < fileLines.length := by omega
        rw [own before, List.getElem?_eq_getElem within]
        simp [merged]
      · rw [past before _ (Nat.le_refl _), past before _ (Nat.le_succ _)]
        simp [merged]

theorem replacementLines_merged {chunk : PatchChunk} (inside : start + matched ≤ fileLines.length) :
    replacementLines chunk fileLines start matched = merged id chunk.body ((fileLines.drop start).take matched) := by
  refine Eq.trans (?_ : _ = (chunk.body.foldl (replaceLine fileLines start matched) ([], 0)).1) ?_
  · rfl
  · rw [replacementLines_go [] inside]
    simp

theorem merged_map {α β : Type} {written : String → α} {f : α → β} {own : List α} :
    (merged written body own).map f = merged (f ∘ written) body (own.map f) := by
  induction body, own using merged.induct with
  | case1 own => simp [merged]
  | case2 text rest own ih => simp [merged, ih]
  | case3 text rest line own ih => simp [merged, ih]
  | case4 text rest line own ih => simp [merged, ih]
  | case5 mark text rest other ih =>
    cases mark with
    | added => exact (other rfl).elim
    | context => simpa [merged] using ih
    | removed => simpa [merged] using ih

end Merging

/-! ### Locating -/

/-- What locating a hunk adds to the replacements. -/
inductive Located (fileLines : List String) (s : Locating) (chunk : PatchChunk) (s' : Locating) : Prop where
  | inserted (pure : chunk.replaces = false) (cursor : s'.cursor = s.cursor)
      (written : s'.replacements = s.replacements ++ [⟨fileLines.length, 0, chunk.newLines⟩])
  | replaced (p : Placement) (replaces : chunk.replaces = true) (placed : Placed fileLines chunk p) (first : s.cursor ≤ p.start)
      (cursor : s'.cursor = p.start + p.length)
      (written : s'.replacements = s.replacements ++ [⟨p.start, p.length, merged id chunk.body (p.covered fileLines)⟩])

section Locating
variable {describeMiss : List String → List String → Nat → List OtherFile → String}
variable {fileLines : List String} {others : List OtherFile} {s s' : Locating} {hunk total : Nat} {label : String}

theorem seekAnchors_missed {anchors : List String} {start : Nat}
    (sought : seekAnchors describeMiss fileLines hunk label anchors start s = (s', none)) : s'.failures ≠ [] := by
  induction anchors generalizing start s with
  | nil => cases sought
  | cons anchor rest ih =>
    unfold seekAnchors at sought
    split at sought
    · cases sought
      simp [Locating.fail]
    · exact ih sought

theorem seekAnchors_found {anchors : List String} {start after : Nat}
    (sought : seekAnchors describeMiss fileLines hunk label anchors start s = (s', some after)) :
    s'.failures = s.failures ∧ s'.replacements = s.replacements ∧ s'.cursor = s.cursor ∧ start ≤ after ∧
      ∃ places, List.Forall₂ (fun anchor index => ∃ level line, fileLines[index]? = some line ∧ SameLines level [line] [anchor])
        anchors places ∧ places.Pairwise (· < ·) ∧ ∀ index ∈ places, start ≤ index ∧ index < after := by
  induction anchors generalizing start s with
  | nil =>
    cases sought
    exact ⟨rfl, rfl, rfl, Nat.le_refl _, [], .nil, .nil, fun _ member => nomatch member⟩
  | cons anchor rest ih =>
    unfold seekAnchors at sought
    split at sought
    · cases sought
    rename_i index level found
    obtain ⟨-, first, inside, same⟩ := seekSequence_spec found
    obtain ⟨failures, replacements, cursor, later, places, anchored, ascending, within⟩ := ih sought
    have there : index < fileLines.length := by
      simp only [List.length_singleton] at inside
      omega
    refine ⟨failures, replacements, cursor, by omega, index :: places, .cons ⟨level, _, List.getElem?_eq_getElem there, ?_⟩ anchored,
      .cons (fun other member => ?_) ascending, fun other member => ?_⟩
    · rw [List.drop_eq_getElem_cons there] at same
      exact same
    · have := within other member
      omega
    · rcases List.mem_cons.mp member with rfl | member
      · omega
      · have := within other member
        omega

theorem locateChunk_failures {chunk : PatchChunk} (failed : s.failures ≠ []) :
    (locateChunk describeMiss fileLines others total s hunk chunk).failures ≠ [] := by
  unfold locateChunk
  dsimp only
  split
  · rename_i after sought
    exact seekAnchors_missed sought
  rename_i after start sought
  have kept := (seekAnchors_found sought).1
  split
  · rwa [kept]
  · split
    · simp [Locating.fail]
    · show after.failures ≠ []
      rwa [kept]

theorem locateChunk_located {chunk : PatchChunk} (clean : (locateChunk describeMiss fileLines others total s hunk chunk).failures = []) :
    Located fileLines s chunk (locateChunk describeMiss fileLines others total s hunk chunk) := by
  unfold locateChunk at clean ⊢
  dsimp only at clean ⊢
  split at clean
  · rename_i after sought
    exact (seekAnchors_missed sought clean).elim
  rename_i after start sought
  obtain ⟨-, replacements, cursor, later, places, anchored, ascending, within⟩ := seekAnchors_found sought
  split
  · rename_i pure
    exact .inserted (by simp [PatchChunk.replaces, pure]) cursor (by rw [replacements])
  rename_i replaces
  rw [if_neg replaces] at clean
  split at clean
  · simp [Locating.fail] at clean
  rename_i index level pattern found
  obtain ⟨lines, nonempty, first, inside, same⟩ := seekChunk_spec found
  refine .replaced ⟨places, index, pattern.length, level⟩ (by simpa [PatchChunk.replaces] using replaces)
    ⟨anchored, ?_, inside, nonempty, pattern, lines, same⟩ (by show s.cursor ≤ index; omega) rfl ?_
  · refine List.pairwise_append.mpr ⟨ascending, List.pairwise_singleton _ _, fun place member other last => ?_⟩
    cases List.mem_singleton.mp last
    have := within place member
    show place < index
    omega
  · show after.replacements ++ _ = _
    rw [replacements, replacementLines_merged inside]
    rfl

/-- Where every hunk of a run landed, with what each wrote. -/
structure LocatedAll (fileLines : List String) (k : Nat) (chunks : List PatchChunk) (found : List Replacement)
    (placed : List Placement) : Prop where
  landed : List.Forall₂ (Placed fileLines) (chunks.filter PatchChunk.replaces) placed
  ascending : Ascending fileLines.length k (cuts id fileLines chunks placed)
  low : (found.filter (·.within fileLines.length)).map Replacement.cut = cuts id fileLines chunks placed
  high : found.filter (!·.within fileLines.length) =
    (chunks.filter (!·.replaces)).map fun chunk => ⟨fileLines.length, 0, chunk.newLines⟩

theorem fold_failures {numbered : List (PatchChunk × Nat)} (failed : s.failures ≠ []) :
    (numbered.foldl (fun s c => locateChunk describeMiss fileLines others total s (c.2 + 1) c.1) s).failures ≠ [] := by
  induction numbered generalizing s with
  | nil => exact failed
  | cons c rest ih => exact ih (locateChunk_failures failed)

theorem fold_located {numbered : List (PatchChunk × Nat)} (inside : s.cursor ≤ fileLines.length)
    (clean : (numbered.foldl (fun s c => locateChunk describeMiss fileLines others total s (c.2 + 1) c.1) s).failures = []) :
    ∃ found placed, (numbered.foldl (fun s c => locateChunk describeMiss fileLines others total s (c.2 + 1) c.1) s).replacements =
        s.replacements ++ found ∧ LocatedAll fileLines s.cursor (numbered.map (·.1)) found placed := by
  induction numbered generalizing s with
  | nil => exact ⟨[], [], by simp, .nil, inside, rfl, rfl⟩
  | cons c rest ih =>
    rw [List.foldl_cons] at clean ⊢
    generalize stepped : locateChunk describeMiss fileLines others total s (c.2 + 1) c.1 = mid at clean ⊢
    have still : mid.failures = [] := by
      by_contra failed
      exact fold_failures failed clean
    have located : Located fileLines s c.1 mid := stepped ▸ locateChunk_located (stepped ▸ still)
    cases located with
    | inserted pure cursor written =>
      obtain ⟨found, placed, total, all⟩ := ih (cursor ▸ inside) clean
      refine ⟨⟨fileLines.length, 0, c.1.newLines⟩ :: found, placed, by rw [total, written]; simp, ?_, ?_, ?_, ?_⟩
      · simpa [pure] using all.landed
      · simpa [cuts, pure, cursor] using all.ascending
      · simpa [cuts, pure, Replacement.within] using all.low
      · simpa [pure, Replacement.within] using all.high
    | replaced p replaces here first cursor written =>
      have fits := here.inside
      have nonempty := here.nonempty
      obtain ⟨found, placed, total, all⟩ := ih (by omega) clean
      have low : p.start < fileLines.length := by omega
      refine ⟨⟨p.start, p.length, merged id c.1.body (p.covered fileLines)⟩ :: found, p :: placed,
        by rw [total, written]; simp, ?_, ?_, ?_, ?_⟩
      · simpa [replaces] using ⟨here, all.landed⟩
      · have later := all.ascending
        rw [cursor] at later
        simpa [cuts, replaces] using ⟨first, later⟩
      · have same := all.low
        unfold cuts at same ⊢
        rw [List.filter_cons_of_pos (by simpa [Replacement.within] using low), List.map_cons, same, List.map_cons,
          List.filter_cons_of_pos replaces, List.zipWith_cons_cons]
        rfl
      · rw [List.filter_cons_of_neg (by simpa [Replacement.within] using low), all.high, List.map_cons,
          List.filter_cons_of_neg (by simp [replaces])]

end Locating

/-! ### The edited file -/

section Edited
variable {describeMiss : List String → List String → Nat → List OtherFile → String}
variable {fileLines : List String} {chunks : List PatchChunk} {others : List OtherFile}

theorem insertions_append {inserted : List PatchChunk} :
    (inserted.map fun chunk : PatchChunk => (⟨fileLines.length, 0, chunk.newLines⟩ : Cut String)).foldr Cut.splice fileLines =
      fileLines ++ inserted.flatMap PatchChunk.newLines := by
  induction inserted with
  | nil => simp
  | cons chunk rest ih =>
    rw [List.map_cons, List.foldr_cons, ih]
    simp [Cut.splice]

theorem cuts_intervals {α : Type} {written : String → α} {own : List α} {placed : List Placement}
    (landed : List.Forall₂ (Placed fileLines) (chunks.filter PatchChunk.replaces) placed) :
    (cuts written own chunks placed).map (fun c => (c.start, c.length)) = placed.map fun p => (p.start, p.length) := by
  unfold cuts
  generalize chunks.filter PatchChunk.replaces = hunks at landed ⊢
  induction landed with
  | nil => rfl
  | cons here rest ih => simp [ih, PatchChunk.cut]

theorem placed_apart {α : Type} {written : String → α} {own : List α} {placed : List Placement} {n : Nat}
    (landed : List.Forall₂ (Placed fileLines) (chunks.filter PatchChunk.replaces) placed)
    (ascending : Ascending n 0 (cuts written own chunks placed)) : placed.Pairwise (fun p q => p.start + p.length ≤ q.start) := by
  have apart := ascending.pairwise.1
  have same : (cuts written own chunks placed).map (fun c => (c.start, c.length)) = placed.map fun p => (p.start, p.length) :=
    cuts_intervals landed
  have intervals : (placed.map fun p => (p.start, p.length)).Pairwise (fun a b => a.1 + a.2 ≤ b.1) := by
    rw [← same, List.pairwise_map]
    exact apart
  exact List.pairwise_map.mp intervals

theorem merged_context {body : List (Mark × String)} {own : List String} (context : ∀ line ∈ body, line.1 = .context)
    (enough : own.length ≤ body.length) : merged id body own = own := by
  induction body generalizing own with
  | nil =>
    rw [List.eq_nil_of_length_eq_zero (Nat.le_zero.mp enough)]
    rfl
  | cons line rest ih =>
    obtain ⟨mark, text⟩ := line
    cases context (mark, text) List.mem_cons_self
    have later := fun own enough => @ih own (fun line member => context line (List.mem_cons_of_mem _ member)) enough
    cases own with
    | nil => exact later [] (Nat.zero_le _)
    | cons first own => exact congrArg (first :: ·) (later own (Nat.le_of_succ_le_succ enough))

theorem context_unchanged {chunk : PatchChunk} {p : Placement} (parsed : chunk.Parsed)
    (context : ∀ line ∈ chunk.body, line.1 = .context) (landed : Placed fileLines chunk p) :
    (chunk.cut id fileLines p).lines = p.covered fileLines := by
  have old : chunk.oldLines.length = chunk.body.length := by
    have all : chunk.body.filter (·.1 ≠ .added) = chunk.body :=
      List.filter_eq_self.mpr fun line member => by simp [context line member]
    rw [parsed.oldLines, all, List.length_map]
  refine merged_context context ?_
  obtain ⟨pattern, lines, same⟩ := landed.matched
  have long := congrArg List.length same
  simp only [List.length_map] at long
  rcases lines with rfl | shorter
  · omega
  · have := congrArg List.length shorter
    simp only [List.length_append] at this
    omega

theorem context_appends_nothing {chunk : PatchChunk} (parsed : chunk.Parsed) (context : ∀ line ∈ chunk.body, line.1 = .context)
    (pure : chunk.replaces = false) : chunk.newLines = [] := by
  have none : chunk.body = [] := by
    have old : chunk.oldLines = [] := by simpa [PatchChunk.replaces] using pure
    rw [parsed.oldLines, List.map_eq_nil_iff, List.filter_eq_nil_iff] at old
    refine List.eq_nil_iff_forall_not_mem.mpr fun line member => old line member ?_
    simp [context line member]
  rw [parsed.newLines, none]
  rfl

theorem applyChunks_placed (clean : (applyChunks describeMiss fileLines chunks others).failures = []) :
    ∃ placed, List.Forall₂ (Placed fileLines) (chunks.filter PatchChunk.replaces) placed ∧
      Ascending fileLines.length 0 (cuts id fileLines chunks placed) ∧
      (applyChunks describeMiss fileLines chunks others).lines =
        rebuild fileLines 0 (cuts id fileLines chunks placed) ++ appended chunks := by
  obtain ⟨found, placed, total, all⟩ := fold_located (Nat.zero_le _) clean
  rw [List.zipIdx_map_fst] at all
  refine ⟨placed, all.landed, all.ascending, ?_⟩
  have low : (found.filter (·.within fileLines.length)).Pairwise (fun a b => decide (a.start ≤ b.start) = true) := by
    have apart := all.ascending.pairwise.1
    rw [← all.low, List.pairwise_map] at apart
    refine apart.imp fun before => ?_
    simp only [Replacement.cut] at before
    exact decide_eq_true (by omega)
  have high : (found.filter (!·.within fileLines.length)).Pairwise
      (fun a b => decide (a.start ≤ b.start) = true) := by
    rw [all.high, List.pairwise_map]
    exact List.pairwise_of_forall fun a b => by simp
  have sorted := mergeSort_blocks (by simpa using fun a b c => Nat.le_trans) (by simpa using fun a b => Nat.le_total _ _)
    (fun a b before => by
      simp only [Replacement.within, decide_eq_true_eq] at before ⊢
      omega) low high
  have spliced : ∀ (l : List Replacement) (lines : List String),
      l.foldr (fun r lines => splice lines r) lines = (l.map Replacement.cut).foldr Cut.splice lines := by
    intro l lines
    rw [List.foldr_map]
    rfl
  unfold applyChunks
  dsimp only
  rw [total, List.nil_append, sorted, spliced, List.map_append, List.foldr_append, all.low, all.high, List.map_map]
  show (cuts id fileLines chunks placed).foldr Cut.splice (List.foldr Cut.splice fileLines
    ((chunks.filter (!·.replaces)).map fun chunk => ⟨fileLines.length, 0, chunk.newLines⟩)) = _
  rw [insertions_append, foldr_splice all.ascending (by simp), rebuild_append all.ascending]
  rfl

theorem hunks_edit_matched_lines (parsed : ∀ chunk ∈ chunks, chunk.Parsed)
    (clean : (applyChunks describeMiss fileLines chunks others).failures = []) :
    (∃ placed, List.Forall₂ (Placed fileLines) (chunks.filter PatchChunk.replaces) placed ∧
      placed.Pairwise (fun p q => p.start + p.length ≤ q.start) ∧
      (applyChunks describeMiss fileLines chunks others).lines =
        rebuild fileLines 0 (cuts id fileLines chunks placed) ++ appended chunks) ∧
    ((∀ chunk ∈ chunks, ∀ line ∈ chunk.body, line.1 = .context) →
      (applyChunks describeMiss fileLines chunks others).lines = fileLines) := by
  obtain ⟨placed, landed, ascending, edited⟩ := applyChunks_placed clean
  refine ⟨⟨placed, landed, placed_apart landed ascending, edited⟩, fun context => ?_⟩
  have same : ∀ c ∈ cuts id fileLines chunks placed, c.lines = (fileLines.drop c.start).take c.length := by
    intro c member
    obtain ⟨i, bound, rfl⟩ := List.getElem_of_mem member
    unfold cuts at bound ⊢
    rw [List.length_zipWith] at bound
    rw [List.getElem_zipWith]
    have hunk : (chunks.filter PatchChunk.replaces)[i] ∈ chunks.filter PatchChunk.replaces := List.getElem_mem _
    have within := (List.mem_filter.mp hunk).1
    exact context_unchanged (parsed _ within) (context _ within) (List.forall₂_iff_get.mp landed |>.2 i (by omega) (by omega))
  have nothing : appended chunks = [] := by
    refine List.flatMap_eq_nil_iff.mpr fun chunk member => ?_
    obtain ⟨member, pure⟩ := List.mem_filter.mp member
    exact context_appends_nothing (parsed chunk member) (context chunk member) (by simpa using pure)
  rw [edited, rebuild_same ascending same, nothing]
  simp

/-- A hunk on the second of two equal lines, behind an anchor, and one appended. -/
def Sample.repeatedLine : List PatchChunk := [
  { anchors := ["\x7d"], oldLines := ["x"], newLines := ["y"], body := [(.removed, "x"), (.added, "y")], addedLines := ["y"], endOfFile := false },
  { anchors := [], oldLines := [], newLines := ["end"], body := [(.added, "end")], addedLines := ["end"], endOfFile := false }]

theorem repeated_line_edited :
    (∃ placed, List.Forall₂ (Placed ["x", " \x7d", "x"]) (Sample.repeatedLine.filter PatchChunk.replaces) placed ∧
      placed.Pairwise (fun p q => p.start + p.length ≤ q.start) ∧
      (applyChunks (fun _ _ _ _ => "") ["x", " \x7d", "x"] Sample.repeatedLine).lines =
        rebuild ["x", " \x7d", "x"] 0 (cuts id ["x", " \x7d", "x"] Sample.repeatedLine placed) ++ appended Sample.repeatedLine) := by
  have clean : (applyChunks (fun _ _ _ _ => "") ["x", " \x7d", "x"] Sample.repeatedLine).failures = [] := by decide
  refine (hunks_edit_matched_lines (fun chunk member => ?_) clean).1
  simp only [Sample.repeatedLine, List.mem_cons, List.not_mem_nil, or_false] at member
  rcases member with rfl | rfl
  · exact ⟨rfl, rfl, rfl⟩
  · exact ⟨rfl, rfl, rfl⟩

end Edited
end Bike4Mind.ApplyPatch
