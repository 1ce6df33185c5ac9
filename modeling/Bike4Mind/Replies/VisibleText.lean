import Bike4Mind.Replies.ThinkFilter
import Mathlib.Data.List.DropRight

/-! The filter that drops thinking blocks from a stream, and the pattern that drops them from a whole text. -/

namespace Bike4Mind.Replies

open Texts

def trimEnd (text : Text) : Text := (text.reverse.dropWhile isSpace).reverse

/-- `/<think>[\s\S]*?<\/think>/` -/
def thinkBlock : Regex CodeUnit :=
  .seq (.literal THINK_OPEN_TAG) (.seq (.star false (.unit fun _ => true)) (.literal THINK_CLOSE_TAG))

def withoutBlocks (text : Text) : Text := thinkBlock.replace text fun _ => []

def stripThinkingBlocks (text : Text) : Text := trim (withoutBlocks text)

structure VisibleTextFilter where
  insideThinkBlock : Bool := false
  held : Text := []
  pendingWhitespace : Text := []
  releasedAny : Bool := false
  deriving DecidableEq

/-- What a pass over the buffer leaves: what is visible of it, and what is held. -/
structure Scanned where
  visible : Text
  insideThinkBlock : Bool
  held : Text
  deriving DecidableEq

def Scanned.after (scanned : Scanned) (before : Text) : Scanned := { scanned with visible := before ++ scanned.visible }

/-- The loop of `push`: inside a block, and outside. -/
def scanBlocks : (insideThinkBlock : Bool) → (buffer : Text) → Scanned
  | true, buffer =>
    match _found : indexOf THINK_CLOSE_TAG buffer 0 with
    | none => ⟨[], true, buffer⟩
    | some closeAt => scanBlocks false (buffer.drop (closeAt + THINK_CLOSE_TAG.length))
  | false, buffer =>
    match _found : indexOf THINK_OPEN_TAG buffer 0 with
    | none => ⟨buffer.take (buffer.length - partialTagLength THINK_OPEN_TAG buffer), false,
        buffer.drop (buffer.length - partialTagLength THINK_OPEN_TAG buffer)⟩
    | some openAt => (scanBlocks true (buffer.drop (openAt + THINK_OPEN_TAG.length))).after (buffer.take openAt)
termination_by _ buffer => buffer.length
decreasing_by
  · have bounds := (indexOf_bounds (Nat.zero_le _) _found).2
    have size : THINK_CLOSE_TAG.length = 8 := by decide
    rw [List.length_drop]
    omega
  · have bounds := (indexOf_bounds (Nat.zero_le _) _found).2
    have size : THINK_OPEN_TAG.length = 7 := by decide
    rw [List.length_drop]
    omega

namespace VisibleTextFilter

def release (f : VisibleTextFilter) (text : Text) : Text × VisibleTextFilter :=
  let candidate := if f.releasedAny then f.pendingWhitespace ++ text else trimStart text
  let body := trimEnd candidate
  if body = [] then ([], if f.releasedAny then { f with pendingWhitespace := candidate } else f)
  else (body, { f with releasedAny := true, pendingWhitespace := candidate.drop body.length })

def push (f : VisibleTextFilter) (chunk : Text) : Text × VisibleTextFilter :=
  let scanned := scanBlocks f.insideThinkBlock (f.held ++ chunk)
  release { f with insideThinkBlock := scanned.insideThinkBlock, held := scanned.held } scanned.visible

/-- What is neither dropped nor visible yet. -/
def unresolved (f : VisibleTextFilter) : Text := if f.insideThinkBlock then THINK_OPEN_TAG ++ f.held else f.held

/-- `end` -/
def endOfStream (f : VisibleTextFilter) : Text × VisibleTextFilter :=
  release { f with held := [], insideThinkBlock := false } f.unresolved

def stream (f : VisibleTextFilter) : List Text → Text
  | [] => f.endOfStream.1
  | chunk :: rest => (f.push chunk).1 ++ (f.push chunk).2.stream rest

end VisibleTextFilter

/-! ### Dropping the blocks -/

section Blocks
variable {text rest piece body : Text}

/-- A block around what is between its markers. -/
def blockOf (between : Run CodeUnit) : Run CodeUnit :=
  ⟨THINK_OPEN_TAG ++ (between.whole ++ THINK_CLOSE_TAG), between.rest.drop THINK_CLOSE_TAG.length, between.captures ++ []⟩

theorem thinkBlock_first (text : Text) : thinkBlock.first text = if THINK_OPEN_TAG <+: text then
    (indexOf THINK_CLOSE_TAG (text.drop THINK_OPEN_TAG.length) 0).map fun i =>
      blockOf ⟨(text.drop THINK_OPEN_TAG.length).take i, (text.drop THINK_OPEN_TAG.length).drop i, []⟩ else none := by
  rw [Regex.first_eq_find, thinkBlock, Regex.find_seq, Regex.find_literal]
  by_cases opens : THINK_OPEN_TAG <+: text
  · rw [if_pos opens, if_pos opens, Regex.find_seq]
    refine @Regex.find_upto _ (fun rest => decide (THINK_CLOSE_TAG <+: rest)) _ _ _ blockOf fun run => ?_
    rw [Regex.find_literal]
    simp only [decide_eq_true_eq]
    rfl
  · rw [if_neg opens, if_neg opens]

theorem open_ne_nil : THINK_OPEN_TAG ≠ [] := by decide

theorem without_nil : withoutBlocks [] = [] := rfl

theorem without_plain {c : CodeUnit} (fails : ¬THINK_OPEN_TAG <+: c :: rest) : withoutBlocks (c :: rest) = c :: withoutBlocks rest :=
  Regex.replace_plain (fun _ _ _ _ => rfl) (by rw [thinkBlock_first, if_neg fails])

theorem without_piece (free : ∀ i < piece.length, ¬THINK_OPEN_TAG <+: (piece ++ rest).drop i) :
    withoutBlocks (piece ++ rest) = piece ++ withoutBlocks rest := by
  induction piece with
  | nil => rfl
  | cons c piece ih =>
    have here := free 0 (Nat.succ_pos _)
    have later := ih fun i inside => free (i + 1) (Nat.succ_lt_succ inside)
    exact (without_plain here).trans (congrArg (c :: ·) later)

theorem without_shown (absent : ¬THINK_OPEN_TAG <:+: text) : withoutBlocks text = text := by
  have whole := @without_piece [] text
  rw [List.append_nil, without_nil] at whole
  rw [List.append_nil] at whole
  apply whole
  intro i _ starts
  exact absent (starts.isInfix.trans (List.drop_suffix i text).isInfix)

theorem without_block {closeAt : Nat} (seek : indexOf THINK_CLOSE_TAG body 0 = some closeAt) :
    withoutBlocks (THINK_OPEN_TAG ++ body) = withoutBlocks (body.drop (closeAt + THINK_CLOSE_TAG.length)) := by
  have taken := thinkBlock_first (THINK_OPEN_TAG ++ body)
  rw [if_pos (List.prefix_append ..), List.drop_left, seek] at taken
  have moved : THINK_OPEN_TAG ++ (body.take closeAt ++ THINK_CLOSE_TAG) ≠ [] := by
    intro none
    exact close_ne_nil (List.append_eq_nil_iff.mp (List.append_eq_nil_iff.mp none).2).2
  unfold withoutBlocks
  rw [Regex.replace_found (fun _ _ _ _ => rfl) taken moved, List.nil_append, ← List.drop_drop]
  rfl

theorem without_open (absent : ¬THINK_CLOSE_TAG <:+: text.drop THINK_OPEN_TAG.length) : withoutBlocks text = text := by
  induction text with
  | nil => rfl
  | cons c rest ih =>
    have fails : thinkBlock.first (c :: rest) = none := by
      rw [thinkBlock_first, (indexOf_none close_ne_nil).mpr absent]
      exact ite_self _
    have later : ¬THINK_CLOSE_TAG <:+: rest.drop THINK_OPEN_TAG.length := by
      intro inside
      apply absent
      apply inside.trans
      have size : THINK_OPEN_TAG.length = 6 + 1 := by decide
      rw [size, List.drop_succ_cons, ← List.drop_drop]
      exact (List.drop_suffix 1 _).isInfix
    exact (Regex.replace_plain (fun _ _ _ _ => rfl) fails).trans (congrArg (c :: ·) (ih later))

end Blocks

/-! ### The scan agrees -/

section Scan
variable {inside : Bool} {buffer : Text}

/-- The text that a block, or none, leads. -/
def reopened (inside : Bool) (text : Text) : Text := if inside then THINK_OPEN_TAG ++ text else text

theorem reopened_append (inside : Bool) (text rest : Text) : reopened inside (text ++ rest) = reopened inside text ++ rest := by
  cases inside with
  | false => rfl
  | true => exact (List.append_assoc ..).symm

theorem scan_without (inside : Bool) (buffer rest : Text) : withoutBlocks (reopened inside (buffer ++ rest)) =
    (scanBlocks inside buffer).visible ++ withoutBlocks (reopened (scanBlocks inside buffer).insideThinkBlock ((scanBlocks inside buffer).held ++ rest)) := by
  fun_induction scanBlocks inside buffer with
  | case1 buffer absent => exact (List.nil_append _).symm
  | case2 buffer closeAt found ih =>
    have fits := (indexOf_bounds (Nat.zero_le _) found).2
    refine Eq.trans ?_ ih
    show withoutBlocks (THINK_OPEN_TAG ++ (buffer ++ rest)) = withoutBlocks (buffer.drop _ ++ rest)
    rw [without_block (indexOf_append found rest), List.drop_append_of_le_length fits]
  | case3 buffer absent =>
    have parts : buffer ++ rest = buffer.take (buffer.length - partialTagLength THINK_OPEN_TAG buffer) ++
        (buffer.drop (buffer.length - partialTagLength THINK_OPEN_TAG buffer) ++ rest) := by
      rw [← List.append_assoc, List.take_append_drop]
    have free := @no_tag_starts _ _ THINK_OPEN_TAG buffer ((indexOf_none open_ne_nil).mp absent) rest
    show withoutBlocks (buffer ++ rest) = _ ++ withoutBlocks (_ ++ rest)
    rw [parts] at free ⊢
    apply without_piece
    intro i inside
    apply free
    rw [List.length_take] at inside
    omega
  | case4 buffer openAt found ih =>
    obtain ⟨_, _, ⟨after, front⟩, least⟩ := (indexOf_eq_some (Nat.zero_le _)).mp (indexOf_append found rest)
    obtain ⟨_, within, starts, _⟩ := (indexOf_eq_some (Nat.zero_le _)).mp found
    have fits := (indexOf_bounds (Nat.zero_le _) found).2
    have beyond : after = buffer.drop (openAt + THINK_OPEN_TAG.length) ++ rest := by
      rw [← List.drop_append_of_le_length fits, ← List.drop_drop, ← front, List.drop_left]
    have parts : buffer ++ rest = buffer.take openAt ++ (THINK_OPEN_TAG ++ (buffer.drop (openAt + THINK_OPEN_TAG.length) ++ rest)) := by
      rw [← beyond, front, List.drop_append_of_le_length within, ← List.append_assoc, List.take_append_drop]
    refine Eq.trans ?_ ((congrArg (buffer.take openAt ++ ·) ih).trans (List.append_assoc ..).symm)
    show withoutBlocks (buffer ++ rest) = _
    rw [parts] at least ⊢
    apply without_piece
    intro i inside
    apply least i (Nat.zero_le _)
    rw [List.length_take] at inside
    omega

/-- What is held has no end of its block, or no block. -/
theorem scan_held (inside : Bool) (buffer : Text) : withoutBlocks (reopened (scanBlocks inside buffer).insideThinkBlock (scanBlocks inside buffer).held) =
    reopened (scanBlocks inside buffer).insideThinkBlock (scanBlocks inside buffer).held := by
  fun_induction scanBlocks inside buffer with
  | case1 buffer absent =>
    apply without_open
    show ¬THINK_CLOSE_TAG <:+: (THINK_OPEN_TAG ++ buffer).drop _
    rw [List.drop_left]
    exact (indexOf_none close_ne_nil).mp absent
  | case2 buffer closeAt found ih => exact ih
  | case3 buffer absent =>
    apply without_shown
    intro inside
    exact (indexOf_none open_ne_nil).mp absent (inside.trans (List.drop_suffix _ buffer).isInfix)
  | case4 buffer openAt found ih => exact ih

end Scan

/-! ### The release agrees -/

section Release
variable {f : VisibleTextFilter} {seen released text rest : Text}

theorem trim_eq (text : Text) : trim text = trimEnd (trimStart text) := rfl

theorem trimEnd_append (text rest : Text) : trimEnd (text ++ rest) = if trimEnd rest = [] then trimEnd text else text ++ trimEnd rest := by
  unfold trimEnd
  rw [List.reverse_append, List.dropWhile_append]
  simp only [List.isEmpty_iff, List.reverse_eq_nil_iff]
  split
  · rfl
  · rw [List.reverse_append, List.reverse_reverse]

theorem trimEnd_prefix (text : Text) : trimEnd text <+: text := by
  unfold trimEnd
  rw [← List.reverse_suffix, List.reverse_reverse]
  exact List.dropWhile_suffix isSpace

theorem trimEnd_trim (text : Text) : trimEnd (trim text) = trim text := by
  rw [trim_eq]
  unfold trimEnd
  rw [List.reverse_reverse, List.dropWhile_idempotent]

/-- What has gone out of all that was visible so far. -/
structure Released (f : VisibleTextFilter) (seen released : Text) : Prop where
  trimmed : released = trim seen
  some_iff : f.releasedAny = true ↔ released ≠ []
  pending : f.releasedAny = true → released ++ f.pendingWhitespace = trimStart seen

theorem release_keeps (out : Released f seen released) (text : Text) : Released (f.release text).2 (seen ++ text) (released ++ (f.release text).1) := by
  obtain ⟨trimmed, some_iff, pending⟩ := out
  unfold VisibleTextFilter.release
  cases any : f.releasedAny with
  | false =>
    have none : released = [] := by
      by_contra some
      rw [some_iff.mpr some] at any
      cases any
    have blank : trimStart seen = [] := List.dropWhile_eq_nil_iff.mpr (trim_eq_nil.mp (trimmed.symm.trans none))
    have start : trimStart (seen ++ text) = trimStart text := by rw [trimStart_append, if_pos blank]
    subst none
    simp only [Bool.false_eq_true, if_false, List.nil_append]
    by_cases empty : trimEnd (trimStart text) = []
    · rw [if_pos empty]
      exact ⟨by rw [trim_eq, start, empty], by simp [any], by simp [any]⟩
    · rw [if_neg empty]
      refine ⟨by rw [trim_eq, start], iff_of_true rfl empty, fun _ => ?_⟩
      rw [start]
      exact List.prefix_append_drop ( trimEnd_prefix _) |>.symm
  | true =>
    have some := some_iff.mp any
    have front := pending any
    have started : trimStart seen ≠ [] := by
      intro blank
      rw [blank] at front
      exact some (List.append_eq_nil_iff.mp front).1
    have start : trimStart (seen ++ text) = released ++ (f.pendingWhitespace ++ text) := by
      rw [trimStart_append, if_neg started, ← front, List.append_assoc]
    have whole : trim (seen ++ text) = if trimEnd (f.pendingWhitespace ++ text) = [] then released
        else released ++ trimEnd (f.pendingWhitespace ++ text) := by
      rw [trim_eq, start, trimEnd_append, trimmed, trimEnd_trim]
    simp only [if_pos]
    by_cases empty : trimEnd (f.pendingWhitespace ++ text) = []
    · rw [if_pos empty] at whole ⊢
      rw [List.append_nil]
      exact ⟨whole.symm, iff_of_true rfl some, fun _ => start.symm⟩
    · rw [if_neg empty] at whole ⊢
      refine ⟨whole.symm, iff_of_true rfl fun none => some (List.append_eq_nil_iff.mp none).1, fun _ => ?_⟩
      rw [start, List.append_assoc]
      exact congrArg (released ++ ·) (List.prefix_append_drop ( trimEnd_prefix _)).symm

theorem release_unresolved (f : VisibleTextFilter) (text : Text) : (f.release text).2.unresolved = f.unresolved := by
  unfold VisibleTextFilter.release
  cases f.releasedAny <;> simp only [Bool.false_eq_true, if_false, if_true] <;> split <;> rfl

/-- The filter after the scan of a chunk. -/
def afterScan (f : VisibleTextFilter) (chunk : Text) : VisibleTextFilter :=
  { f with insideThinkBlock := (scanBlocks f.insideThinkBlock (f.held ++ chunk)).insideThinkBlock,
           held := (scanBlocks f.insideThinkBlock (f.held ++ chunk)).held }

theorem stream_released (out : Released f seen released) (resolved : withoutBlocks f.unresolved = f.unresolved) (chunks : List Text) :
    released ++ f.stream chunks = trim (seen ++ withoutBlocks (f.unresolved ++ chunks.flatten)) := by
  induction chunks generalizing f seen released with
  | nil =>
    have last : Released { f with held := [], insideThinkBlock := false } seen released := ⟨out.trimmed, out.some_iff, out.pending⟩
    rw [List.flatten_nil, List.append_nil, resolved]
    exact (release_keeps last f.unresolved).trimmed
  | cons chunk chunks ih =>
    have same : f.unresolved ++ (chunk ++ chunks.flatten) = reopened f.insideThinkBlock (f.held ++ chunk ++ chunks.flatten) := by
      rw [List.append_assoc, reopened_append]
      rfl
    have scanned : Released (afterScan f chunk) seen released := ⟨out.trimmed, out.some_iff, out.pending⟩
    have pushed : f.push chunk = (afterScan f chunk).release (scanBlocks f.insideThinkBlock (f.held ++ chunk)).visible := rfl
    have next := release_keeps scanned (scanBlocks f.insideThinkBlock (f.held ++ chunk)).visible
    rw [← pushed] at next
    have kept : (f.push chunk).2.unresolved = reopened (scanBlocks f.insideThinkBlock (f.held ++ chunk)).insideThinkBlock
        (scanBlocks f.insideThinkBlock (f.held ++ chunk)).held := release_unresolved (afterScan f chunk) _
    have later := ih next (by rw [kept, scan_held])
    rw [VisibleTextFilter.stream, ← List.append_assoc, later, List.flatten_cons, same, scan_without, List.append_assoc, kept, reopened_append]

end Release

/-! ### The three filters -/

/-- Whatever the chunks, each filter gives what its rule gives of the whole text. -/
theorem filters_agree (chunks : List Text) :
    (({} : ThinkFilter).stream chunks = splitText 0 chunks.flatten ∧
      (splitText 0 chunks.flatten).text = (scanPieces 0 [] (THINK_TAG_TOKENS.split chunks.flatten)).2) ∧
    ({} : PrefilledFilter).stream chunks = upToClose (trimStart chunks.flatten) ∧
    ({} : VisibleTextFilter).stream chunks = stripThinkingBlocks chunks.flatten := by
  refine ⟨⟨stream_split {} chunks, splitText_text⟩, PrefilledFilter.stream_phases {} chunks, ?_⟩
  have start : Released {} [] [] := ⟨rfl, by simp, by simp⟩
  exact stream_released start without_nil chunks

end Bike4Mind.Replies
