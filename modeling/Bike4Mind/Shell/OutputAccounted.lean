import Bike4Mind.Shell.OutputBuffer
import Mathlib.Algebra.BigOperators.Group.List.Basic
import Mathlib.Algebra.GroupWithZero.Nat
import Mathlib.Data.List.Chain

/-! What a buffer retains, and what reads deliver and report as missed. -/

namespace Bike4Mind.Shell
open Texts

/-! ### What is retained -/

def contents (entries : List Entry) : Text := entries.flatMap (·.text)

/-- The entries follow one another from `offset`, none of them empty. -/
def Contiguous : Nat → List Entry → Prop
  | _, [] => True
  | offset, entry :: rest => entry.offset = offset ∧ entry.text ≠ [] ∧ Contiguous (offset + entry.text.length) rest

theorem Contiguous.concat {offset : Nat} {entries : List Entry} {last : Entry} (contiguous : Contiguous offset entries)
    (next : last.offset = offset + (contents entries).length) (text : last.text ≠ []) : Contiguous offset (entries ++ [last]) := by
  induction entries generalizing offset with
  | nil => exact ⟨next, text, trivial⟩
  | cons entry rest ih =>
    obtain ⟨first, full, later⟩ := contiguous
    refine ⟨first, full, ih later ?_⟩
    rw [next, contents, List.flatMap_cons, List.length_append, Nat.add_assoc]
    rfl

/-- The buffer has what was produced from its start. -/
structure Retains (b : OutputBuffer) (produced : Text) : Prop where
  contiguous : Contiguous b.start b.entries
  contents : contents b.entries = produced.drop b.start
  endAt : b.endAt = produced.length
  retained : b.endAt = b.start + b.retained
  dropped : b.dropped = b.start

namespace OutputBuffer

theorem trimEntries_retains (b : OutputBuffer) (entries : List Entry) {produced : Text} (retains : Retains { b with entries } produced) :
    Retains (b.trimEntries entries) produced ∧ (b.trimEntries entries).capacity = b.capacity ∧
      (b.trimEntries entries).start = max b.start (produced.length - b.capacity) := by
  induction entries generalizing b with
  | nil =>
    have gone : produced.length ≤ b.start := List.drop_eq_nil_iff.mp retains.contents.symm
    have low : produced.length - b.capacity ≤ b.start := by omega
    exact ⟨retains, rfl, (Nat.max_eq_left low).symm⟩
  | cons oldest rest ih =>
    obtain ⟨⟨offset, full, later⟩, kept, endAt, retained, dropped⟩ := retains
    dsimp only at offset kept endAt retained dropped later
    unfold trimEntries
    split
    · have low : produced.length - b.capacity ≤ b.start := by omega
      exact ⟨⟨⟨offset, full, later⟩, kept, endAt, retained, dropped⟩, rfl, (Nat.max_eq_left low).symm⟩
    · have parts : oldest.text ++ contents rest = produced.drop b.start := kept
      have lengths := congrArg List.length parts
      rw [List.length_append, List.length_drop] at lengths
      dsimp only
      split
      · have whole : contents rest = produced.drop (oldest.offset + oldest.text.length) := by
          rw [offset, ← List.drop_drop, ← parts, List.drop_left]
        obtain ⟨retains, capacity, start⟩ := ih { b with
          retained := b.retained - oldest.text.length
          dropped := b.dropped + oldest.text.length
          start := oldest.offset + oldest.text.length }
          ⟨offset ▸ later, whole, endAt, by dsimp only; omega, by dsimp only; omega⟩
        refine ⟨retains, capacity, start.trans ?_⟩
        dsimp only
        omega
      · have cut : oldest.text.drop (b.retained - b.capacity) ≠ [] := by
          intro gone
          have := List.drop_eq_nil_iff.mp gone
          omega
        refine ⟨⟨⟨rfl, cut, ?_⟩, ?_, endAt, ?_, ?_⟩, rfl, ?_⟩
        · dsimp only
          rw [List.length_drop, offset]
          have same : b.start + (b.retained - b.capacity) + (oldest.text.length - (b.retained - b.capacity)) = b.start + oldest.text.length := by omega
          rw [same]
          exact later
        · show oldest.text.drop (b.retained - b.capacity) ++ contents rest = produced.drop (oldest.offset + (b.retained - b.capacity))
          rw [offset, ← List.drop_drop, ← parts, List.drop_append_of_le_length (by omega)]
        · dsimp only
          omega
        · dsimp only
          omega
        · dsimp only
          omega

/-- The buffer has the last `capacity` characters of what was produced, or all of it. -/
structure Holds (b : OutputBuffer) (produced : Text) : Prop extends Retains b produced where
  start : b.start = produced.length - b.capacity

theorem push_holds {b : OutputBuffer} {produced text : Text} {stream : OutputStream} (holds : Holds b produced) :
    Holds (b.push stream text) (produced ++ text) ∧ (b.push stream text).capacity = b.capacity := by
  unfold push
  split
  · rename_i nothing
    rw [nothing, List.append_nil]
    exact ⟨holds, rfl⟩
  · rename_i full
    obtain ⟨⟨contiguous, kept, endAt, retained, dropped⟩, start⟩ := holds
    have length := congrArg List.length kept
    rw [List.length_drop] at length
    have next : b.endAt = b.start + (contents b.entries).length := by omega
    have kept' : contents (b.entries ++ [⟨stream, text, b.endAt⟩]) = (produced ++ text).drop b.start := by
      rw [contents, List.flatMap_append, List.drop_append_of_le_length (by omega)]
      exact congrArg₂ (· ++ ·) kept (List.append_nil text)
    have endAt' : b.endAt + text.length = (produced ++ text).length := by rw [List.length_append, endAt]
    have retained' : b.endAt + text.length = b.start + (b.retained + text.length) := by omega
    have more : Retains (b.receive stream text) (produced ++ text) := ⟨contiguous.concat next full, kept', endAt', retained', dropped⟩
    obtain ⟨retains, capacity, trimmed⟩ := trimEntries_retains (b.receive stream text) (b.receive stream text).entries more
    refine ⟨⟨retains, ?_⟩, capacity⟩
    show ((b.receive stream text).trimEntries _).start = _ - ((b.receive stream text).trimEntries _).capacity
    rw [capacity, trimmed]
    show max b.start ((produced ++ text).length - b.capacity) = (produced ++ text).length - b.capacity
    omega

end OutputBuffer

/-! ### Rendering, with what is produced told from the markers -/

/-- Rendered characters; those that a command produced are marked `true`. -/
abbrev Marked := List (CodeUnit × Bool)

def marking (mark : Bool) (text : Text) : Marked := text.map fun c => (c, mark)

def Marked.text (marked : Marked) : Text := marked.map Prod.fst

def Marked.delivered (marked : Marked) : Text := (marked.filter Prod.snd).map Prod.fst

/-- `renderFrom`, marked. -/
def markedFrom (mixed : Bool) (begin finish : Nat) (out : Marked) (previous : Option OutputStream) : List Entry → Marked
  | [] => out
  | entry :: rest =>
    let slice := OutputBuffer.sliceOf begin finish entry
    if slice = [] then markedFrom mixed begin finish out previous rest
    else if mixed = true ∧ some entry.stream ≠ previous then
      markedFrom mixed begin finish (out ++ marking false (OutputBuffer.marker out.text entry.stream) ++ marking true slice)
        (some entry.stream) rest
    else markedFrom mixed begin finish (out ++ marking true slice) previous rest

namespace Marked
variable {a b : Marked} {text : Text}

@[simp] theorem text_append : (a ++ b).text = a.text ++ b.text := List.map_append

@[simp] theorem text_marking {mark : Bool} : (marking mark text).text = text := by
  unfold Marked.text marking
  rw [List.map_map]
  exact List.map_id _

@[simp] theorem delivered_append : (a ++ b).delivered = a.delivered ++ b.delivered := by
  unfold Marked.delivered
  rw [List.filter_append, List.map_append]

@[simp] theorem delivered_produced : (marking true text).delivered = text := by
  unfold Marked.delivered marking
  rw [List.filter_eq_self.mpr (by simp), List.map_map]
  exact List.map_id _

@[simp] theorem delivered_marker : (marking false text).delivered = [] := by
  unfold Marked.delivered marking
  rw [List.filter_eq_nil_iff.mpr (by simp), List.map_nil]

end Marked

section Render
variable {mixed : Bool} {begin finish : Nat} {out : Marked} {previous : Option OutputStream} {entries : List Entry}

theorem markedFrom_text : (markedFrom mixed begin finish out previous entries).text =
    OutputBuffer.renderFrom mixed begin finish out.text previous entries := by
  induction entries generalizing out previous with
  | nil => rfl
  | cons entry rest ih =>
    rw [markedFrom, OutputBuffer.renderFrom]
    split
    · exact ih
    · split
      · rw [ih, Marked.text_append, Marked.text_append, Marked.text_marking, Marked.text_marking]
      · rw [ih, Marked.text_append, Marked.text_marking]

theorem markedFrom_delivered : (markedFrom mixed begin finish out previous entries).delivered =
    out.delivered ++ entries.flatMap (OutputBuffer.sliceOf begin finish) := by
  induction entries generalizing out previous with
  | nil => exact (List.append_nil _).symm
  | cons entry rest ih =>
    rw [markedFrom, List.flatMap_cons]
    split
    · rename_i nothing
      rw [ih, nothing, List.nil_append]
    · split
      · rw [ih, Marked.delivered_append, Marked.delivered_append, Marked.delivered_marker, Marked.delivered_produced,
          List.append_nil, List.append_assoc]
      · rw [ih, Marked.delivered_append, Marked.delivered_produced, List.append_assoc]

theorem markedFrom_prefix : out <+: markedFrom mixed begin finish out previous entries := by
  induction entries generalizing out previous with
  | nil => exact List.prefix_rfl
  | cons entry rest ih =>
    rw [markedFrom]
    split
    · exact ih
    · split
      · exact ((List.prefix_append out _).trans (List.prefix_append ..)).trans ih
      · exact (List.prefix_append ..).trans ih

theorem markedFrom_plain (all : ∀ c ∈ out, c.2 = true) : ∀ c ∈ markedFrom false begin finish out previous entries, c.2 = true := by
  induction entries generalizing out previous with
  | nil => exact all
  | cons entry rest ih =>
    rw [markedFrom]
    split
    · exact ih all
    · rw [if_neg (by simp)]
      refine ih fun c member => ?_
      rcases List.mem_append.mp member with old | new
      · exact all c old
      · obtain ⟨_, _, rfl⟩ := List.mem_map.mp new
        rfl

/-- With both in view, the first character of a text is inserted, and something is produced. -/
theorem markedFrom_mixed (shown : markedFrom true begin finish [] none entries ≠ []) :
    (∃ c rest, markedFrom true begin finish [] none entries = (c, false) :: rest) ∧ (markedFrom true begin finish [] none entries).delivered ≠ [] := by
  induction entries with
  | nil => exact absurd rfl shown
  | cons entry rest ih =>
    rw [markedFrom] at shown ⊢
    split
    · rename_i nothing
      rw [if_pos nothing] at shown
      exact ih shown
    · rename_i full
      rw [if_pos ⟨rfl, Option.some_ne_none _⟩]
      constructor
      · obtain ⟨tail, more⟩ : [] ++ marking false (OutputBuffer.marker (Marked.text []) entry.stream) ++
            marking true (OutputBuffer.sliceOf begin finish entry) <+: _ := markedFrom_prefix
        exact ⟨_, _, more.symm⟩
      · rw [markedFrom_delivered, Marked.delivered_append, Marked.delivered_produced]
        intro nothing
        exact full (List.append_eq_nil_iff.mp (List.append_eq_nil_iff.mp nothing).1).2

end Render

/-! ### Reads -/

namespace OutputBuffer

/-- `render`, marked. -/
def renderMarked (b : OutputBuffer) (begin finish : Nat) : Marked :=
  markedFrom (mixed (b.visible begin finish)) begin finish [] none (b.visible begin finish)

/-- The text of a `read`, marked. -/
def readMarked (b : OutputBuffer) (since maxChars : Nat) : Marked :=
  let full := b.renderMarked (max since b.start) b.endAt
  full.drop (full.length - maxChars)

/-- What a read from `since` has in view. -/
def window (b : OutputBuffer) (since : Nat) : List Entry := b.visible (max since b.start) b.endAt

/-- Both streams are in view, and the rendered text is cut. -/
def cutsMixed (b : OutputBuffer) (since maxChars : Nat) : Prop :=
  mixed (b.window since) = true ∧ maxChars < (b.render (max since b.start) b.endAt).length

variable {b : OutputBuffer} {produced : Text} {since maxChars begin : Nat}

theorem renderMarked_text {finish : Nat} : (b.renderMarked begin finish).text = b.render begin finish := by
  unfold renderMarked render
  dsimp only
  rw [markedFrom_text]
  split
  · rename_i nothing
    rw [nothing]
    rfl
  · rfl

theorem readMarked_text : (b.readMarked since maxChars).text = (b.read since maxChars).text := by
  have full : (b.renderMarked (max since b.start) b.endAt).text = b.render (max since b.start) b.endAt := renderMarked_text
  have length : (b.renderMarked (max since b.start) b.endAt).length = (b.render (max since b.start) b.endAt).length := by
    rw [← full, Marked.text, List.length_map]
  unfold readMarked read Marked.text
  dsimp only
  rw [List.map_drop, length]
  have same : List.map Prod.fst (b.renderMarked (max since b.start) b.endAt) = b.render (max since b.start) b.endAt := full
  rw [same]
  split
  · rename_i fits
    rw [Nat.sub_eq_zero_of_le fits, List.drop_zero]
  · rfl

theorem slices_contents {offset finish : Nat} {entries : List Entry} (contiguous : Contiguous offset entries)
    (last : finish = offset + (contents entries).length) :
    (entries.filter fun entry => decide (begin < entry.offset + entry.text.length) && decide (entry.offset < finish)).flatMap
      (sliceOf begin finish) = (contents entries).drop (begin - offset) := by
  induction entries generalizing offset with
  | nil => exact List.drop_nil.symm
  | cons entry rest ih =>
    obtain ⟨first, full, later⟩ := contiguous
    have size : (contents (entry :: rest)).length = entry.text.length + (contents rest).length := by
      rw [contents, List.flatMap_cons, List.length_append]
      rfl
    have positive := List.length_pos_of_ne_nil full
    have tail := ih later (by omega)
    show _ = (entry.text ++ contents rest).drop (begin - offset)
    by_cases seen : begin < entry.offset + entry.text.length
    · have view : (decide (begin < entry.offset + entry.text.length) && decide (entry.offset < finish)) = true := by
        rw [decide_eq_true seen, decide_eq_true (by omega)]
        rfl
      rw [List.filter_cons_of_pos (by exact view), List.flatMap_cons, tail, Nat.sub_eq_zero_of_le (by omega), List.drop_zero,
        List.drop_append_of_le_length (by omega)]
      congr 1
      unfold sliceOf slice
      rw [Nat.min_eq_left (by omega), first, ← List.length_drop, List.take_length]
    · have hidden : ¬(decide (begin < entry.offset + entry.text.length) && decide (entry.offset < finish)) = true := by
        rw [decide_eq_false seen]
        exact Bool.false_ne_true
      have passed : entry.text.drop (begin - offset) = [] := List.drop_eq_nil_of_le (by omega)
      rw [List.filter_cons_of_neg (by exact hidden), tail, List.drop_append, passed, List.nil_append]
      congr 1
      omega

theorem renderMarked_delivered (retains : Retains b produced) (low : b.start ≤ begin) :
    (b.renderMarked begin b.endAt).delivered = produced.drop begin := by
  obtain ⟨contiguous, kept, endAt, retained, _⟩ := retains
  have length := congrArg List.length kept
  rw [List.length_drop] at length
  have slices : (b.visible begin b.endAt).flatMap (sliceOf begin b.endAt) = (contents b.entries).drop (begin - b.start) :=
    slices_contents contiguous (by omega)
  unfold renderMarked
  rw [markedFrom_delivered, slices, kept, List.drop_drop]
  exact congrArg (produced.drop ·) (by omega)

theorem delivered_cut (marked : Marked) (n : Nat) : marked.delivered = Marked.delivered (marked.take n) ++ Marked.delivered (marked.drop n) := by
  rw [← Marked.delivered_append, List.take_append_drop]

theorem delivered_length_le (marked : Marked) : marked.delivered.length ≤ marked.length := by
  unfold Marked.delivered
  rw [List.length_map]
  exact List.length_filter_le ..

theorem delivered_length_all {marked : Marked} (all : ∀ c ∈ marked, c.2 = true) : marked.delivered.length = marked.length := by
  unfold Marked.delivered
  rw [List.length_map, List.filter_eq_self.mpr all]

theorem missed_eq : (b.read since maxChars).missed =
    (b.start - since) + ((b.renderMarked (max since b.start) b.endAt).length - maxChars) := by
  have full : (b.renderMarked (max since b.start) b.endAt).text = b.render (max since b.start) b.endAt := renderMarked_text
  have length : (b.renderMarked (max since b.start) b.endAt).length = (b.render (max since b.start) b.endAt).length := by
    rw [← full, Marked.text, List.length_map]
  unfold read
  dsimp only
  rw [length]
  split
  · rename_i fits
    dsimp only
    omega
  · rfl

/-- A read delivers the last of what was produced, from where it was asked or later. -/
theorem read_run (retains : Retains b produced) :
    (b.readMarked since maxChars).delivered = produced.drop (produced.length - (b.readMarked since maxChars).delivered.length) ∧
      (since ≤ produced.length → since ≤ produced.length - (b.readMarked since maxChars).delivered.length) := by
  have whole := renderMarked_delivered retains (Nat.le_max_right since b.start)
  have cut := delivered_cut (b.renderMarked (max since b.start) b.endAt) ((b.renderMarked (max since b.start) b.endAt).length - maxChars)
  have suffix : (b.readMarked since maxChars).delivered <:+ produced.drop (max since b.start) := ⟨_, cut.symm.trans whole⟩
  refine ⟨List.suffix_iff_eq_drop.mp (suffix.trans (List.drop_suffix ..)), fun asked => ?_⟩
  have short := suffix.length_le
  rw [List.length_drop] at short
  have retained := retains.retained
  have endAt := retains.endAt
  omega

/-- What it reports missed is what was produced before that, unless it cuts a text with markers. -/
theorem read_missed (retains : Retains b produced) :
    (b.read since maxChars).missed = produced.length - (b.readMarked since maxChars).delivered.length - since ↔ ¬b.cutsMixed since maxChars := by
  have full : (b.renderMarked (max since b.start) b.endAt).text = b.render (max since b.start) b.endAt := renderMarked_text
  have length : (b.render (max since b.start) b.endAt).length = (b.renderMarked (max since b.start) b.endAt).length := by
    rw [← full, Marked.text, List.length_map]
  have whole := congrArg List.length (renderMarked_delivered retains (Nat.le_max_right since b.start))
  have cut := congrArg List.length
    (delivered_cut (b.renderMarked (max since b.start) b.endAt) ((b.renderMarked (max since b.start) b.endAt).length - maxChars))
  have gone := delivered_length_le ((b.renderMarked (max since b.start) b.endAt).take ((b.renderMarked (max since b.start) b.endAt).length - maxChars))
  have endAt := retains.endAt
  have retained := retains.retained
  unfold cutsMixed
  rw [missed_eq, length, readMarked]
  rw [List.length_append] at cut
  rw [List.length_drop] at whole
  rw [List.length_take] at gone
  cases both : mixed (b.window since) with
  | true =>
    by_cases long : maxChars < (b.renderMarked (max since b.start) b.endAt).length
    · -- What is cut away begins with a marker.
      have marked : b.renderMarked (max since b.start) b.endAt = markedFrom true (max since b.start) b.endAt [] none (b.window since) := by
        unfold renderMarked
        rw [show mixed (b.visible (max since b.start) b.endAt) = true from both]
        rfl
      have shown : b.renderMarked (max since b.start) b.endAt ≠ [] := List.ne_nil_of_length_pos (by omega)
      obtain ⟨⟨c, rest, first⟩, produced'⟩ := markedFrom_mixed (marked ▸ shown)
      rw [← marked] at first produced'
      have ahead : (Marked.delivered ((b.renderMarked (max since b.start) b.endAt).take
          ((b.renderMarked (max since b.start) b.endAt).length - maxChars))).length <
          (b.renderMarked (max since b.start) b.endAt).length - maxChars := by
        obtain ⟨k, cuts⟩ := Nat.exists_eq_succ_of_ne_zero (Nat.sub_ne_zero_of_lt long)
        rw [cuts, first, List.take_succ_cons]
        exact Nat.lt_succ_of_le ((delivered_length_le (rest.take k)).trans (List.length_take_le ..))
      have something := List.length_pos_of_ne_nil produced'
      constructor
      · intro exact
        omega
      · intro fits
        exact absurd ⟨rfl, long⟩ fits
    · refine ⟨fun _ cuts => long cuts.2, fun _ => ?_⟩
      omega
  | false =>
    refine ⟨fun _ cuts => Bool.false_ne_true cuts.1, fun _ => ?_⟩
    have plain : ∀ c ∈ b.renderMarked (max since b.start) b.endAt, c.2 = true := by
      unfold renderMarked
      rw [show mixed (b.visible (max since b.start) b.endAt) = false from both]
      exact markedFrom_plain fun _ member => by cases member
    have all := delivered_length_all plain
    have before : (Marked.delivered ((b.renderMarked (max since b.start) b.endAt).take
        ((b.renderMarked (max since b.start) b.endAt).length - maxChars))).length = _ :=
      delivered_length_all fun c member => plain c (List.mem_of_mem_take member)
    rw [List.length_take] at before
    omega

end OutputBuffer

/-! ### Chains of reads -/

inductive OutputEvent where
  | push (stream : OutputStream) (text : Text)
  | read (maxChars : Nat)

/-- A read of the chain: the buffer it found, what had been produced by then, and its answer. -/
structure OutputReading where
  buffer : OutputBuffer
  produced : Text
  since : Nat
  maxChars : Nat
  slice : OutputSlice

structure OutputWatch where
  buffer : OutputBuffer
  produced : Text := []
  since : Nat := 0
  readings : List OutputReading := []

def OutputWatch.step (w : OutputWatch) : OutputEvent → OutputWatch
  | .push stream text => { w with buffer := w.buffer.push stream text, produced := w.produced ++ text }
  | .read maxChars =>
    let slice := w.buffer.read w.since maxChars
    { w with since := slice.cursor, readings := w.readings ++ [⟨w.buffer, w.produced, w.since, maxChars, slice⟩] }

def watchOutput (capacity : Nat) (events : List OutputEvent) : OutputWatch :=
  events.foldl OutputWatch.step { buffer := { capacity } }

namespace OutputReading

def delivered (r : OutputReading) : Text := (r.buffer.readMarked r.since r.maxChars).delivered

/-- The answer is a run of what was produced that ends at its cursor, and counts what lies before the run. -/
structure Exact (r : OutputReading) : Prop where
  text : (r.buffer.readMarked r.since r.maxChars).text = r.slice.text
  cursor : r.slice.cursor = r.produced.length
  run : r.delivered = r.produced.drop (r.slice.cursor - r.delivered.length)
  after : r.since ≤ r.slice.cursor - r.delivered.length

def missedExact (r : OutputReading) : Prop := r.slice.missed = r.slice.cursor - r.delivered.length - r.since

instance : DecidablePred missedExact := fun r => inferInstanceAs (Decidable (r.slice.missed = r.slice.cursor - r.delivered.length - r.since))

end OutputReading

/-- The chain begins at 0, and if each read is exact, what is delivered and what is missed add up to what was produced. -/
structure Accounted (capacity : Nat) (w : OutputWatch) : Prop where
  holds : w.buffer.Holds w.produced
  capacity : w.buffer.capacity = capacity
  since : w.since = w.readings.getLast?.elim 0 (·.slice.cursor)
  seen : w.since ≤ w.produced.length
  first : ∀ r ∈ w.readings.head?, r.since = 0
  chain : w.readings.IsChain fun earlier later => later.since = earlier.slice.cursor
  exact : ∀ r ∈ w.readings, r.Exact ∧ (r.missedExact ↔ ¬r.buffer.cutsMixed r.since r.maxChars)
  sum : (∀ r ∈ w.readings, r.missedExact) → (w.readings.map fun r => r.delivered.length + r.slice.missed).sum = w.since

theorem push_accounted {capacity : Nat} {w : OutputWatch} (accounted : Accounted capacity w) (stream : OutputStream) (text : Text) :
    Accounted capacity (w.step (.push stream text)) := by
  obtain ⟨holds, size⟩ := @OutputBuffer.push_holds _ _ text stream accounted.holds
  exact
    { accounted with
      holds := holds
      capacity := size.trans accounted.capacity
      seen := accounted.seen.trans (by rw [OutputWatch.step, List.length_append]; exact Nat.le_add_right ..) }

theorem read_accounted {capacity : Nat} {w : OutputWatch} (accounted : Accounted capacity w) (maxChars : Nat) :
    Accounted capacity (w.step (.read maxChars)) := by
  have retains := accounted.holds.toRetains
  obtain ⟨run, after⟩ := @OutputBuffer.read_run _ _ w.since maxChars retains
  have cursor : (w.buffer.read w.since maxChars).cursor = w.produced.length := by
    rw [← retains.endAt]
    unfold OutputBuffer.read
    dsimp only
    split <;> rfl
  have exact : OutputReading.Exact ⟨w.buffer, w.produced, w.since, maxChars, w.buffer.read w.since maxChars⟩ :=
    ⟨OutputBuffer.readMarked_text, cursor, cursor.symm ▸ run, cursor.symm ▸ after accounted.seen⟩
  have missed : OutputReading.missedExact ⟨w.buffer, w.produced, w.since, maxChars, w.buffer.read w.since maxChars⟩ ↔
      ¬w.buffer.cutsMixed w.since maxChars := by
    unfold OutputReading.missedExact
    dsimp only
    rw [cursor]
    exact OutputBuffer.read_missed retains
  unfold OutputWatch.step
  refine ⟨accounted.holds, accounted.capacity, ?_, cursor.le, ?_, ?_, ?_, fun all => ?_⟩
  · rw [List.getLast?_concat]
    rfl
  · intro r member
    cases readings : w.readings with
    | nil =>
      rw [readings] at member
      cases member
      have since := accounted.since
      rwa [readings] at since
    | cons head rest =>
      rw [readings] at member
      exact accounted.first r (by rw [readings]; exact member)
  · refine List.isChain_append.mpr ⟨accounted.chain, List.isChain_singleton _, ?_⟩
    intro earlier last later own
    cases own
    dsimp only
    rw [accounted.since, Option.mem_def.mp last]
    rfl
  · intro r member
    rcases List.mem_append.mp member with old | new
    · exact accounted.exact r old
    · cases List.mem_singleton.mp new
      exact ⟨exact, missed⟩
  · have before := accounted.sum fun r member => all r (List.mem_append_left _ member)
    have now : (w.buffer.read w.since maxChars).missed =
        (w.buffer.read w.since maxChars).cursor - (w.buffer.readMarked w.since maxChars).delivered.length - w.since :=
      all _ (List.mem_append_right _ List.mem_cons_self)
    have asked : w.since ≤ (w.buffer.read w.since maxChars).cursor - (w.buffer.readMarked w.since maxChars).delivered.length := exact.after
    have bound : (w.buffer.readMarked w.since maxChars).delivered.length ≤ (w.buffer.read w.since maxChars).cursor := by
      rw [cursor, run, List.length_drop]
      omega
    rw [List.map_append, List.sum_append, before]
    show w.since + ((w.buffer.readMarked w.since maxChars).delivered.length + (w.buffer.read w.since maxChars).missed + 0) = _
    dsimp only
    omega

/-- The buffer has the last characters, each read delivers a run up to its cursor, and what it reports missed is exact unless it cuts a text
that shows both streams. -/
theorem output_accounted (capacity : Nat) (events : List OutputEvent) : Accounted capacity (watchOutput capacity events) := by
  have whole : ∀ w, Accounted capacity w → Accounted capacity (events.foldl OutputWatch.step w) := by
    induction events with
    | nil => exact fun w accounted => accounted
    | cons event rest ih =>
      intro w accounted
      refine ih _ ?_
      cases event with
      | push stream text => exact push_accounted accounted stream text
      | read maxChars => exact read_accounted accounted maxChars
  refine whole _ ⟨⟨⟨trivial, rfl, rfl, rfl, rfl⟩, (Nat.zero_sub _).symm⟩, rfl, rfl, le_rfl, ?_, .nil, ?_, fun _ => rfl⟩
  · exact fun _ member => by cases member
  · exact fun _ member => by cases member

theorem marker_counted : ¬∀ r ∈ (watchOutput 1000 [.push .stdout (ascii "ab"), .push .stderr (ascii "cd"), .read 2]).readings, r.missedExact := by
  decide

end Bike4Mind.Shell
