import Bike4Mind.Replies.ThinkMarkers
import Bike4Mind.Texts.PartialTags

/-! The filter that splits reasoning out of reply text as it streams, whatever the chunks. -/

namespace Bike4Mind.Replies

open Texts

structure ThinkSplit where
  text : Text
  reasoning : Text
  deriving DecidableEq

namespace ThinkSplit

def nothing : ThinkSplit := ⟨[], []⟩

def append (a b : ThinkSplit) : ThinkSplit := ⟨a.text ++ b.text, a.reasoning ++ b.reasoning⟩

instance : Append ThinkSplit := ⟨append⟩

@[simp] theorem append_text (a b : ThinkSplit) : (a ++ b).text = a.text ++ b.text := rfl

@[simp] theorem nothing_append (a : ThinkSplit) : nothing ++ a = a := rfl

@[simp] theorem append_nothing (a : ThinkSplit) : a ++ nothing = a := by
  show (⟨a.text ++ [], a.reasoning ++ []⟩ : ThinkSplit) = a
  rw [List.append_nil, List.append_nil]

theorem append_assoc (a b c : ThinkSplit) : a ++ b ++ c = a ++ (b ++ c) := by
  show (⟨_ ++ _ ++ _, _ ++ _ ++ _⟩ : ThinkSplit) = ⟨_, _⟩
  rw [List.append_assoc, List.append_assoc]
  rfl

end ThinkSplit

/-- Text between markers, at a depth. -/
def atDepth (depth : Nat) (piece : Text) : ThinkSplit := if depth = 0 then ⟨piece, []⟩ else ⟨[], piece⟩

/-! ### The filter -/

/-- How many trailing units of `text` are the start of a marker. -/
def partialMarkerLength (text : Text) : Nat := partialMarkerSuffixFrom text (min (THINK_CLOSE_TAG.length - 1) text.length)

structure ThinkFilter where
  depth : Nat := 0
  pending : Text := []
  deriving DecidableEq

/-- Where the first marker starts. -/
def nextMarker (pending : Text) : Option Nat :=
  ([indexOf THINK_OPEN_TAG pending 0, indexOf THINK_CLOSE_TAG pending 0].filterMap id).min?

namespace ThinkFilter

theorem nextMarker_bound {pending : Text} {next : Nat} (found : nextMarker pending = some next) : next + 7 ≤ pending.length := by
  obtain ⟨member, _⟩ := List.min?_eq_some_iff.mp found
  obtain ⟨index, choice, same⟩ := List.mem_filterMap.mp member
  have sizes : THINK_OPEN_TAG.length = 7 ∧ THINK_CLOSE_TAG.length = 8 := by decide
  rcases List.mem_cons.mp choice with rfl | choice
  · have bounds := (indexOf_bounds (Nat.zero_le _) same).2
    omega
  · rw [List.mem_singleton.mp choice] at same
    have bounds := (indexOf_bounds (Nat.zero_le _) same).2
    omega

/-- What of `pending` goes out when it has no marker. -/
def settled (final : Bool) (pending : Text) : Nat := pending.length - (if final then 0 else partialMarkerLength pending)

/-- What a close marker is at a depth. -/
def closeAt (depth : Nat) : ThinkSplit := if 0 < depth then .nothing else ⟨THINK_CLOSE_TAG, []⟩

/-- `drain` -/
def drain (final : Bool) (f : ThinkFilter) : ThinkSplit × ThinkFilter :=
  match _found : nextMarker f.pending with
  | none => (atDepth f.depth (f.pending.take (settled final f.pending)), { f with pending := f.pending.drop (settled final f.pending) })
  | some next =>
    if indexOf THINK_OPEN_TAG f.pending 0 = some next then
      (drain final ⟨f.depth + 1, f.pending.drop (next + THINK_OPEN_TAG.length)⟩).map (atDepth f.depth (f.pending.take next) ++ ·) id
    else
      (drain final ⟨f.depth - 1, f.pending.drop (next + THINK_CLOSE_TAG.length)⟩).map
        (atDepth f.depth (f.pending.take next) ++ closeAt f.depth ++ ·) id
termination_by f.pending.length
decreasing_by
  · have bound := nextMarker_bound _found
    have size : THINK_OPEN_TAG.length = 7 := by decide
    rw [List.length_drop]
    omega
  · have bound := nextMarker_bound _found
    have size : THINK_CLOSE_TAG.length = 8 := by decide
    rw [List.length_drop]
    omega

def push (f : ThinkFilter) (text : Text) : ThinkSplit × ThinkFilter := drain false { f with pending := f.pending ++ text }

def flush (f : ThinkFilter) : ThinkSplit × ThinkFilter := drain true f

/-- The chunks pushed one after another, and the flush. -/
def stream (f : ThinkFilter) : List Text → ThinkSplit
  | [] => f.flush.1
  | chunk :: rest => (f.push chunk).1 ++ (f.push chunk).2.stream rest

end ThinkFilter

/-! ### The split of a whole text -/

/-- Text at depth zero, with the close markers that close nothing, and the reasoning between the markers. -/
def splitTokens : (depth : Nat) → List (Token CodeUnit) → ThinkSplit
  | _, [] => .nothing
  | depth, .plain c :: rest => atDepth depth [c] ++ splitTokens depth rest
  | depth, .found hit :: rest =>
    if hit.whole = THINK_OPEN_TAG then splitTokens (depth + 1) rest
    else if 0 < depth then splitTokens (depth - 1) rest
    else ⟨hit.whole, []⟩ ++ splitTokens depth rest

def splitText (depth : Nat) (text : Text) : ThinkSplit := splitTokens depth (THINK_TAG_TOKENS.lex text)

section Split
variable {depth index : Nat} {text rest piece : Text}

theorem splitTokens_text (depth : Nat) (tokens : List (Token CodeUnit)) : (splitTokens depth tokens).text = (scanTokens depth tokens).2 := by
  induction tokens generalizing depth with
  | nil => rfl
  | cons token rest ih =>
    cases token with
    | plain c =>
      rw [splitTokens, scanTokens_plain, ThinkSplit.append_text, ih, atDepth]
      by_cases outside : depth = 0
      · rw [if_pos outside, if_pos outside]
        rfl
      · rw [if_neg outside, if_neg outside]
        rfl
    | found hit =>
      rw [splitTokens, scanTokens_found]
      by_cases opens : hit.whole = THINK_OPEN_TAG
      · rw [if_pos opens, if_pos opens, ih]
      · rw [if_neg opens, if_neg opens]
        by_cases inside : 0 < depth
        · rw [if_pos inside, if_pos inside, ih]
        · rw [if_neg inside, if_neg inside, ThinkSplit.append_text, ih]
          rfl

theorem splitText_text : (splitText depth text).text = (scanText depth text).2 := by
  rw [scanText_eq]
  exact splitTokens_text depth _

theorem splitTokens_index {index' : Nat} (text : Text) : splitTokens depth (THINK_TAG_TOKENS.lexFrom 0 index text) =
    splitTokens depth (THINK_TAG_TOKENS.lexFrom 0 index' text) := by
  induction text using marked_induction generalizing depth index index' with
  | nothing => rw [tokens_nil, tokens_nil]
  | opened rest ih =>
    rw [tokens_open, tokens_open, splitTokens, if_pos rfl, splitTokens, if_pos rfl]
    exact ih
  | closed rest ih =>
    rw [tokens_close, tokens_close, splitTokens, if_neg close_ne_open, splitTokens, if_neg close_ne_open]
    rw [@ih (depth - 1) _ (index' + THINK_CLOSE_TAG.length), @ih depth _ (index' + THINK_CLOSE_TAG.length)]
  | plain c rest none ih => rw [tokens_plain none, tokens_plain none, splitTokens, splitTokens, @ih _ _ (index' + 1)]

theorem split_nil : splitText depth [] = .nothing := by
  rw [splitText, Regex.lex, tokens_nil]
  rfl

theorem split_open (rest : Text) : splitText depth (THINK_OPEN_TAG ++ rest) = splitText (depth + 1) rest := by
  rw [splitText, Regex.lex, tokens_open, splitTokens, if_pos rfl]
  exact splitTokens_index rest

theorem split_close (rest : Text) : splitText depth (THINK_CLOSE_TAG ++ rest) =
    ThinkFilter.closeAt depth ++ splitText (depth - 1) rest := by
  unfold ThinkFilter.closeAt
  rw [splitText, Regex.lex, tokens_close, splitTokens, if_neg close_ne_open]
  by_cases inside : 0 < depth
  · rw [if_pos inside, if_pos inside, ThinkSplit.nothing_append]
    exact splitTokens_index rest
  · rw [if_neg inside, if_neg inside, Nat.le_zero.mp (Nat.not_lt.mp inside)]
    exact congrArg (_ ++ ·) (splitTokens_index rest)

theorem split_plain {c : CodeUnit} (plain : ∀ marker, IsMarker marker → ¬marker <+: c :: rest) :
    splitText depth (c :: rest) = atDepth depth [c] ++ splitText depth rest := by
  rw [splitText, Regex.lex, tokens_plain plain, splitTokens]
  exact congrArg (_ ++ ·) (splitTokens_index rest)

theorem atDepth_append (a b : Text) : atDepth depth (a ++ b) = atDepth depth a ++ atDepth depth b := by
  unfold atDepth
  split <;> rfl

theorem split_quiet (quiet : Quiet piece rest) : splitText depth (piece ++ rest) = atDepth depth piece ++ splitText depth rest := by
  induction piece with
  | nil =>
    have none : atDepth depth [] = .nothing := ite_self _
    rw [none, List.nil_append, ThinkSplit.nothing_append]
  | cons c piece ih =>
    have plain : ∀ marker, IsMarker marker → ¬marker <+: c :: (piece ++ rest) :=
      quiet (c :: piece) (List.cons_ne_nil c piece) List.suffix_rfl
    have later : Quiet piece rest := fun tail some ends => quiet tail some (ends.trans (List.suffix_cons c piece))
    rw [List.cons_append, split_plain plain, ih later, ← ThinkSplit.append_assoc, ← atDepth_append]
    rfl

end Split

/-! ### The filter agrees -/

section Drain
variable {pending rest : Text} {next : Nat}

theorem no_marker (absent : nextMarker pending = none) {marker : Text} (known : IsMarker marker) : ¬marker <:+: pending := by
  have gone : ∀ index ∈ [indexOf THINK_OPEN_TAG pending 0, indexOf THINK_CLOSE_TAG pending 0], index = none := by
    intro index member
    by_contra some
    obtain ⟨i, found⟩ := Option.ne_none_iff_exists'.mp some
    have empty := List.min?_eq_none_iff.mp absent
    exact List.not_mem_nil (empty ▸ List.mem_filterMap.mpr ⟨index, member, found⟩)
  have apart : indexOf marker pending 0 = none := by
    rcases known with rfl | rfl
    · exact gone _ List.mem_cons_self
    · exact gone _ (List.mem_cons_of_mem _ List.mem_cons_self)
  rintro ⟨before, after, same⟩
  refine (indexOf_eq_none known.ne_nil).mp apart before.length (Nat.zero_le _) ?_
  rw [← same, List.append_assoc, List.drop_left]
  exact List.prefix_append ..

theorem first_marker (rest : Text) (found : nextMarker pending = some next) : ∃ marker, IsMarker marker ∧ marker <+: pending.drop next ∧
    (indexOf THINK_OPEN_TAG pending 0 = some next ↔ marker = THINK_OPEN_TAG) ∧ Quiet (pending.take next) (pending.drop next ++ rest) := by
  obtain ⟨member, least⟩ := List.min?_eq_some_iff.mp found
  have place : ∃ marker, IsMarker marker ∧ indexOf marker pending 0 = some next ∧
      (indexOf THINK_OPEN_TAG pending 0 = some next ↔ marker = THINK_OPEN_TAG) := by
    by_cases opens : indexOf THINK_OPEN_TAG pending 0 = some next
    · exact ⟨_, .inl rfl, opens, iff_of_true opens rfl⟩
    · obtain ⟨index, choice, same⟩ := List.mem_filterMap.mp member
      rcases List.mem_cons.mp choice with rfl | choice
      · exact absurd same opens
      · rw [List.mem_singleton.mp choice] at same
        exact ⟨_, .inr rfl, same, iff_of_false opens close_ne_open⟩
  obtain ⟨marker, known, place, which⟩ := place
  obtain ⟨_, inside, starts, _⟩ := (indexOf_eq_some (Nat.zero_le _)).mp place
  refine ⟨marker, known, starts, which, fun tail some ends other known' starts' => ?_⟩
  obtain ⟨body, opens, _⟩ := known.cons
  obtain ⟨after, front⟩ := starts
  rw [← front, opens, List.cons_append, List.cons_append, List.append_assoc] at starts'
  have within := marker_within known' some starts'
  -- A marker before the first one would be the first.
  obtain ⟨before, cut⟩ := ends
  have early : indexOf other pending 0 ≠ none := by
    intro absent
    refine (indexOf_eq_none known'.ne_nil).mp absent before.length (Nat.zero_le _) ?_
    rw [← List.take_append_drop next pending, ← cut, List.append_assoc, List.drop_left]
    exact within.trans (List.prefix_append ..)
  obtain ⟨i, there⟩ := Option.ne_none_iff_exists'.mp early
  have listed : i ∈ [indexOf THINK_OPEN_TAG pending 0, indexOf THINK_CLOSE_TAG pending 0].filterMap id := by
    rcases known' with rfl | rfl
    · exact List.mem_filterMap.mpr ⟨_, List.mem_cons_self, there⟩
    · exact List.mem_filterMap.mpr ⟨_, List.mem_cons_of_mem _ List.mem_cons_self, there⟩
  have late := least i listed
  have length := congrArg List.length cut
  rw [List.length_append, List.length_take] at length
  have count := List.length_pos_iff.mpr some
  refine (((indexOf_eq_some (Nat.zero_le _)).mp there).2.2.2 before.length (Nat.zero_le _) (by omega)) ?_
  rw [← List.take_append_drop next pending, ← cut, List.append_assoc, List.drop_left]
  exact within.trans (List.prefix_append ..)

theorem quiet_safe (absent : nextMarker pending = none) (rest : Text) : Quiet (safeOf pending) (heldOf pending ++ rest) := by
  intro tail some ends marker known starts
  have within := (marker_apart known some ends).mp starts
  refine no_marker absent known (within.isInfix.trans (ends.isInfix.trans ?_))
  exact (List.take_prefix ..).isInfix

theorem quiet_end (absent : nextMarker pending = none) : Quiet pending [] := by
  intro tail some ends marker known starts
  rw [List.append_nil] at starts
  exact no_marker absent known (starts.isInfix.trans ends.isInfix)

theorem split_first (depth : Nat) (rest : Text) (found : nextMarker pending = some next) : splitText depth (pending ++ rest) = atDepth depth (pending.take next) ++
    if indexOf THINK_OPEN_TAG pending 0 = some next then splitText (depth + 1) (pending.drop (next + THINK_OPEN_TAG.length) ++ rest)
    else ThinkFilter.closeAt depth ++ splitText (depth - 1) (pending.drop (next + THINK_CLOSE_TAG.length) ++ rest) := by
  obtain ⟨marker, known, ⟨after, front⟩, which, quiet⟩ := first_marker rest found
  have parts : pending ++ rest = pending.take next ++ (pending.drop next ++ rest) := by rw [← List.append_assoc, List.take_append_drop]
  rw [parts, split_quiet quiet]
  congr 1
  have beyond : pending.drop (next + marker.length) = after := by rw [← List.drop_drop, ← front, List.drop_left]
  by_cases opens : indexOf THINK_OPEN_TAG pending 0 = some next
  · rw [if_pos opens]
    obtain rfl := which.mp opens
    rw [beyond, ← front, List.append_assoc, split_open]
  · rw [if_neg opens]
    obtain rfl := known.resolve_left fun same => opens (which.mpr same)
    rw [beyond, ← front, List.append_assoc, split_close]

/-- What a drain gives, and what follows with what it keeps, is the split of all of it. -/
theorem drain_split (f : ThinkFilter) (rest : Text) :
    splitText f.depth (f.pending ++ rest) = (f.drain false).1 ++ splitText (f.drain false).2.depth ((f.drain false).2.pending ++ rest) := by
  fun_induction ThinkFilter.drain false f with
  | case1 f absent =>
    have quiet := quiet_safe absent rest
    have parts : f.pending ++ rest = safeOf f.pending ++ (heldOf f.pending ++ rest) := by rw [← List.append_assoc, safe_held]
    rw [parts, split_quiet quiet]
    rfl
  | case2 f next found opens ih =>
    rw [split_first f.depth rest found, if_pos opens, ih, ← ThinkSplit.append_assoc]
    rfl
  | case3 f next found closes ih =>
    rw [split_first f.depth rest found, if_neg closes, ih, ← ThinkSplit.append_assoc, ← ThinkSplit.append_assoc]
    rfl

theorem flush_split (f : ThinkFilter) : f.flush.1 = splitText f.depth f.pending := by
  unfold ThinkFilter.flush
  fun_induction ThinkFilter.drain true f with
  | case1 f absent =>
    have whole : splitText f.depth (f.pending ++ []) = _ := split_quiet (quiet_end absent)
    rw [List.append_nil, split_nil, ThinkSplit.append_nothing] at whole
    rw [whole, ThinkFilter.settled, if_pos rfl, Nat.sub_zero, List.take_length]
  | case2 f next found opens ih =>
    have first := split_first f.depth [] found
    rw [List.append_nil, if_pos opens, List.append_nil] at first
    rw [first, ← ih]
    rfl
  | case3 f next found closes ih =>
    have first := split_first f.depth [] found
    rw [List.append_nil, if_neg closes, List.append_nil] at first
    rw [first, ← ih, ← ThinkSplit.append_assoc]
    rfl

theorem stream_split (f : ThinkFilter) (chunks : List Text) : f.stream chunks = splitText f.depth (f.pending ++ chunks.flatten) := by
  induction chunks generalizing f with
  | nil =>
    rw [List.flatten_nil, List.append_nil]
    exact flush_split f
  | cons chunk chunks ih =>
    rw [ThinkFilter.stream, ih, List.flatten_cons, ← List.append_assoc]
    exact (drain_split { f with pending := f.pending ++ chunk } chunks.flatten).symm

end Drain

/-! ### A prompt that opened the block -/

inductive PrefilledState where
  | leading
  | reasoning
  | trailing
  | reply
  deriving DecidableEq

def trimStart (text : Text) : Text := text.dropWhile isSpace

/-- The loop of `closeOverlap`, from `length` down. -/
def closeOverlapFrom (text : Text) : (length : Nat) → Nat
  | 0 => 0
  | length + 1 => if (sliceLast text (length + 1)).isPrefixOf THINK_CLOSE_TAG then length + 1 else closeOverlapFrom text length

/-- How many trailing units of `text` could still become `</think>`. -/
def closeOverlap (text : Text) : Nat := closeOverlapFrom text (min (THINK_CLOSE_TAG.length - 1) text.length)

structure PrefilledFilter where
  state : PrefilledState := .leading
  pending : Text := []
  deriving DecidableEq

namespace PrefilledFilter

/-- `drain` from the state `reply` on. -/
def replying (f : PrefilledFilter) : ThinkSplit × PrefilledFilter :=
  if f.state = .reply then (⟨f.pending, []⟩, { f with pending := [] }) else (.nothing, f)

/-- `drain` from the state `trailing` on. -/
def trailing (f : PrefilledFilter) : ThinkSplit × PrefilledFilter :=
  if f.state = .trailing then
    let pending := trimStart f.pending
    replying ⟨if pending = [] then .trailing else .reply, pending⟩
  else replying f

/-- `drain` from the state `reasoning` on. -/
def reasoning (final : Bool) (f : PrefilledFilter) : ThinkSplit × PrefilledFilter :=
  if f.state = .reasoning then
    match indexOf THINK_CLOSE_TAG f.pending 0 with
    | none =>
      let cut := f.pending.length - if final then 0 else closeOverlap f.pending
      (⟨[], f.pending.take cut⟩, { f with pending := f.pending.drop cut })
    | some close =>
      (trailing ⟨.trailing, f.pending.drop (close + THINK_CLOSE_TAG.length)⟩).map (⟨[], f.pending.take close⟩ ++ ·) id
  else trailing f

def drain (final : Bool) (f : PrefilledFilter) : ThinkSplit × PrefilledFilter :=
  if f.state = .leading then
    let pending := trimStart f.pending
    reasoning final ⟨if pending = [] then .leading else .reasoning, pending⟩
  else reasoning final f

def push (f : PrefilledFilter) (text : Text) : ThinkSplit × PrefilledFilter := drain false { f with pending := f.pending ++ text }

def flush (f : PrefilledFilter) : ThinkSplit × PrefilledFilter := drain true f

def stream (f : PrefilledFilter) : List Text → ThinkSplit
  | [] => f.flush.1
  | chunk :: rest => (f.push chunk).1 ++ (f.push chunk).2.stream rest

end PrefilledFilter

/-- Reasoning up to the first close marker, and the reply after it. -/
def upToClose (text : Text) : ThinkSplit :=
  match indexOf THINK_CLOSE_TAG text 0 with
  | none => ⟨[], text⟩
  | some close => ⟨trimStart (text.drop (close + THINK_CLOSE_TAG.length)), text.take close⟩

/-- The phases of a text from a state on. -/
def phasesFrom (state : PrefilledState) (text : Text) : ThinkSplit :=
  match state with
  | .leading => upToClose (trimStart text)
  | .reasoning => upToClose text
  | .trailing => ⟨trimStart text, []⟩
  | .reply => ⟨text, []⟩

section Prefilled
variable {pending rest : Text}

theorem trimStart_append (text rest : Text) :
    trimStart (text ++ rest) = if trimStart text = [] then trimStart rest else trimStart text ++ rest := by
  unfold trimStart
  rw [List.dropWhile_append]
  simp only [List.isEmpty_iff]

theorem closeOverlapFrom_eq {length : Nat} (short : length ≤ THINK_CLOSE_TAG.length) (within : length ≤ pending.length) :
    closeOverlapFrom pending length = partialTagFrom THINK_CLOSE_TAG pending length := by
  induction length with
  | zero => rfl
  | succ length ih =>
    unfold closeOverlapFrom partialTagFrom
    have size : (sliceLast pending (length + 1)).length = length + 1 := by
      unfold sliceLast
      rw [List.length_drop]
      omega
    have same : (sliceLast pending (length + 1)).isPrefixOf THINK_CLOSE_TAG = true ↔ THINK_CLOSE_TAG.take (length + 1) <:+ pending := by
      rw [List.isPrefixOf_iff_prefix]
      constructor
      · intro starts
        rw [List.prefix_iff_eq_take, size] at starts
        rw [← starts]
        exact List.drop_suffix _ pending
      · rintro ⟨before, cut⟩
        have last : sliceLast pending (length + 1) = THINK_CLOSE_TAG.take (length + 1) := by
          have count := congrArg List.length cut
          rw [List.length_append, List.length_take, Nat.min_eq_left short] at count
          unfold sliceLast
          rw [← count, Nat.add_sub_cancel, ← cut, List.drop_left]
        rw [last]
        exact List.take_prefix ..
    rw [if_congr same rfl (ih (by omega) (by omega))]

theorem closeOverlap_eq : closeOverlap pending = partialTagLength THINK_CLOSE_TAG pending :=
  closeOverlapFrom_eq (by omega) (by omega)

theorem close_ne_nil : THINK_CLOSE_TAG ≠ [] := by decide

/-- Text without a close marker is reasoning, but for what may start one. -/
theorem upToClose_held (absent : ¬THINK_CLOSE_TAG <:+: pending) (rest : Text) : upToClose (pending ++ rest) =
    ⟨[], pending.take (pending.length - closeOverlap pending)⟩ ++ upToClose (pending.drop (pending.length - closeOverlap pending) ++ rest) := by
  rw [closeOverlap_eq]
  unfold upToClose
  rw [indexOf_held close_ne_nil absent rest]
  have cut : pending.length - partialTagLength THINK_CLOSE_TAG pending ≤ pending.length := Nat.sub_le _ _
  revert cut
  generalize pending.length - partialTagLength THINK_CLOSE_TAG pending = k
  intro cut
  have parts : pending ++ rest = pending.take k ++ (pending.drop k ++ rest) := by rw [← List.append_assoc, List.take_append_drop]
  have size : (pending.take k).length = k := by
    rw [List.length_take]
    omega
  cases indexOf THINK_CLOSE_TAG (pending.drop k ++ rest) 0 with
  | none => exact congrArg (ThinkSplit.mk []) parts
  | some close =>
    have front : (pending ++ rest).take (k + close) = pending.take k ++ (pending.drop k ++ rest).take close := by
      rw [parts, ← List.take_length_add_append, size]
    have back : (pending ++ rest).drop (k + close + THINK_CLOSE_TAG.length) = (pending.drop k ++ rest).drop (close + THINK_CLOSE_TAG.length) := by
      rw [parts, Nat.add_assoc, ← List.drop_drop, List.drop_left' size]
    show (⟨trimStart ((pending ++ rest).drop _), (pending ++ rest).take (k + close)⟩ : ThinkSplit) = _
    rw [front, back]
    rfl

theorem upToClose_found {close : Nat} (seek : indexOf THINK_CLOSE_TAG pending 0 = some close) (rest : Text) : upToClose (pending ++ rest) =
    ⟨[], pending.take close⟩ ++ phasesFrom .trailing (pending.drop (close + THINK_CLOSE_TAG.length) ++ rest) := by
  have fits := (indexOf_bounds (Nat.zero_le _) seek).2
  unfold upToClose
  rw [indexOf_append seek rest]
  show (⟨trimStart ((pending ++ rest).drop _), (pending ++ rest).take close⟩ : ThinkSplit) = ⟨_, pending.take close ++ []⟩
  rw [List.drop_append_of_le_length fits, List.take_append_of_le_length (by omega), List.append_nil]
  rfl

namespace PrefilledFilter

/-- What the phases give of everything from a state on is what went out, and what they give from the new one on. -/
def Agrees (f : PrefilledFilter) (drained : ThinkSplit × PrefilledFilter) (rest : Text) : Prop :=
  phasesFrom f.state (f.pending ++ rest) = drained.1 ++ phasesFrom drained.2.state (drained.2.pending ++ rest)

theorem replying_agrees (f : PrefilledFilter) (rest : Text) : Agrees f f.replying rest := by
  unfold Agrees replying
  by_cases replies : f.state = .reply
  · rw [if_pos replies, replies]
    rfl
  · rw [if_neg replies, ThinkSplit.nothing_append]

theorem trailing_agrees (f : PrefilledFilter) (rest : Text) : Agrees f f.trailing rest := by
  unfold trailing
  by_cases trails : f.state = .trailing
  · rw [if_pos trails]
    refine Eq.trans ?_ (replying_agrees _ rest)
    rw [trails]
    show (⟨trimStart (f.pending ++ rest), []⟩ : ThinkSplit) = _
    rw [trimStart_append]
    by_cases blank : trimStart f.pending = []
    · simp only [blank, if_pos]
      rfl
    · simp only [blank, if_false]
      rfl
  · rw [if_neg trails]
    exact replying_agrees f rest

theorem reasoning_agrees (f : PrefilledFilter) (rest : Text) : Agrees f (f.reasoning false) rest := by
  unfold reasoning
  by_cases reasons : f.state = .reasoning
  · rw [if_pos reasons]
    cases seek : indexOf THINK_CLOSE_TAG f.pending 0 with
    | none =>
      unfold Agrees
      rw [reasons]
      exact upToClose_held ((indexOf_none close_ne_nil).mp seek) rest
    | some close =>
      have trailed := trailing_agrees ⟨.trailing, f.pending.drop (close + THINK_CLOSE_TAG.length)⟩ rest
      unfold Agrees at trailed ⊢
      rw [reasons]
      show upToClose (f.pending ++ rest) = (⟨[], f.pending.take close⟩ ++ _ ++ _ : ThinkSplit)
      rw [upToClose_found seek, ThinkSplit.append_assoc]
      exact congrArg (⟨[], f.pending.take close⟩ ++ ·) trailed
  · rw [if_neg reasons]
    exact trailing_agrees f rest

theorem drain_agrees (f : PrefilledFilter) (rest : Text) : Agrees f (f.drain false) rest := by
  unfold drain
  by_cases leads : f.state = .leading
  · rw [if_pos leads]
    refine Eq.trans ?_ (reasoning_agrees _ rest)
    rw [leads]
    show upToClose (trimStart (f.pending ++ rest)) = _
    rw [trimStart_append]
    by_cases blank : trimStart f.pending = []
    · simp only [blank, if_pos]
      rfl
    · simp only [blank, if_false]
      rfl
  · rw [if_neg leads]
    exact reasoning_agrees f rest

theorem push_agrees (f : PrefilledFilter) (chunk rest : Text) : phasesFrom f.state (f.pending ++ (chunk ++ rest)) =
    (f.push chunk).1 ++ phasesFrom (f.push chunk).2.state ((f.push chunk).2.pending ++ rest) := by
  rw [← List.append_assoc]
  exact drain_agrees { f with pending := f.pending ++ chunk } rest

theorem replying_phases (f : PrefilledFilter) (replies : f.state = .reply ∨ f.pending = []) : f.replying.1 = phasesFrom f.state f.pending := by
  unfold replying
  by_cases reply : f.state = .reply
  · rw [if_pos reply, reply]
    rfl
  · have empty := replies.resolve_left reply
    rw [if_neg reply, empty]
    cases f.state <;> rfl

theorem trailing_phases (f : PrefilledFilter) (later : f.state = .trailing ∨ f.state = .reply ∨ f.pending = []) :
    f.trailing.1 = phasesFrom f.state f.pending := by
  unfold trailing
  by_cases trails : f.state = .trailing
  · rw [if_pos trails, trails]
    by_cases blank : trimStart f.pending = []
    · have same := replying_phases ⟨.trailing, trimStart f.pending⟩ (.inr blank)
      simp only [blank, if_pos] at same ⊢
      rw [same]
      exact congrArg (ThinkSplit.mk · []) blank.symm
    · have same := replying_phases ⟨.reply, trimStart f.pending⟩ (.inl rfl)
      simp only [blank, if_false] at same ⊢
      rw [same]
      rfl
  · rw [if_neg trails]
    exact replying_phases f (later.resolve_left trails)

theorem reasoning_phases (f : PrefilledFilter) (later : f.state = .leading → f.pending = []) :
    (f.reasoning true).1 = phasesFrom f.state f.pending := by
  unfold reasoning
  by_cases reasons : f.state = .reasoning
  · rw [if_pos reasons, reasons]
    unfold phasesFrom upToClose
    cases seek : indexOf THINK_CLOSE_TAG f.pending 0 with
    | none =>
      simp only [if_pos, Nat.sub_zero, List.take_length]
    | some close =>
      have same := trailing_phases ⟨.trailing, f.pending.drop (close + THINK_CLOSE_TAG.length)⟩ (.inl rfl)
      show (⟨[], f.pending.take close⟩ ++ (trailing ⟨.trailing, f.pending.drop (close + THINK_CLOSE_TAG.length)⟩).1 : ThinkSplit) = _
      rw [same]
      show (⟨trimStart _, f.pending.take close ++ []⟩ : ThinkSplit) = _
      rw [List.append_nil]
  · rw [if_neg reasons]
    apply trailing_phases
    cases place : f.state with
    | leading => exact .inr (.inr (later place))
    | reasoning => exact absurd place reasons
    | trailing => exact .inl rfl
    | reply => exact .inr (.inl rfl)

theorem flush_phases (f : PrefilledFilter) : f.flush.1 = phasesFrom f.state f.pending := by
  unfold flush drain
  by_cases leads : f.state = .leading
  · rw [if_pos leads, leads]
    by_cases blank : trimStart f.pending = []
    · have same := reasoning_phases ⟨.leading, trimStart f.pending⟩ fun _ => blank
      simp only [blank, if_pos] at same ⊢
      rw [same]
      show upToClose (trimStart []) = upToClose (trimStart f.pending)
      rw [blank]
      rfl
    · have same := reasoning_phases ⟨.reasoning, trimStart f.pending⟩ fun other => by cases other
      simp only [blank, if_false] at same ⊢
      rw [same]
      rfl
  · rw [if_neg leads]
    exact reasoning_phases f fun other => absurd other leads

theorem stream_phases (f : PrefilledFilter) (chunks : List Text) : f.stream chunks = phasesFrom f.state (f.pending ++ chunks.flatten) := by
  induction chunks generalizing f with
  | nil =>
    rw [List.flatten_nil, List.append_nil]
    exact flush_phases f
  | cons chunk chunks ih => rw [stream, ih, List.flatten_cons, push_agrees]

end PrefilledFilter

end Prefilled

end Bike4Mind.Replies
