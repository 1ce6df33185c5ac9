import Bike4Mind.Replies.ThinkMarkers

/-! Reasoning withheld from a stream, and which units of the stream come through. -/

namespace Bike4Mind.Replies

open Texts

inductive ReasoningChannel where
  | never | optIn | always
  deriving DecidableEq

inductive StreamChannel where
  | reasoning | toolArtifact
  deriving DecidableEq

structure ReasoningWithholder where
  reasoningChannel : ReasoningChannel
  depth : Nat
  pending : Text
  deriving DecidableEq

def createReasoningWithholder (reasoningChannel : ReasoningChannel) : ReasoningWithholder := ⟨reasoningChannel, 0, []⟩

structure Chunk where
  text : Text
  channel : Option StreamChannel
  deriving DecidableEq

namespace ReasoningWithholder

def visible (withholder : ReasoningWithholder) (chunk : Chunk) : Text × ReasoningWithholder :=
  if withholder.reasoningChannel ≠ .always then
    if chunk.text = [] ∨ withholder.reasoningChannel = .never then (chunk.text, withholder) else
    let trimmed := trim chunk.text
    if chunk.channel = some .reasoning ∨ trimmed = THINK_OPEN_TAG ∨ trimmed = THINK_CLOSE_TAG then ([], withholder)
    else (chunk.text, withholder)
  else if chunk.text = [] then (chunk.text, withholder) else
    let combined := withholder.pending ++ chunk.text
    let holdLength := partialMarkerSuffixLength combined
    let (depth, visible) := scanText withholder.depth (combined.take (combined.length - holdLength))
    (if chunk.channel = some .reasoning then [] else visible,
      { withholder with depth, pending := combined.drop (combined.length - holdLength) })

def flush (withholder : ReasoningWithholder) : Text × ReasoningWithholder :=
  if withholder.reasoningChannel ≠ .always then ([], withholder)
  else if withholder.pending = [] then ([], withholder)
  else
    let (depth, visible) := scanText withholder.depth withholder.pending
    (visible, { withholder with depth, pending := [] })

/-- The chunks of a stream one after another, and the flush. -/
def stream (withholder : ReasoningWithholder) : List Chunk → Text
  | [] => withholder.flush.1
  | chunk :: rest => (withholder.visible chunk).1 ++ (withholder.visible chunk).2.stream rest

end ReasoningWithholder

def textOf (chunks : List Chunk) : Text := (chunks.map (·.text)).flatten

/-! ### Unit by unit -/

def select : List Bool → Text → Text
  | true :: mask, c :: text => c :: select mask text
  | false :: mask, _ :: text => select mask text
  | _, _ => []

/-- For each unit of a scanned text, whether it is shown. -/
def shownTokens : (depth : Nat) → List (Token CodeUnit) → List Bool
  | _, [] => []
  | depth, .plain _ :: rest => decide (depth = 0) :: shownTokens depth rest
  | depth, .found hit :: rest =>
    if hit.whole = THINK_OPEN_TAG then List.replicate hit.whole.length false ++ shownTokens (depth + 1) rest
    else if 0 < depth then List.replicate hit.whole.length false ++ shownTokens (depth - 1) rest
    else List.replicate hit.whole.length true ++ shownTokens depth rest

theorem shownTokens_plain (depth : Nat) (c : CodeUnit) (rest : List (Token CodeUnit)) :
    shownTokens depth (.plain c :: rest) = decide (depth = 0) :: shownTokens depth rest := rfl

theorem shownTokens_found (depth : Nat) (hit : Match CodeUnit) (rest : List (Token CodeUnit)) :
    shownTokens depth (.found hit :: rest) =
      if hit.whole = THINK_OPEN_TAG then List.replicate hit.whole.length false ++ shownTokens (depth + 1) rest
      else if 0 < depth then List.replicate hit.whole.length false ++ shownTokens (depth - 1) rest
      else List.replicate hit.whole.length true ++ shownTokens depth rest := rfl

def shown (depth : Nat) (text : Text) : List Bool := shownTokens depth (THINK_TAG_TOKENS.lex text)

/-- For each unit of a stream, whether its chunk came without a tag. -/
def untagged (chunks : List Chunk) : List Bool := chunks.flatMap fun chunk => List.replicate chunk.text.length chunk.channel.isNone

/-- For each unit that a chunk releases, whether it is passed on. -/
def keptNow (withholder : ReasoningWithholder) (chunk : Chunk) : List Bool :=
  if chunk.channel = some .reasoning then List.replicate (safeOf (withholder.pending ++ chunk.text)).length false
  else shown withholder.depth (safeOf (withholder.pending ++ chunk.text))

/-- For each unit that is held back or still to come, whether the stream passes it on. -/
def keptFrom (withholder : ReasoningWithholder) : List Chunk → List Bool
  | [] => shown withholder.depth withholder.pending
  | chunk :: rest =>
    if chunk.text = [] then keptFrom withholder rest
    else keptNow withholder chunk ++ keptFrom (withholder.visible chunk).2 rest

def kept (chunks : List Chunk) : List Bool := keptFrom (createReasoningWithholder .always) chunks

/-- What is owed and visible is kept. -/
def Spared (owed visible kept : List Bool) : Prop :=
  ∀ i : Nat, owed[i]? = some true → visible[i]? = some true → kept[i]? = some true

/-- Every unit of an untagged chunk that lies at depth zero is passed on. -/
def NothingLost (chunks : List Chunk) : Prop := Spared (untagged chunks) (shown 0 (textOf chunks)) (kept chunks)

/-- Where a tagged chunk arrives at depth zero while a unit of an untagged chunk is held back, the two are held back
together, or begin with a marker that opens. -/
def SettlesHeld (withholder : ReasoningWithholder) (held : List Bool) (chunk : Chunk) : Prop :=
  chunk.channel = some .reasoning → withholder.depth = 0 → true ∈ held →
    partialMarkerSuffixLength (withholder.pending ++ chunk.text) = (withholder.pending ++ chunk.text).length ∨
    THINK_OPEN_TAG <+: withholder.pending ++ chunk.text

/-- What of the held back units came without a tag, after a chunk. -/
def heldAfter (withholder : ReasoningWithholder) (held : List Bool) (chunk : Chunk) : List Bool :=
  (held ++ List.replicate chunk.text.length chunk.channel.isNone).drop (safeOf (withholder.pending ++ chunk.text)).length

def SettlesFrom (withholder : ReasoningWithholder) (held : List Bool) : List Chunk → Prop
  | [] => True
  | chunk :: rest =>
    if chunk.text = [] then SettlesFrom withholder held rest else
    SettlesHeld withholder held chunk ∧ SettlesFrom (withholder.visible chunk).2 (heldAfter withholder held chunk) rest

/-- Every non-empty chunk of a stream settles what is held back when it arrives. -/
def Settles (chunks : List Chunk) : Prop := SettlesFrom (createReasoningWithholder .always) [] chunks

/-! ### What a scan shows, unit by unit -/

section Shown
variable {text rest : Text} {depth index : Nat} {mask mask' : List Bool}

theorem select_append (same : mask.length = text.length) : select (mask ++ mask') (text ++ rest) = select mask text ++ select mask' rest := by
  induction mask generalizing text with
  | nil => rw [List.length_eq_zero_iff.mp same.symm]; rfl
  | cons shows mask ih =>
    cases text with
    | nil => exact absurd same (Nat.succ_ne_zero _)
    | cons c text =>
      have later := @ih text (Nat.succ.inj same)
      cases shows with
      | false => exact later
      | true => exact congrArg (c :: ·) later

theorem select_hidden (count : Nat) : select (List.replicate count false) text = [] := by
  induction count generalizing text with
  | zero => cases text <;> rfl
  | succ count ih =>
    cases text with
    | nil => rfl
    | cons c text => exact ih

theorem select_whole : select (List.replicate text.length true) text = text := by
  induction text with
  | nil => rfl
  | cons c text ih => exact congrArg (c :: ·) ih

theorem mem_select {c : CodeUnit} (member : c ∈ select mask text) : c ∈ text := by
  induction mask generalizing text with
  | nil => cases text <;> exact absurd member List.not_mem_nil
  | cons shows mask ih =>
    cases text with
    | nil => cases shows <;> exact absurd member List.not_mem_nil
    | cons d text =>
      cases shows with
      | false => exact List.mem_cons_of_mem d (ih member)
      | true =>
        rcases List.mem_cons.mp member with same | later
        · exact same ▸ List.mem_cons_self
        · exact List.mem_cons_of_mem d (ih later)

theorem shownTokens_index {index' : Nat} (text : Text) : shownTokens depth (THINK_TAG_TOKENS.lexFrom 0 index text) =
    shownTokens depth (THINK_TAG_TOKENS.lexFrom 0 index' text) := by
  induction text using marked_induction generalizing depth index index' with
  | nothing => rw [tokens_nil, tokens_nil]
  | opened rest ih =>
    rw [tokens_open, tokens_open, shownTokens_found, if_pos rfl, shownTokens_found, if_pos rfl, @ih _ _ (index' + THINK_OPEN_TAG.length)]
  | closed rest ih =>
    rw [tokens_close, tokens_close, shownTokens_found, if_neg close_ne_open, shownTokens_found, if_neg close_ne_open]
    rw [@ih (depth - 1) _ (index' + THINK_CLOSE_TAG.length), @ih depth _ (index' + THINK_CLOSE_TAG.length)]
  | plain c rest none ih => rw [tokens_plain none, tokens_plain none, shownTokens_plain, shownTokens_plain, @ih _ _ (index' + 1)]

theorem shown_nil : shown depth [] = [] := by
  unfold shown Regex.lex
  rw [tokens_nil]
  rfl

theorem shown_open (rest : Text) :
    shown depth (THINK_OPEN_TAG ++ rest) = List.replicate THINK_OPEN_TAG.length false ++ shown (depth + 1) rest := by
  unfold shown Regex.lex
  rw [tokens_open, shownTokens_found, if_pos rfl, @shownTokens_index _ (0 + THINK_OPEN_TAG.length) 0]

theorem shown_close (rest : Text) : shown depth (THINK_CLOSE_TAG ++ rest) =
    if 0 < depth then List.replicate THINK_CLOSE_TAG.length false ++ shown (depth - 1) rest
    else List.replicate THINK_CLOSE_TAG.length true ++ shown depth rest := by
  unfold shown Regex.lex
  rw [tokens_close, shownTokens_found, if_neg close_ne_open, @shownTokens_index _ (0 + THINK_CLOSE_TAG.length) 0,
    @shownTokens_index depth (0 + THINK_CLOSE_TAG.length) 0]

theorem shown_plain {c : CodeUnit} (plain : ∀ marker, IsMarker marker → ¬marker <+: c :: rest) :
    shown depth (c :: rest) = decide (depth = 0) :: shown depth rest := by
  unfold shown Regex.lex
  rw [tokens_plain plain, shownTokens_plain, @shownTokens_index _ (0 + 1) 0]

theorem shown_length (depth : Nat) (text : Text) : (shown depth text).length = text.length := by
  induction text using marked_induction generalizing depth with
  | nothing => rw [shown_nil]; rfl
  | opened rest ih => rw [shown_open, List.length_append, List.length_append, List.length_replicate, ih]
  | closed rest ih =>
    rw [shown_close]
    split
    · rw [List.length_append, List.length_append, List.length_replicate, ih]
    · rw [List.length_append, List.length_append, List.length_replicate, ih]
  | plain c rest none ih => rw [shown_plain none, List.length_cons, List.length_cons, ih]

theorem select_shown (depth : Nat) (text : Text) : select (shown depth text) text = (scanText depth text).2 := by
  induction text using marked_induction generalizing depth with
  | nothing => rw [shown_nil, scan_nil]; rfl
  | opened rest ih => rw [shown_open, scan_open, select_append List.length_replicate, select_hidden, ih, List.nil_append]
  | closed rest ih =>
    rw [shown_close, scan_close]
    by_cases inside : 0 < depth
    · rw [if_pos inside, if_pos inside, select_append List.length_replicate, select_hidden, ih, List.nil_append]
    · rw [if_neg inside, if_neg inside, select_append List.length_replicate, select_whole, ih]
      rfl
  | plain c rest none ih =>
    rw [shown_plain none, scan_plain none]
    by_cases outside : depth = 0
    · rw [if_pos outside, decide_eq_true outside]
      exact congrArg (c :: ·) (ih depth)
    · rw [if_neg outside, decide_eq_false outside]
      exact ih depth

theorem shownTokens_append (before after : List (Token CodeUnit)) : shownTokens depth (before ++ after) =
    shownTokens depth before ++ shownTokens (scanTokens depth before).1 after := by
  induction before generalizing depth with
  | nil => rfl
  | cons token before ih =>
    cases token with
    | plain c =>
      rw [List.cons_append, shownTokens_plain, shownTokens_plain, scanTokens_plain, ih]
      by_cases outside : depth = 0
      · simp [outside, shownAfter]
      · simp [outside]
    | found hit =>
      rw [List.cons_append, shownTokens_found, shownTokens_found, scanTokens_found, ih, ih, ih]
      by_cases opens : hit.whole = THINK_OPEN_TAG
      · rw [if_pos opens, if_pos opens, if_pos opens, List.append_assoc]
      · rw [if_neg opens, if_neg opens, if_neg opens]
        by_cases inside : 0 < depth
        · rw [if_pos inside, if_pos inside, if_pos inside, List.append_assoc]
        · simp [inside, shownAfter]

theorem shown_safe (text rest : Text) : shown depth (text ++ rest) =
    shown depth (safeOf text) ++ shown (scanText depth (safeOf text)).1 (heldOf text ++ rest) := by
  have apart := safe_apart tokens_first text rest
  have split : text ++ rest = safeOf text ++ (heldOf text ++ rest) := by rw [← List.append_assoc, safe_held]
  have nothing : THINK_TAG_TOKENS.first [] = none := (tokens_first []).trans (by decide)
  unfold shown
  rw [split, Regex.lex, Regex.lexFrom_append apart nothing (Nat.zero_le _), shownTokens_append, scanText_eq,
    @shownTokens_index _ (0 + (safeOf text).length) 0]
  rfl

end Shown

/-! ### The stream -/

section Stream
variable {withholder : ReasoningWithholder} {chunk : Chunk} {chunks : List Chunk}

theorem textOf_cons (chunk : Chunk) (rest : List Chunk) : textOf (chunk :: rest) = chunk.text ++ textOf rest := rfl

theorem visible_empty (parsed : withholder.reasoningChannel = .always) (empty : chunk.text = []) :
    withholder.visible chunk = ([], withholder) := by
  unfold ReasoningWithholder.visible
  rw [if_neg (not_not.mpr parsed), if_pos empty, empty]

/-- What one non-empty chunk releases, and what it leaves held back. -/
theorem visible_some (parsed : withholder.reasoningChannel = .always) (some_ : chunk.text ≠ []) :
    withholder.visible chunk =
      (if chunk.channel = some .reasoning then [] else (scanText withholder.depth (safeOf (withholder.pending ++ chunk.text))).2,
        ⟨.always, (scanText withholder.depth (safeOf (withholder.pending ++ chunk.text))).1, heldOf (withholder.pending ++ chunk.text)⟩) := by
  unfold ReasoningWithholder.visible
  rw [if_neg (not_not.mpr parsed), if_neg some_, ← parsed]
  rfl

theorem flush_eq (parsed : withholder.reasoningChannel = .always) :
    withholder.flush.1 = (scanText withholder.depth withholder.pending).2 := by
  unfold ReasoningWithholder.flush
  rw [if_neg (not_not.mpr parsed)]
  split
  · rename_i none
    rw [none, scan_nil]
  · rfl

theorem keptNow_length : (keptNow withholder chunk).length = (safeOf (withholder.pending ++ chunk.text)).length := by
  unfold keptNow
  split
  · exact List.length_replicate
  · exact shown_length _ _

theorem visible_parsed (parsed : withholder.reasoningChannel = .always) (chunk : Chunk) :
    (withholder.visible chunk).2.reasoningChannel = .always := by
  by_cases empty : chunk.text = []
  · rw [visible_empty parsed empty]
    exact parsed
  · rw [visible_some parsed empty]

theorem pending_split (rest : List Chunk) : withholder.pending ++ (chunk.text ++ textOf rest) =
    safeOf (withholder.pending ++ chunk.text) ++ (heldOf (withholder.pending ++ chunk.text) ++ textOf rest) := by
  rw [← List.append_assoc, ← List.append_assoc, safe_held]

/-- `keptFrom` says of each unit what the stream does with it. -/
theorem stream_kept (parsed : withholder.reasoningChannel = .always) :
    withholder.stream chunks = select (keptFrom withholder chunks) (withholder.pending ++ textOf chunks) := by
  induction chunks generalizing withholder with
  | nil =>
    unfold ReasoningWithholder.stream keptFrom
    rw [flush_eq parsed, show textOf [] = [] from rfl, List.append_nil, select_shown]
  | cons chunk rest ih =>
    unfold ReasoningWithholder.stream keptFrom
    rw [textOf_cons, ih (visible_parsed parsed chunk)]
    by_cases empty : chunk.text = []
    · rw [visible_empty parsed empty, if_pos empty, empty]
      rfl
    · rw [if_neg empty, pending_split, select_append keptNow_length, visible_some parsed empty]
      congr 1
      unfold keptNow
      by_cases reasoning : chunk.channel = some .reasoning
      · rw [if_pos reasoning, if_pos reasoning, select_hidden]
      · rw [if_neg reasoning, if_neg reasoning, select_shown]

/-- A stream without tags passes on what the scan of the whole shows. -/
theorem kept_untagged (parsed : withholder.reasoningChannel = .always) (plain : ∀ chunk ∈ chunks, chunk.channel = none) :
    keptFrom withholder chunks = shown withholder.depth (withholder.pending ++ textOf chunks) := by
  induction chunks generalizing withholder with
  | nil =>
    unfold keptFrom
    rw [show textOf [] = [] from rfl, List.append_nil]
  | cons chunk rest ih =>
    have later : ∀ chunk ∈ rest, chunk.channel = none := fun chunk member => plain chunk (List.mem_cons_of_mem _ member)
    unfold keptFrom
    rw [textOf_cons]
    by_cases empty : chunk.text = []
    · rw [if_pos empty, empty]
      exact ih parsed later
    · have whole := @shown_safe withholder.depth (withholder.pending ++ chunk.text) (textOf rest)
      have none : chunk.channel ≠ some .reasoning := by
        rw [plain chunk List.mem_cons_self]
        exact fun same => by cases same
      unfold keptNow
      rw [if_neg empty, if_neg none, ih (visible_parsed parsed chunk) later, ← List.append_assoc, whole, visible_some parsed empty]

end Stream

/-! ### What is lost -/

section Loss
variable {owed visible kept owed' visible' kept' : List Bool} {text rest body : Text} {depth i : Nat}

theorem spared_append (wide : owed.length = kept.length) (wide' : visible.length = kept.length) :
    Spared (owed ++ owed') (visible ++ visible') (kept ++ kept') ↔ Spared owed visible kept ∧ Spared owed' visible' kept' := by
  constructor
  · intro spared
    refine ⟨fun i due seen => ?_, fun i due seen => ?_⟩
    · have inside : i < owed.length := (List.getElem?_eq_some_iff.mp due).1
      have whole := spared i
      rw [List.getElem?_append_left inside, List.getElem?_append_left (by omega), List.getElem?_append_left (by omega)] at whole
      exact whole due seen
    · have whole := spared (kept.length + i)
      rw [List.getElem?_append_right (by omega), List.getElem?_append_right (by omega), List.getElem?_append_right (by omega)] at whole
      rw [wide, wide', Nat.add_sub_cancel_left] at whole
      exact whole due seen
  · intro ⟨left, right⟩ i due seen
    by_cases inside : i < kept.length
    · rw [List.getElem?_append_left (by omega)] at due seen ⊢
      exact left i due seen
    · rw [List.getElem?_append_right (by omega)] at due seen ⊢
      rw [wide] at due
      rw [wide'] at seen
      exact right _ due seen

theorem shown_body (plain : LESS_THAN ∉ body) (starts : body <+: text) (inside : i < body.length) :
    (shown depth text)[i]? = some (decide (depth = 0)) := by
  induction body generalizing text i with
  | nil => exact absurd inside (Nat.not_lt_zero i)
  | cons c body ih =>
    obtain ⟨after, same⟩ := starts
    subst same
    have front : ∀ marker, IsMarker marker → ¬marker <+: c :: (body ++ after) := by
      intro marker known front
      obtain ⟨_, opens, _⟩ := known.cons
      rw [opens] at front
      exact plain ((List.cons_prefix_cons.mp front).1 ▸ List.mem_cons_self)
    rw [List.cons_append, shown_plain front]
    cases i with
    | zero => rfl
    | succ i =>
      exact ih (fun member => plain (List.mem_cons_of_mem _ member)) (List.prefix_append body after) (Nat.lt_of_succ_lt_succ inside)

/-- A unit that was held back is shown at depth zero, unless a marker that opens takes it. -/
theorem shown_front (plain : LESS_THAN ∉ body) (starts : LESS_THAN :: body <+: text) (short : body.length < THINK_OPEN_TAG.length)
    (inside : i < (LESS_THAN :: body).length) :
    (shown depth text)[i]? = some (decide (depth = 0) && !decide (THINK_OPEN_TAG <+: text)) := by
  have bound : i < THINK_OPEN_TAG.length := by
    rw [List.length_cons] at inside
    omega
  by_cases opens : THINK_OPEN_TAG <+: text
  · obtain ⟨after, same⟩ := opens
    subst same
    rw [shown_open, List.getElem?_append_left (by rwa [List.length_replicate]), List.getElem?_replicate_of_lt bound,
      decide_eq_true (List.prefix_append _ _)]
    simp
  · rw [decide_eq_false opens]
    simp only [Bool.not_false, Bool.and_true]
    by_cases closes : THINK_CLOSE_TAG <+: text
    · obtain ⟨after, same⟩ := closes
      subst same
      have longer : THINK_OPEN_TAG.length < THINK_CLOSE_TAG.length := by decide
      rw [shown_close]
      by_cases zero : depth = 0
      · rw [if_neg (by omega), List.getElem?_append_left (by rw [List.length_replicate]; omega),
          List.getElem?_replicate_of_lt (by omega), decide_eq_true zero]
      · rw [if_pos (by omega), List.getElem?_append_left (by rw [List.length_replicate]; omega),
          List.getElem?_replicate_of_lt (by omega), decide_eq_false zero]
    · obtain ⟨after, same⟩ := starts
      subst same
      have front : ∀ marker, IsMarker marker → ¬marker <+: LESS_THAN :: (body ++ after) := by
        rintro marker (same | same)
        · rw [same]
          exact opens
        · rw [same]
          exact closes
      rw [List.cons_append, shown_plain front]
      cases i with
      | zero => rfl
      | succ i => exact shown_body plain (List.prefix_append body after) (Nat.lt_of_succ_lt_succ inside)

/-- What is held back of some text. -/
def Holding (pending : Text) : Prop := ∃ text, pending = heldOf text

theorem Holding.cons {pending : Text} (holding : Holding pending) (some : pending ≠ []) :
    ∃ body, pending = LESS_THAN :: body ∧ LESS_THAN ∉ body ∧ body.length < THINK_OPEN_TAG.length := by
  obtain ⟨text, same⟩ := holding
  subst same
  obtain ⟨body, opens⟩ := held_cons some
  obtain ⟨marker, known, starts⟩ := held_starts some
  obtain ⟨rest, cut, plain⟩ := known.cons
  rw [opens, cut] at starts
  have inside := (List.cons_prefix_cons.mp starts).2
  have count := @held_length text
  have most : partialMarkerSuffixLength text ≤ MAX_PARTIAL_MARKER_LENGTH := le_trans partialMarkerSuffixFrom_le (Nat.min_le_left _ _)
  have size : MAX_PARTIAL_MARKER_LENGTH = THINK_OPEN_TAG.length := by decide
  rw [opens, List.length_cons] at count
  exact ⟨body, opens, fun member => plain (inside.subset member), by omega⟩

/-- What a text adds to what is held back releases all of it, or nothing. -/
theorem held_released {pending : Text} (holding : Holding pending) (some : safeOf (pending ++ text) ≠ []) :
    pending <+: safeOf (pending ++ text) := by
  by_cases none : pending = []
  · rw [none]
    exact List.nil_prefix
  · obtain ⟨body, opens, plain, _⟩ := holding.cons none
    have whole := safe_held (pending ++ text)
    by_contra exceeds
    have short : (safeOf (pending ++ text)).length < pending.length := by
      by_contra long
      exact exceeds (List.prefix_of_prefix_length_le (List.prefix_append pending text) ⟨_, whole⟩ (not_lt.mp long))
    obtain ⟨past, cut⟩ : safeOf (pending ++ text) <+: pending :=
      List.prefix_of_prefix_length_le ⟨_, whole⟩ (List.prefix_append pending text) short.le
    have left : past ≠ [] := by
      intro empty
      rw [empty, List.append_nil] at cut
      exact Nat.lt_irrefl _ (cut ▸ short)
    have later : heldOf (pending ++ text) = past ++ text := by
      refine @List.append_cancel_left _ (safeOf (pending ++ text)) _ _ ?_
      rw [whole, ← List.append_assoc, cut]
    obtain ⟨rest, first⟩ := @held_cons (pending ++ text) (by
      rw [later]
      exact fun empty => left (List.append_eq_nil_iff.mp empty).1)
    obtain ⟨d, past', cons⟩ := List.exists_cons_of_ne_nil left
    have head : d = LESS_THAN := by
      rw [later, cons] at first
      exact (List.cons.inj first).1
    obtain ⟨c, before, cons'⟩ := List.exists_cons_of_ne_nil some
    rw [cons', opens, List.cons_append] at cut
    refine plain ?_
    rw [← (List.cons.inj cut).2, cons, head]
    exact List.mem_append_right before List.mem_cons_self

end Loss

section Settled
variable {withholder : ReasoningWithholder} {chunk : Chunk} {chunks : List Chunk} {held : List Bool} {text : Text}

theorem safe_nil : safeOf text = [] ↔ partialMarkerSuffixLength text = text.length := by
  have fits := @partialMarkerSuffixLength_le text
  unfold safeOf
  rw [← List.length_eq_zero_iff, List.length_take]
  omega

theorem safe_opens (some : safeOf text ≠ []) : THINK_OPEN_TAG <+: text ↔ THINK_OPEN_TAG <+: safeOf text := by
  have apart := @marker_apart text (safeOf text) [] THINK_OPEN_TAG (.inl rfl) some List.suffix_rfl
  rwa [List.append_nil, safe_held] at apart

/-- What a chunk tagged as reasoning drops, it drops without loss just when it settles what was held back. -/
theorem reasoning_spares (holding : Holding withholder.pending) (wide : held.length = withholder.pending.length)
    (reasoning : chunk.channel = some .reasoning) :
    Spared ((held ++ List.replicate chunk.text.length chunk.channel.isNone).take (safeOf (withholder.pending ++ chunk.text)).length)
      (shown withholder.depth (safeOf (withholder.pending ++ chunk.text))) (keptNow withholder chunk) ↔
        SettlesHeld withholder held chunk := by
  have tag : chunk.channel.isNone = false := by rw [reasoning]; rfl
  unfold keptNow SettlesHeld
  rw [if_pos reasoning, tag, ← safe_nil]
  constructor
  · intro spared _ outside due
    by_cases none : safeOf (withholder.pending ++ chunk.text) = []
    · exact .inl none
    · refine .inr ((safe_opens none).mpr ?_)
      have released := held_released holding none
      have fits := released.length_le
      obtain ⟨i, at_⟩ := List.mem_iff_getElem?.mp due
      have inside : i < held.length := (List.getElem?_eq_some_iff.mp at_).1
      have some : withholder.pending ≠ [] := fun empty => by
        rw [wide, empty] at inside
        exact Nat.not_lt_zero i inside
      obtain ⟨body, opens, plain, short⟩ := holding.cons some
      by_contra hidden
      have seen := @shown_front (safeOf (withholder.pending ++ chunk.text)) body withholder.depth i plain (opens ▸ released) short
        (by rw [← opens, ← wide]; exact inside)
      rw [decide_eq_true outside, decide_eq_false hidden] at seen
      have owed : ((held ++ List.replicate chunk.text.length false).take (safeOf (withholder.pending ++ chunk.text)).length)[i]? =
          Option.some true := by
        rw [List.getElem?_take_of_lt (by omega), List.getElem?_append_left inside]
        exact at_
      have lost := spared i owed seen
      rw [List.getElem?_replicate_of_lt (by omega)] at lost
      cases lost
  · intro settles i owed seen
    have inside := (List.getElem?_eq_some_iff.mp owed).1
    rw [List.length_take] at inside
    rw [List.getElem?_take_of_lt (by omega)] at owed
    have early : i < held.length := by
      by_contra late
      rw [List.getElem?_append_right (not_lt.mp late)] at owed
      exact Bool.noConfusion (List.mem_replicate.mp (List.mem_of_getElem? owed)).2
    rw [List.getElem?_append_left early] at owed
    have none : safeOf (withholder.pending ++ chunk.text) ≠ [] := fun empty => by
      rw [empty] at inside
      exact Nat.not_lt_zero i (lt_of_lt_of_le inside (Nat.min_le_left _ _))
    have some : withholder.pending ≠ [] := fun empty => by
      rw [wide, empty] at early
      exact Nat.not_lt_zero i early
    obtain ⟨body, opens, plain, short⟩ := holding.cons some
    have front := @shown_front (safeOf (withholder.pending ++ chunk.text)) body withholder.depth i plain
      (opens ▸ held_released holding none) short (by rw [← opens, ← wide]; exact early)
    rw [front] at seen
    have shows := Option.some.inj seen
    rw [Bool.and_eq_true, decide_eq_true_eq, Bool.not_eq_true', decide_eq_false_iff_not] at shows
    rcases settles reasoning shows.1 (List.mem_of_getElem? owed) with whole | opener
    · exact (none whole).elim
    · exact (shows.2 ((safe_opens none).mp opener)).elim

theorem other_spares (other : chunk.channel ≠ some .reasoning) (owed : List Bool) :
    Spared owed (shown withholder.depth (safeOf (withholder.pending ++ chunk.text))) (keptNow withholder chunk) := by
  unfold keptNow
  rw [if_neg other]
  exact fun _ _ seen => seen

theorem chunk_spares (holding : Holding withholder.pending) (wide : held.length = withholder.pending.length) :
    Spared ((held ++ List.replicate chunk.text.length chunk.channel.isNone).take (safeOf (withholder.pending ++ chunk.text)).length)
      (shown withholder.depth (safeOf (withholder.pending ++ chunk.text))) (keptNow withholder chunk) ↔
        SettlesHeld withholder held chunk := by
  by_cases reasoning : chunk.channel = some .reasoning
  · exact reasoning_spares holding wide reasoning
  · exact iff_of_true (other_spares reasoning _) fun tagged => (reasoning tagged).elim

/-- Over a stream nothing is lost just when every chunk settles what is held back. -/
theorem stream_spares (parsed : withholder.reasoningChannel = .always) (holding : Holding withholder.pending)
    (wide : held.length = withholder.pending.length) :
    Spared (held ++ untagged chunks) (shown withholder.depth (withholder.pending ++ textOf chunks)) (keptFrom withholder chunks) ↔
      SettlesFrom withholder held chunks := by
  induction chunks generalizing withholder held with
  | nil =>
    unfold keptFrom SettlesFrom
    rw [show textOf [] = [] from rfl, List.append_nil withholder.pending]
    exact iff_of_true (fun _ _ seen => seen) trivial
  | cons chunk rest ih =>
    unfold keptFrom SettlesFrom
    have tags : untagged (chunk :: rest) = List.replicate chunk.text.length chunk.channel.isNone ++ untagged rest := rfl
    by_cases empty : chunk.text = []
    · rw [if_pos empty, if_pos empty, ← ih parsed holding wide, tags, textOf_cons, empty]
      rfl
    · have size := congrArg List.length (safe_held (withholder.pending ++ chunk.text))
      rw [List.length_append, List.length_append] at size
      have total : (held ++ List.replicate chunk.text.length chunk.channel.isNone).length =
          withholder.pending.length + chunk.text.length := by
        rw [List.length_append, List.length_replicate, wide]
      have wideAfter : (heldAfter withholder held chunk).length = (withholder.visible chunk).2.pending.length := by
        unfold heldAfter
        rw [visible_some parsed empty, List.length_drop]
        dsimp only
        omega
      have holdingAfter : Holding (withholder.visible chunk).2.pending := by
        rw [visible_some parsed empty]
        exact ⟨_, rfl⟩
      have later := @ih (withholder.visible chunk).2 (heldAfter withholder held chunk) (visible_parsed parsed chunk) holdingAfter wideAfter
      have whole := @shown_safe withholder.depth (withholder.pending ++ chunk.text) (textOf rest)
      have owed : held ++ untagged (chunk :: rest) =
          (held ++ List.replicate chunk.text.length chunk.channel.isNone).take (safeOf (withholder.pending ++ chunk.text)).length ++
            (heldAfter withholder held chunk ++ untagged rest) := by
        unfold heldAfter
        rw [tags, ← List.append_assoc, ← List.append_assoc, List.take_append_drop]
      rw [if_neg empty, if_neg empty, ← later, ← chunk_spares holding wide, owed, textOf_cons, ← List.append_assoc withholder.pending,
        whole, spared_append]
      · rw [visible_some parsed empty]
      · rw [keptNow_length, List.length_take]
        omega
      · rw [keptNow_length, shown_length]

end Settled

theorem withheld_stream_agrees (chunks : List Chunk) :
    (createReasoningWithholder .always).stream chunks = select (kept chunks) (textOf chunks) ∧
    ((((∀ chunk ∈ chunks, chunk.channel = none) →
        (createReasoningWithholder .always).stream chunks = (scanText 0 (textOf chunks)).2 ∧
        (trim (scanText 0 (textOf chunks)).2 ≠ [] →
          (createReasoningWithholder .always).stream chunks = visibleReplyText (some (textOf chunks)))) ∧
      NothingLost chunks) ↔ Settles chunks) := by
  have passed : (createReasoningWithholder .always).stream chunks = select (kept chunks) (textOf chunks) := stream_kept rfl
  have spared : NothingLost chunks ↔ Settles chunks := @stream_spares (createReasoningWithholder .always) chunks [] rfl ⟨[], rfl⟩ rfl
  have scanned (plain : ∀ chunk ∈ chunks, chunk.channel = none) :
      (createReasoningWithholder .always).stream chunks = (scanText 0 (textOf chunks)).2 := by
    have all : kept chunks = shown 0 (textOf chunks) := kept_untagged rfl plain
    rw [passed, all, select_shown]
  refine ⟨passed, (and_iff_right fun plain => ⟨scanned plain, fun some => ?_⟩).trans spared⟩
  have written : trim (textOf chunks) ≠ [] := by
    intro blank
    refine some (trim_eq_nil.mpr fun c member => trim_eq_nil.mp blank c ?_)
    rw [← select_shown] at member
    exact mem_select member
  unfold visibleReplyText
  rw [Option.getD_some, if_neg written]
  show _ = if trim (scanText 0 (textOf chunks)).2 = [] then [] else (scanText 0 (textOf chunks)).2
  rw [if_neg some]
  exact scanned plain

def answerThenThought : List Chunk := [⟨ascii "a <", none⟩, ⟨ascii "foo", some .reasoning⟩]

theorem held_back_lost : ¬(((∀ chunk ∈ answerThenThought, chunk.channel = none) →
      (createReasoningWithholder .always).stream answerThenThought = (scanText 0 (textOf answerThenThought)).2 ∧
      (trim (scanText 0 (textOf answerThenThought)).2 ≠ [] →
        (createReasoningWithholder .always).stream answerThenThought = visibleReplyText (some (textOf answerThenThought)))) ∧
    NothingLost answerThenThought) := by
  rintro ⟨_, spared⟩
  have lost := spared 2 (by decide) (by decide)
  exact absurd lost (by decide)

end Bike4Mind.Replies
