import Bike4Mind.ContextPruning.Trailers

/-! Pruning never hides the only copy of a line: what a run of a conversation leaves on the wire. -/

namespace Bike4Mind.ContextPruning
open Texts

/-- The paths that an operation of a patch changes. -/
def patchPaths : ApplyPatch.PatchOp → List String
  | .add path _ => [path]
  | .delete path => [path]
  | .update path moveTo _ => path :: moveTo.toList

/-- The paths that a call of `apply_patch` changes when it succeeds. -/
def ToolCall.patchedPaths (call : ToolCall) : List Text :=
  match call.patchText.map ApplyPatch.parsePatch with
  | some (.ok ops) => (ops.flatMap patchPaths).map fun path => cleanPath (units path)
  | _ => []

/-- A call with what it found, when it read a file. -/
structure Ran where
  call : ToolCall
  file : FoundFile
  input : ReadInput
  rendered : call.name = .fileRead → call.succeeded = true →
    call.preview = capOutput (file.read input) MAX_FILE_READ_OUTPUT_CHARS

abbrev History := List (List Ran)

def toolRounds (history : History) : ToolRounds := history.map (·.map Ran.call)

namespace Ran

def IsRead (ran : Ran) : Prop := ran.call.name = .fileRead ∧ ran.call.succeeded = true

def Shows (ran : Ran) (path : Text) (line : Nat) : Prop :=
  ran.IsRead ∧ ran.call.pathOf = some path ∧ ∃ w ∈ ran.file.window? ran.input, w.first ≤ line ∧ line ≤ w.shownTo

/-- The call is a successful write, edit or patch of the path. -/
def Changes (ran : Ran) (path : Text) : Prop :=
  ran.call.succeeded = true ∧ ((ran.call.name = .fileWrite ∨ ran.call.name = .fileEdit) ∧ ran.call.pathOf = some path ∨
    ran.call.name = .applyPatch ∧ path ∈ ran.call.patchedPaths)

def mark (ids : List String) (ran : Ran) : Ran :=
  { ran with
    call := { ran.call with cleared := ran.call.cleared || decide (ran.call.id ∈ ids) }
    rendered := ran.rendered }

end Ran

def markCleared (ids : List String) (history : History) : History := history.map (·.map (Ran.mark ids))

/-- A conversation: rounds of calls are appended, and stale results are cleared between them. -/
inductive Run (allowed : History → List Ran → Prop) : History → Prop
  | start : Run allowed []
  | round {history : History} {calls : List Ran} (run : Run allowed history) (shown : ∀ ran ∈ calls, ran.call.cleared = false)
      (allows : allowed history calls) : Run allowed (history ++ [calls])
  | scan {history : History} (policy : PruningPolicy) (run : Run allowed history) :
      Run allowed (markCleared (findStaleResults (toolRounds history) policy).clearIds history)

/-- No two calls have one id. -/
def DistinctIds (history : History) (calls : List Ran) : Prop := ((history ++ [calls]).flatten.map (·.call.id)).Nodup

/-- A read of a whole file has every line that an earlier read showed, unless the path was changed after that. -/
def ReadsOn (history : History) (next : Ran) : Prop :=
  ∀ w ∈ next.file.window? next.input, w.isPart = false → ∀ before ran after path line, history.flatten = before ++ ran :: after →
    ran.Shows path line → next.call.pathOf = some path → (∀ later ∈ after, ¬ later.Changes path) → line ≤ w.total

/-- The rounds for which the lines and paths that the scan reads out of a call are those of the call. -/
structure Careful (history : History) (calls : List Ran) : Prop where
  distinct : DistinctIds history calls
  unmistaken : ∀ ran ∈ calls, ran.IsRead → ran.file.Unmistaken ran.input
  patches : ∀ ran ∈ calls, ran.call.succeeded = true → ran.call.name = .applyPatch → ran.call.patchRewrites ⊆ ran.call.patchedPaths
  readsOn : ∀ ran ∈ calls, ran.IsRead → ReadsOn history ran

/-- Every line that a read showed is still shown, unless its path was changed after that. -/
def KeepsCopies (history : History) : Prop :=
  ∀ before ran after path line, history.flatten = before ++ ran :: after → ran.Shows path line → (∀ later ∈ after, ¬ later.Changes path) →
    ∃ copy ∈ ran :: after, copy.Shows path line ∧ copy.call.cleared = false

/-- A stale result that is not cleared, in a round with at least `exemptRounds` rounds behind it. -/
def PendingAt (rounds : ToolRounds) (exemptRounds : Nat) (id : String) : Prop :=
  ∃ before calls after call, rounds.filter (! ·.isEmpty) = before ++ calls :: after ∧ exemptRounds ≤ after.length ∧ call ∈ calls ∧
    call.cleared = false ∧ call.isStale after = true ∧ call.id = id

/-! ### What the scan returns -/

section Scan
variable {rounds : ToolRounds} {policy : PruningPolicy} {call : ToolCall} {id : String}

theorem mem_staleFrom {round eligible : Nat} {rounds : ToolRounds} {call : ToolCall} :
    (∃ entry ∈ staleFrom round eligible rounds, entry.call = call) ↔
      ∃ before calls after, rounds = before ++ calls :: after ∧ before.length < eligible ∧ call ∈ calls ∧ call.cleared = false ∧
        call.isStale after = true := by
  induction rounds generalizing round eligible with
  | nil =>
    constructor
    · rintro ⟨entry, member, _⟩
      cases eligible <;> cases member
    · rintro ⟨before, calls, after, split, _⟩
      cases before <;> cases split
  | cons calls later ih =>
    cases eligible with
    | zero =>
      constructor
      · rintro ⟨entry, member, _⟩
        cases member
      · rintro ⟨before, _, _, _, less, _⟩
        cases less
    | succ eligible =>
      constructor
      · rintro ⟨entry, member, same⟩
        rcases List.mem_append.mp member with here | there
        · obtain ⟨⟨found, index⟩, kept, built⟩ := List.mem_map.mp here
          obtain ⟨placed, pending⟩ := List.mem_filter.mp kept
          obtain ⟨visible, stale⟩ := (Bool.and_eq_true _ _).mp pending
          have called : found = call := by rw [← same, ← built]
          exact ⟨[], calls, later, rfl, Nat.succ_pos _, called ▸ List.fst_mem_of_mem_zipIdx placed,
            called ▸ (Bool.not_eq_true' _).mp visible, called ▸ stale⟩
        · obtain ⟨before, calls', after, split, less, rest⟩ := ih.mp ⟨entry, there, same⟩
          exact ⟨calls :: before, calls', after, congrArg _ split, Nat.succ_lt_succ less, rest⟩
      · rintro ⟨before, calls', after, split, less, member, visible, stale⟩
        cases before with
        | nil =>
          cases split
          obtain ⟨index, inside, at_⟩ := List.mem_iff_getElem.mp member
          refine ⟨⟨round, index, call⟩, List.mem_append_left _ (List.mem_map.mpr ⟨(call, index), ?_, rfl⟩), rfl⟩
          refine List.mem_filter.mpr ⟨List.mem_zipIdx_iff_getElem?.mpr ?_, ?_⟩
          · exact List.getElem?_eq_some_iff.mpr ⟨inside, at_⟩
          · exact (Bool.and_eq_true _ _).mpr ⟨(Bool.not_eq_true' _).mpr visible, stale⟩
        | cons first before =>
          cases split
          obtain ⟨entry, there, same⟩ :=
            ih.mpr ⟨before, calls', after, rfl, Nat.lt_of_succ_lt_succ less, member, visible, stale⟩
          exact ⟨entry, List.mem_append_right _ there, same⟩

theorem mem_stale : id ∈ (staleFrom 0 ((rounds.filter (! ·.isEmpty)).length - policy.exemptRounds) (rounds.filter (! ·.isEmpty))).map (·.call.id) ↔
    PendingAt rounds policy.exemptRounds id := by
  have reach {before after : ToolRounds} {calls : List ToolCall} (split : rounds.filter (! ·.isEmpty) = before ++ calls :: after) :
      before.length < (rounds.filter (! ·.isEmpty)).length - policy.exemptRounds ↔ policy.exemptRounds ≤ after.length := by
    rw [split, List.length_append, List.length_cons]
    omega
  constructor
  · intro member
    obtain ⟨entry, found, same⟩ := List.mem_map.mp member
    obtain ⟨before, calls, after, split, less, inside, visible, stale⟩ := mem_staleFrom.mp ⟨entry, found, rfl⟩
    exact ⟨before, calls, after, entry.call, split, (reach split).mp less, inside, visible, stale, same⟩
  · rintro ⟨before, calls, after, call, split, exempt, inside, visible, stale, same⟩
    obtain ⟨entry, found, called⟩ := mem_staleFrom.mpr ⟨before, calls, after, split, (reach split).mpr exempt, inside, visible, stale⟩
    exact List.mem_map.mpr ⟨entry, found, by rw [called, same]⟩

theorem scan_fires {earliest : StaleCall} {others : List StaleCall} {pending : Nat}
    (stale : staleFrom 0 ((rounds.filter (! ·.isEmpty)).length - policy.exemptRounds) (rounds.filter (! ·.isEmpty)) = earliest :: others)
    (sum : ((earliest :: others).map fun entry => entry.call.resultChars).sum = pending) (chars : policy.minChars ≤ pending)
    (share : tailChars (rounds.filter (! ·.isEmpty)) earliest * policy.minShare ≤ (pending : ℚ)) :
    (findStaleResults rounds policy).clearIds = (earliest :: others).map (·.call.id) := by
  unfold findStaleResults
  dsimp only
  rw [stale]
  dsimp only
  rw [sum, if_neg (Nat.not_lt.mpr chars), if_neg (not_lt.mpr share)]

theorem scan_returns : (findStaleResults rounds policy).clearIds = [] ∨
    ∀ id, id ∈ (findStaleResults rounds policy).clearIds ↔ PendingAt rounds policy.exemptRounds id := by
  unfold findStaleResults
  dsimp only
  split
  · exact .inl rfl
  · rename_i earliest others stale
    split
    · exact .inl rfl
    · split
      · exact .inl rfl
      · exact .inr fun id => mem_stale

theorem cleared_pending (returned : id ∈ (findStaleResults rounds policy).clearIds) : PendingAt rounds policy.exemptRounds id := by
  rcases @scan_returns rounds policy with none | all
  · rw [none] at returned
    cases returned
  · exact (all id).mp returned

end Scan

/-! ### Staleness -/

section Staleness
variable {call : ToolCall} {later more : ToolRounds}

theorem isStale_iff : call.isStale later = true ↔ call.name = .fileRead ∧ call.succeeded = true ∧ ∃ path, call.pathOf = some path ∧
    ∃ calls ∈ later, ∃ next ∈ calls, next.supersedes path call.shownRange = true := by
  unfold ToolCall.isStale
  by_cases read : call.name ≠ .fileRead ∨ call.succeeded = false
  · rw [if_pos read]
    constructor
    · intro impossible
      cases impossible
    · rintro ⟨name, succeeded, _⟩
      rcases read with other | failed
      · exact absurd name other
      · rw [failed] at succeeded
        cases succeeded
  · rw [if_neg read]
    obtain ⟨name, succeeded⟩ := not_or.mp read
    have name := not_not.mp name
    have succeeded := (Bool.not_eq_false _).mp succeeded
    cases at_ : call.pathOf with
    | none => simp
    | some path => simp [name, succeeded, List.any_eq_true]

theorem isStale_filter : call.isStale (later.filter (! ·.isEmpty)) = call.isStale later := by
  rw [Bool.eq_iff_iff, isStale_iff, isStale_iff]
  refine and_congr_right fun _ => and_congr_right fun _ => exists_congr fun path => and_congr_right fun _ => ?_
  constructor
  · rintro ⟨calls, member, rest⟩
    exact ⟨calls, (List.mem_filter.mp member).1, rest⟩
  · rintro ⟨calls, member, next, inside, rest⟩
    refine ⟨calls, List.mem_filter.mpr ⟨member, ?_⟩, next, inside, rest⟩
    simpa using List.ne_nil_of_mem inside

theorem isStale_append (stale : call.isStale later = true) : call.isStale (later ++ more) = true := by
  rw [isStale_iff] at stale ⊢
  obtain ⟨name, succeeded, path, at_, calls, member, rest⟩ := stale
  exact ⟨name, succeeded, path, at_, calls, List.mem_append_left _ member, rest⟩

end Staleness

/-! ### What marking leaves alone -/

section Marks
variable {ids : List String} {history before after : History} {calls : List Ran} {ran next : Ran} {path : Text} {line : Nat}

theorem Ran.mark_shows : (ran.mark ids).Shows path line ↔ ran.Shows path line := Iff.rfl

theorem mark_isStale : (ran.mark ids).call.isStale (toolRounds (markCleared ids after)) = ran.call.isStale (toolRounds after) := by
  have same (next : Ran) (path : Text) (range : Option LineRange) :
      (next.mark ids).call.supersedes path range = next.call.supersedes path range := rfl
  rw [Bool.eq_iff_iff, isStale_iff, isStale_iff]
  refine and_congr_right fun _ => and_congr_right fun _ => exists_congr fun path => and_congr_right fun _ => ?_
  unfold toolRounds markCleared
  simp only [List.mem_map, exists_exists_and_eq_and]
  rfl

theorem flatten_marked : (markCleared ids history).flatten = history.flatten.map (Ran.mark ids) := List.map_flatten.symm

theorem ids_marked : (markCleared ids history).flatten.map (·.call.id) = history.flatten.map (·.call.id) := by
  rw [flatten_marked, List.map_map]
  rfl

theorem marked_split (split : markCleared ids history = before ++ calls :: after) : ∃ before' calls' after',
    history = before' ++ calls' :: after' ∧ markCleared ids before' = before ∧ calls'.map (Ran.mark ids) = calls ∧
      markCleared ids after' = after := by
  obtain ⟨before', rest, whole, first, last⟩ := List.map_eq_append_iff.mp split
  obtain ⟨calls', after', rest, here, there⟩ := List.map_eq_cons_iff.mp last
  exact ⟨before', calls', after', by rw [whole, rest], first, here, there⟩

theorem readsOn_marked (reads : ReadsOn history next) : ReadsOn (markCleared ids history) (next.mark ids) := by
  intro w shown whole before ran after path line split shows same quiet
  rw [flatten_marked] at split
  obtain ⟨before', rest, whole', first, last⟩ := List.map_eq_append_iff.mp split
  obtain ⟨ran', after', rest, here, there⟩ := List.map_eq_cons_iff.mp last
  subst here there
  exact reads w shown whole before' ran' after' path line (by rw [whole', rest]) shows same
    fun later member => quiet (later.mark ids) (List.mem_map_of_mem member)

theorem careful_marked (careful : Careful history calls) : Careful (markCleared ids history) (calls.map (Ran.mark ids)) where
  distinct := by
    have append : markCleared ids history ++ [calls.map (Ran.mark ids)] = markCleared ids (history ++ [calls]) := by
      unfold markCleared
      rw [List.map_append]
      rfl
    unfold DistinctIds
    rw [append, ids_marked]
    exact careful.distinct
  unmistaken := by
    intro ran member read
    obtain ⟨ran', inside, rfl⟩ := List.mem_map.mp member
    exact careful.unmistaken ran' inside read
  patches := by
    intro ran member succeeded patch
    obtain ⟨ran', inside, rfl⟩ := List.mem_map.mp member
    exact careful.patches ran' inside succeeded patch
  readsOn := by
    intro ran member read
    obtain ⟨ran', inside, rfl⟩ := List.mem_map.mp member
    exact readsOn_marked (careful.readsOn ran' inside read)

end Marks

/-! ### What every run keeps -/

structure Sound (history : History) : Prop where
  distinct : (history.flatten.map (·.call.id)).Nodup
  careful : ∀ before calls after, history = before ++ calls :: after → Careful before calls
  stale : ∀ before calls after, history = before ++ calls :: after → ∀ ran ∈ calls, ran.call.cleared = true →
    ran.call.isStale (toolRounds after) = true

section Runs
variable {history before after before' after' : History} {calls calls' : List Ran} {ran ran' : Ran} {policy : PruningPolicy}

theorem split_unique (distinct : (history.flatten.map (·.call.id)).Nodup) (split : history = before ++ calls :: after)
    (split' : history = before' ++ calls' :: after') (inside : ran ∈ calls) (inside' : ran' ∈ calls') (same : ran.call.id = ran'.call.id) :
    ran = ran' ∧ after = after' := by
  have apart {round : List Ran} {rest front back : History} {here : List Ran} {a b : Ran}
      (unique : ((round :: rest).flatten.map (·.call.id)).Nodup) (cut : rest = front ++ here :: back) (first : a ∈ round) (second : b ∈ here)
      (equal : a.call.id = b.call.id) : False := by
    rw [List.flatten_cons, List.map_append] at unique
    refine List.disjoint_of_nodup_append unique (List.mem_map_of_mem first) ?_
    rw [equal]
    exact List.mem_map_of_mem (List.mem_flatten.mpr ⟨here, by rw [cut]; simp, second⟩)
  induction before generalizing history before' with
  | nil =>
    cases before' with
    | nil =>
      rw [split] at split' distinct
      cases split'
      rw [List.nil_append, List.flatten_cons, List.map_append] at distinct
      exact ⟨List.inj_on_of_nodup_map (List.nodup_append.mp distinct).1 inside inside' same, rfl⟩
    | cons round before' =>
      rw [split] at split' distinct
      cases split'
      exact (apart distinct rfl inside inside' same).elim
  | cons round before ih =>
    cases before' with
    | nil =>
      rw [split] at split' distinct
      cases split'
      exact (apart distinct rfl inside' inside same.symm).elim
    | cons round' before' =>
      rw [split] at split' distinct
      rw [List.cons_append, List.flatten_cons, List.map_append] at distinct
      exact ih (List.nodup_append.mp distinct).2.1 rfl (List.cons.inj split').2

theorem append_split {new : List Ran} (split : history ++ [new] = before ++ calls :: after) :
    (history = before ∧ new = calls ∧ after = []) ∨ ∃ middle, history = before ++ calls :: middle ∧ after = middle ++ [new] := by
  rcases List.eq_nil_or_concat after with none | ⟨middle, last, whole⟩
  · rw [none] at split
    obtain ⟨same, new⟩ := List.append_inj' split rfl
    exact .inl ⟨same, (List.cons.inj new).1, none⟩
  · right
    rw [whole, List.concat_eq_append, ← List.cons_append, ← List.append_assoc] at split
    obtain ⟨same, new⟩ := List.append_inj' split rfl
    exact ⟨middle, same, by rw [whole, List.concat_eq_append, (List.cons.inj new).1]⟩

theorem sound_round (sound : Sound history) (shown : ∀ ran ∈ calls, ran.call.cleared = false) (careful : Careful history calls) :
    Sound (history ++ [calls]) where
  distinct := careful.distinct
  careful := by
    intro before round after split
    rcases append_split split with ⟨rfl, rfl, _⟩ | ⟨middle, early, _⟩
    · exact careful
    · exact sound.careful before round middle early
  stale := by
    intro before round after split ran inside cleared
    rcases append_split split with ⟨_, rfl, _⟩ | ⟨middle, early, rfl⟩
    · rw [shown ran inside] at cleared
      cases cleared
    · unfold toolRounds
      rw [List.map_append]
      exact isStale_append (sound.stale before round middle early ran inside cleared)

theorem pending_stale {exemptRounds : Nat} (distinct : (history.flatten.map (·.call.id)).Nodup) (split : history = before ++ calls :: after)
    (inside : ran ∈ calls) (pending : PendingAt (toolRounds history) exemptRounds ran.call.id) :
    ran.call.isStale (toolRounds after) = true ∧ ran.call.cleared = false ∧ exemptRounds ≤ ((toolRounds after).filter (! ·.isEmpty)).length := by
  obtain ⟨_, round, rounds, call, found, exempt, member, visible, stale, same⟩ := pending
  obtain ⟨_, rest, whole, _, kept⟩ := List.filter_eq_append_iff.mp found
  obtain ⟨empty, behind, whole', _, _, kept⟩ := List.filter_eq_cons_iff.mp kept
  rw [whole', ← List.append_assoc] at whole
  obtain ⟨first, last, cut, _, placed⟩ := List.map_eq_append_iff.mp whole
  obtain ⟨calls', after', cut', here, there⟩ := List.map_eq_cons_iff.mp placed
  rw [cut'] at cut
  rw [← here] at member
  obtain ⟨ran', inside', called⟩ := List.mem_map.mp member
  have unique := split_unique distinct split cut inside inside' (by rw [called, same])
  rw [unique.1, unique.2, called]
  have behind : toolRounds after' = behind := there
  rw [← kept] at stale exempt
  rw [isStale_filter] at stale
  rw [behind]
  exact ⟨stale, visible, exempt⟩

theorem sound_scan (sound : Sound history) : Sound (markCleared (findStaleResults (toolRounds history) policy).clearIds history) where
  distinct := by
    rw [ids_marked]
    exact sound.distinct
  careful := by
    intro before calls after split
    obtain ⟨before', calls', after', whole, rfl, rfl, _⟩ := marked_split split
    exact careful_marked (sound.careful before' calls' after' whole)
  stale := by
    intro before calls after split ran inside cleared
    obtain ⟨before', calls', after', whole, rfl, rfl, rfl⟩ := marked_split split
    obtain ⟨ran', inside', rfl⟩ := List.mem_map.mp inside
    rw [mark_isStale]
    rcases (Bool.or_eq_true _ _).mp cleared with already | returned
    · exact sound.stale before' calls' after' whole ran' inside' already
    · exact (pending_stale sound.distinct whole inside' (cleared_pending (of_decide_eq_true returned))).1

theorem sound_of_run (run : Run Careful history) : Sound history := by
  induction run with
  | start =>
    refine ⟨List.nodup_nil, fun before calls after split => ?_, fun before calls after split => ?_⟩
    · cases before <;> cases split
    · cases before <;> cases split
  | round run shown careful ih => exact sound_round ih shown careful
  | scan policy run ih => exact sound_scan ih

/-! ### The copies that stay -/

theorem shownRange_read (read : ran.IsRead) (unmistaken : ran.file.Unmistaken ran.input) :
    ran.call.shownRange = (ran.file.window? ran.input).map Window.range := by
  unfold ToolCall.shownRange
  rw [ran.rendered read.1 read.2, FoundFile.capOutput_read, FoundFile.rangeShown_read unmistaken]

theorem covers_shows {next : Ran} {path : Text} {line : Nat} (shows : ran.Shows path line) (read : next.IsRead)
    (same : next.call.pathOf = some path) (unmistaken : ran.file.Unmistaken ran.input) (unmistaken' : next.file.Unmistaken next.input)
    (reads : ∀ w ∈ next.file.window? next.input, w.isPart = false → line ≤ w.total) {range again : LineRange}
    (shown : ran.call.shownRange = some range) (shown' : next.call.shownRange = some again) (covers : again.covers range = true) :
    next.Shows path line := by
  obtain ⟨earlier, _, w, window, low, high⟩ := shows
  rw [shownRange_read earlier unmistaken, Option.mem_def.mp window] at shown
  rw [shownRange_read read unmistaken'] at shown'
  obtain ⟨w', window', range'⟩ := Option.map_eq_some_iff.mp shown'
  have starts := (FoundFile.window_sound window).starts
  have sound := FoundFile.window_sound window'
  have reads := reads w' window'
  refine ⟨read, same, w', window', ?_⟩
  rw [Option.map_some, Option.some.injEq] at shown
  obtain ⟨first, last⟩ := (Bool.and_eq_true _ _).mp covers
  have first := of_decide_eq_true first
  have last := of_decide_eq_true last
  rw [← shown, ← range'] at first last
  unfold Window.range at first last
  by_cases part' : w'.isPart = true
  · rw [if_pos part'] at first last
    by_cases part : w.isPart = true
    · rw [if_pos part] at first last
      have last := WithTop.coe_le_coe.mp last
      exact ⟨le_trans first low, high.trans last⟩
    · rw [if_neg part] at last
      exact absurd (top_le_iff.mp last) (WithTop.coe_ne_top)
  · have whole := Bool.eq_false_iff.mpr part'
    have bound := reads whole
    have one := (sound.rows_ne_nil whole).1
    have all := of_decide_eq_false (Bool.or_eq_false_iff.mp whole).2
    omega

theorem flatten_split {before after : List Ran} (split : history.flatten = before ++ ran :: after) :
    ∃ rounds left right later, history = rounds ++ (left ++ ran :: right) :: later ∧ after = right ++ later.flatten := by
  induction history generalizing before with
  | nil => cases before <;> cases split
  | cons round history ih =>
    rw [List.flatten_cons] at split
    rcases List.append_eq_append_iff.mp split with ⟨middle, front, back⟩ | ⟨middle, front, back⟩
    · obtain ⟨rounds, left, right, later, whole, rest⟩ := ih back
      exact ⟨round :: rounds, left, right, later, congrArg _ whole, rest⟩
    · cases middle with
      | nil =>
        obtain ⟨rounds, left, right, later, whole, rest⟩ := @ih [] back.symm
        exact ⟨round :: rounds, left, right, later, congrArg _ whole, rest⟩
      | cons first middle =>
        rw [List.cons_append] at back
        obtain ⟨same, tail⟩ := List.cons.inj back
        exact ⟨[], before, middle, history, by rw [front, same]; rfl, tail⟩

/-- What a stale read showed is shown by a later read, where nothing changed the path since. -/
theorem shown_again {left right : List Ran} {rounds later : History} {path : Text} {line : Nat} (sound : Sound history)
    (split : history = rounds ++ (left ++ ran :: right) :: later) (shows : ran.Shows path line)
    (quiet : ∀ next ∈ right ++ later.flatten, ¬ next.Changes path) (stale : ran.call.isStale (toolRounds later) = true) :
    ∃ next ∈ later.flatten, next.Shows path line := by
  obtain ⟨_, _, path', at_, calls, placed, call, member, supersedes⟩ := isStale_iff.mp stale
  have same := shows.2.1
  rw [same] at at_
  obtain rfl := Option.some.inj at_
  obtain ⟨round, behind, rfl⟩ := List.mem_map.mp placed
  obtain ⟨next, inside, rfl⟩ := List.mem_map.mp member
  have there : next ∈ later.flatten := List.mem_flatten.mpr ⟨round, behind, inside⟩
  have unchanged := quiet next (List.mem_append_right _ there)
  obtain ⟨front, back, cut⟩ := List.append_of_mem behind
  have careful := sound.careful (rounds ++ (left ++ ran :: right) :: front) round back (by rw [split, cut]; simp)
  have earlier := sound.careful rounds (left ++ ran :: right) later split
  unfold ToolCall.supersedes at supersedes
  obtain ⟨succeeded, supersedes⟩ := (Bool.and_eq_true _ _).mp supersedes
  split at supersedes
  · rename_i patch
    exact (unchanged ⟨succeeded, .inr ⟨patch, careful.patches next inside succeeded patch (of_decide_eq_true supersedes)⟩⟩).elim
  · split at supersedes
    · cases supersedes
    · rename_i on
      have on := not_not.mp on
      split at supersedes
      · rename_i write
        exact (unchanged ⟨succeeded, .inl ⟨.inl write, on⟩⟩).elim
      · split at supersedes
        · rename_i name
          split at supersedes
          · rename_i range again shown shown'
            have mine : ran ∈ left ++ ran :: right := List.mem_append_right _ List.mem_cons_self
            refine ⟨next, there, covers_shows shows ⟨name, succeeded⟩ on (earlier.unmistaken ran mine shows.1)
              (careful.unmistaken next inside ⟨name, succeeded⟩) ?_ shown shown' supersedes⟩
            intro w window whole
            refine careful.readsOn next inside ⟨name, succeeded⟩ w window whole (rounds.flatten ++ left) ran (right ++ front.flatten) path line
              ?_ shows on fun next' member => quiet next' ?_
            · simp
            · rw [cut]
              rcases List.mem_append.mp member with here | there
              · exact List.mem_append_left _ here
              · exact List.mem_append_right _ (by simp only [List.flatten_append, List.mem_append]; exact .inl there)
          · cases supersedes
        · cases supersedes

theorem sound_keeps (sound : Sound history) : KeepsCopies history := by
  intro before ran after path line split shows quiet
  generalize size : after.length = n
  induction n using Nat.strong_induction_on generalizing before ran after with
  | _ n shorter =>
    by_cases visible : ran.call.cleared = false
    · exact ⟨ran, List.mem_cons_self, shows, visible⟩
    · obtain ⟨rounds, left, right, later, whole, rest⟩ := flatten_split split
      have stale := sound.stale rounds _ later whole ran (List.mem_append_right _ List.mem_cons_self) ((Bool.not_eq_false _).mp visible)
      rw [rest] at quiet
      obtain ⟨next, there, again⟩ := shown_again sound whole shows quiet stale
      obtain ⟨front, back, cut⟩ := List.append_of_mem there
      have ahead : history.flatten = (before ++ ran :: right ++ front) ++ next :: back := by
        rw [split, rest, cut]
        simp
      have less : back.length < n := by
        rw [← size, rest, cut]
        simp only [List.length_append, List.length_cons]
        omega
      have inside : ∀ next' ∈ next :: back, next' ∈ right ++ later.flatten := by
        intro next' member
        rw [cut]
        exact List.mem_append_right _ (List.mem_append_right _ member)
      obtain ⟨copy, member, found⟩ := shorter back.length less _ next back ahead again
        (fun next' member => quiet next' (inside next' (List.mem_cons_of_mem _ member))) rfl
      exact ⟨copy, List.mem_cons_of_mem _ (rest ▸ inside copy member), found⟩

end Runs

/-! ### The scan over a run -/

/-- A scan returns nothing or all that is stale and not exempt, and nothing of the last rounds that ran tools. -/
structure ScanLawful (history : History) (policy : PruningPolicy) : Prop where
  all : (findStaleResults (toolRounds history) policy).clearIds = [] ∨
    ∀ id, id ∈ (findStaleResults (toolRounds history) policy).clearIds ↔ PendingAt (toolRounds history) policy.exemptRounds id
  exempt : ∀ before calls after, history = before ++ calls :: after → (after.filter (! ·.isEmpty)).length < policy.exemptRounds →
    ∀ ran ∈ calls, ran.call.id ∉ (findStaleResults (toolRounds history) policy).clearIds

theorem sound_scanLawful {history : History} (sound : Sound history) (policy : PruningPolicy) : ScanLawful history policy where
  all := scan_returns
  exempt := by
    intro before calls after split recent ran inside returned
    have exempt := (pending_stale sound.distinct split inside (cleared_pending returned)).2.2
    have same : ((toolRounds after).filter (! ·.isEmpty)).length = (after.filter (! ·.isEmpty)).length := by
      unfold toolRounds
      rw [List.filter_map, List.length_map]
      congr 1
      refine List.filter_congr fun round _ => ?_
      cases round <;> rfl
    omega

theorem pruning_keeps_copies {history : History} (run : Run Careful history) :
    KeepsCopies history ∧ ∀ policy, ScanLawful history policy :=
  ⟨sound_keeps (sound_of_run run), sound_scanLawful (sound_of_run run)⟩

instance {ran : Ran} {path : Text} : Decidable (ran.Changes path) := inferInstanceAs (Decidable (_ ∧ (_ ∧ _ ∨ _ ∧ _)))

instance {ran : Ran} : Decidable ran.IsRead := inferInstanceAs (Decidable (_ ∧ _))

instance {history : History} {calls : List Ran} : Decidable (DistinctIds history calls) := inferInstanceAs (Decidable (List.Nodup _))

instance {w : Window} : Decidable w.Unmistaken := inferInstanceAs (Decidable (∀ i < _, _ = none))

instance {file : FoundFile} {input : ReadInput} : Decidable (file.Unmistaken input) :=
  inferInstanceAs (Decidable (∀ w ∈ _, Window.Unmistaken w))

instance {ran : Ran} {path : Text} {line : Nat} : Decidable (ran.Shows path line) :=
  inferInstanceAs (Decidable ((_ ∧ _) ∧ _ ∧ ∃ w ∈ _, Window.first w ≤ line ∧ line ≤ Window.shownTo w))

namespace Sample

def EAGER : PruningPolicy := { minChars := 0, minShare := 0, exemptRounds := 2 }

def logFile : FoundFile where
  target := ascii "/p/log"
  absolute := by decide
  short := by decide
  size := ⟨ascii "19 B", by decide⟩
  content := .text (ascii "a\n[Lines 1-1 of 2.]") (by decide)

def everything : ReadInput := ⟨none, none, by simp⟩

def firstLine : ReadInput := ⟨none, some 1, by simp⟩

def call (id : String) (name : ToolName) (path : String) (preview : Text) : ToolCall where
  id
  name
  path := some (ascii path)
  patchText := none
  inputChars := 20
  done := true
  error := []
  preview
  cleared := false

def reading (id path : String) (file : FoundFile) (input : ReadInput) : Ran where
  call := call id .fileRead path (capOutput (file.read input) MAX_FILE_READ_OUTPUT_CHARS)
  file
  input
  rendered := fun _ _ => rfl

theorem reading_chars {id path : String} {file : FoundFile} {input : ReadInput} :
    (reading id path file input).call.resultChars = (file.read input).length := by
  rw [← @FoundFile.capOutput_read file input]
  rfl

def calling (id : String) (name : ToolName) (path : String) (other : name ≠ .fileRead) : Ran where
  call := call id name path (ascii "Written.")
  file := logFile
  input := everything
  rendered := fun read => (other read).elim

def noteFile : FoundFile := { logFile with
  target := ascii "/p/note"
  absolute := by decide
  short := by decide
  content := .text (ascii "a\nb") (by decide) }

def note : Ran := reading "note" "/p/note" noteFile everything
def written : Ran := calling "written" .fileWrite "/p/note" (by decide)
def listed : Ran := calling "listed" .other "/p" (by decide)

def rewritten : History := [[note], [written], [listed]]

end Sample

theorem readsOn_nil {next : Ran} : ReadsOn [] next := by
  intro w _ _ before ran after _ _ split
  cases before <;> cases split

theorem rewritten_read_cleared : (findStaleResults (toolRounds Sample.rewritten) Sample.EAGER).clearIds = ["note"] ∧
    KeepsCopies (markCleared (findStaleResults (toolRounds Sample.rewritten) Sample.EAGER).clearIds Sample.rewritten) := by
  have read : Careful [] [Sample.note] := ⟨by decide, by decide +kernel, by decide, fun ran _ _ => readsOn_nil⟩
  have write : Careful [[Sample.note]] [Sample.written] :=
    ⟨by decide, by decide, by decide, by simp [Ran.IsRead, Sample.written, Sample.calling, Sample.call]⟩
  have list : Careful [[Sample.note], [Sample.written]] [Sample.listed] :=
    ⟨by decide, by decide, by decide, by simp [Ran.IsRead, Sample.listed, Sample.calling, Sample.call]⟩
  have run : Run Careful Sample.rewritten :=
    .round (.round (.round .start (by decide) read) (by decide) write) (by decide) list
  exact ⟨by decide +kernel, (pruning_keeps_copies (.scan Sample.EAGER run)).1⟩

/-! ### A line that looks like the trailer -/

namespace Sample

def longLine : Text := List.replicate 2000 0x78

theorem longLines_length : (joinLines (List.replicate 20 longLine)).length + 1 = 20 * 2001 :=
  joinLines_replicate (by rw [List.map_replicate, longLine, List.length_replicate]) (by decide)

def longFile : FoundFile := { logFile with
  target := ascii "/p/long"
  absolute := by decide
  short := by decide
  content := .text (joinLines (List.replicate 20 longLine)) (by have size := longLines_length; omega) }

def log : Ran := reading "log" "/p/log" logFile everything
def long : Ran := reading "long" "/p/long" longFile everything
def top : Ran := reading "top" "/p/log" logFile firstLine
def replaced : Ran := calling "replaced" .fileWrite "/p/long" (by decide)

def misread : History := [[log, long], [top, replaced], [listed]]

theorem longFile_lines : linesOf (joinLines (List.replicate 20 longLine)) = List.replicate 20 longLine := by
  have pieces : (joinLines (List.replicate 20 longLine)).splitOn NEWLINE = List.replicate 20 longLine := by
    refine List.splitOn_intercalate _ (fun line member inside => ?_) (List.cons_ne_nil _ _)
    rw [List.eq_of_mem_replicate member] at inside
    exact absurd (List.eq_of_mem_replicate inside) (by decide)
  unfold linesOf
  rw [pieces]
  refine if_neg fun last => ?_
  rw [List.getLast?_replicate, if_neg (by decide)] at last
  exact absurd (congrArg List.length (Option.some.inj last)) (by rw [longLine, List.length_replicate]; decide)

def longWindow : Window := { lines := List.replicate 20 longLine, first := 1, last := 20 }

theorem longFile_window : longFile.window? everything = some longWindow := by
  have first : everything.first = 1 := by decide +kernel
  have wanted : everything.wanted = 2000 := by decide +kernel
  show (if everything.first ≤ (linesOf (joinLines (List.replicate 20 longLine))).length then
    some (everything.window (linesOf (joinLines (List.replicate 20 longLine)))) else none) = _
  rw [longFile_lines, List.length_replicate, if_pos (by rw [first]; decide), ReadInput.window, List.length_replicate, first, wanted]
  rfl

theorem longWindow_rows : longWindow.rows.map List.length = List.replicate 20 2003 := by
  have size : longLine.length = 2000 := List.length_replicate
  have rows := @takeRows_replicate 2 1 0 20 longLine (by rw [size]; decide) (by decide) (by rw [size]; decide)
  rwa [size] at rows

theorem long_chars : long.call.resultChars = 40079 := by
  have count : longWindow.rows.length = 20 := by
    rw [← List.length_map, longWindow_rows, List.length_replicate]
  have whole : longWindow.isPart = false := by
    have total : longWindow.total = 20 := List.length_replicate
    unfold Window.isPart Window.shownTo
    rw [count, total]
    decide
  have text : longWindow.text = joinLines longWindow.rows := by
    unfold Window.text
    rw [if_neg (Bool.eq_false_iff.mp whole)]
  have length := joinLines_replicate longWindow_rows (by decide)
  unfold long
  rw [reading_chars, FoundFile.read_window longFile_window, text]
  omega

theorem wireChars_eq {call : ToolCall} {n m : Nat} (chars : call.resultChars = n) (input : call.inputChars = m) : call.wireChars = n + m := by
  rw [ToolCall.wireChars, chars, input]

theorem pending_eq {a b : StaleCall} {m n : Nat} (first : a.call.resultChars = m) (second : b.call.resultChars = n) :
    ([a, b].map fun entry : StaleCall => entry.call.resultChars).sum = m + n := by
  rw [List.map_cons, List.map_cons, List.map_nil, List.sum_cons, List.sum_cons, List.sum_nil, first, second, Nat.add_zero]

theorem tail_eq {a b c d e : ToolCall} {m n k : Nat} (first : a.wireChars = m) (second : b.wireChars = n)
    (others : c.wireChars + d.wireChars + e.wireChars = k) : tailChars [[a, b], [c, d], [e]] ⟨0, 0, a⟩ = m + n + k := by
  simp [tailChars, List.zipIdx, first, second]
  omega

theorem supersedes_written {next : ToolCall} {path : Text} {range : Option LineRange} (written : next.name = .fileWrite)
    (succeeded : next.succeeded = true) (named : next.pathOf = some path) : next.supersedes path range = true := by
  simp [ToolCall.supersedes, written, succeeded, named]

-- The sums go through lemmas about any calls: the kernel would count out the long file wherever it adds up its characters.
theorem misread_scan : (findStaleResults (toolRounds misread) DEFAULT_PRUNING_POLICY).clearIds = ["log", "long"] := by
  have logStale : log.call.isStale [[top.call, replaced.call], [listed.call]] = true := by decide +kernel
  have longStale : long.call.isStale [[top.call, replaced.call], [listed.call]] = true := by
    rw [isStale_iff]
    exact ⟨rfl, by decide, ascii "/p/long", by decide, _, List.mem_cons_self, replaced.call, by simp, supersedes_written rfl rfl (by decide)⟩
  have rounds : (toolRounds misread).filter (! ·.isEmpty) = [[log.call, long.call], [top.call, replaced.call], [listed.call]] := rfl
  have stale : staleFrom 0 1 ((toolRounds misread).filter (! ·.isEmpty)) = [⟨0, 0, log.call⟩, ⟨0, 1, long.call⟩] := by
    have visible : log.call.cleared = false ∧ long.call.cleared = false := ⟨rfl, rfl⟩
    rw [rounds]
    simp only [staleFrom, List.zipIdx_cons, List.zipIdx_nil, List.filter_cons, visible.1, visible.2, logStale, longStale, Bool.not_false,
      Bool.and_self, if_true, List.filter_nil, List.map_cons, List.map_nil, List.append_nil, Nat.zero_add]
  have logChars : log.call.resultChars = 23 := by decide +kernel
  have others : top.call.wireChars + replaced.call.wireChars + listed.call.wireChars = 122 := by decide +kernel
  have tail : tailChars ((toolRounds misread).filter (! ·.isEmpty)) ⟨0, 0, log.call⟩ = 40264 := by
    rw [rounds]
    exact tail_eq (wireChars_eq logChars rfl) (wireChars_eq long_chars rfl) others
  have share : ((40264 : Nat) : ℚ) * DEFAULT_PRUNING_POLICY.minShare ≤ ((23 + 40079 : Nat) : ℚ) := by norm_num [DEFAULT_PRUNING_POLICY]
  rw [← tail] at share
  exact @scan_fires (toolRounds misread) DEFAULT_PRUNING_POLICY _ _ _ stale (pending_eq logChars long_chars) (by decide) share

end Sample

/-- The log's second line names lines 1 to 1, so a read of its first line counts as a newer copy of the whole log. -/
theorem trailer_line_hidden : ∃ history, Run DistinctIds history ∧ ¬ KeepsCopies history := by
  have run : Run DistinctIds Sample.misread :=
    .round (.round (.round .start (by decide) (by decide)) (by decide) (by decide)) (by decide) (by decide)
  refine ⟨_, .scan DEFAULT_PRUNING_POLICY run, fun keeps => ?_⟩
  rw [Sample.misread_scan] at keeps
  have shows : (Sample.log.mark ["log", "long"]).Shows (ascii "/p/log") 2 :=
    Ran.mark_shows.mpr ⟨⟨rfl, by decide +kernel⟩, rfl, by decide +kernel⟩
  have unchanged : ∀ later ∈ [Sample.long, Sample.top, Sample.replaced, Sample.listed].map (Ran.mark ["log", "long"]),
      ¬ later.Changes (ascii "/p/log") := by decide +kernel
  have hidden : ∀ copy ∈ [Sample.log, Sample.long, Sample.top, Sample.replaced, Sample.listed].map (Ran.mark ["log", "long"]),
      ¬ (copy.Shows (ascii "/p/log") 2 ∧ copy.call.cleared = false) := by decide +kernel
  obtain ⟨copy, member, found⟩ := keeps [] _ _ (ascii "/p/log") 2 rfl shows unchanged
  exact hidden copy member found

end Bike4Mind.ContextPruning
