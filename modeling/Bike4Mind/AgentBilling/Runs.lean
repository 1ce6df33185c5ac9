import Bike4Mind.AgentBilling.Billing

/-! A run billed in pieces: however its requests are cut into bills and its counters are rebuilt, each is billed once. -/

namespace Bike4Mind.AgentBilling
open Collections

/-- One bill of a run: the requests since the bill before it, and the rest of what the call is given. -/
structure BillCall where
  covered : List TurnUsage
  iterationIndex : ℕ
  finishReason : Option String := none
  chargedModelInfo : Option ModelInfo := none
  startTime : ℤ
  toolUsage : Option ToolUsageTotals := none
  usdToCredits : ℚ → ℚ
  clock : ℤ × ℤ

inductive BillingStep where
  | bill (call : BillCall)
  | resume (modelInfo : Option ModelInfo)

structure BillingRun where
  turns : List TurnUsage := []
  counters : BillingCounters := {}
  records : List IterationBilling := []
  effects : List BillingEffect := []

def recordOf : BillingEffect → Option IterationBilling
  | .addIterationBilling billing => some billing
  | _ => none

def costOf : BillingEffect → ℚ
  | .recordUsageEvent event => event.costUsd
  | _ => 0

def recordedCost (effects : List BillingEffect) : ℚ := (effects.map costOf).sum

def recordTotals (records : List IterationBilling) : TokenSums := (records.map IterationBilling.toTokenSums).sum

def BillCall.checkpoint (call : BillCall) (turns : List TurnUsage) : BillingCheckpoint :=
  { totalInputTokens := (sumTokens turns).inputTokens
    totalOutputTokens := (sumTokens turns).outputTokens
    totalCacheReadTokens := (sumTokens turns).cacheReadTokens
    totalCacheWriteTokens := (sumTokens turns).cacheWriteTokens
    finishReason := call.finishReason
    turnUsage := some turns }

def BillCall.toolCost (call : BillCall) : ℚ := (call.toolUsage.getD ZERO_TOOL_USAGE).costUsd

section Run
variable (modelInfo : ModelInfo) (model : String)

def BillCall.params (call : BillCall) (s : BillingRun) : BillIterationParams :=
  { iterationIndex := call.iterationIndex
    checkpoint := call.checkpoint (s.turns ++ call.covered)
    counters := s.counters
    modelInfo := modelInfo
    chargedModelInfo := call.chargedModelInfo
    model := model
    startTime := call.startTime
    toolUsage := call.toolUsage
    usdToCredits := call.usdToCredits
    clock := call.clock }

def BillingRun.step (s : BillingRun) : BillingStep → BillingRun
  | .bill call =>
    let (counters, effects) := billIteration (call.params modelInfo model s)
    { turns := s.turns ++ call.covered
      counters := counters
      records := s.records ++ effects.filterMap recordOf
      effects := s.effects ++ effects }
  | .resume modelInfo => { s with counters := reseedCounters s.records modelInfo }

def billingRun (steps : List BillingStep) : BillingRun := steps.foldl (BillingRun.step modelInfo model) {}

end Run

def callOf : BillingStep → Option BillCall
  | .bill call => some call
  | .resume _ => none

def calls (steps : List BillingStep) : List BillCall := steps.filterMap callOf

/-- One of the requests the bill covers is above the context window. -/
def BillCall.Trips (modelInfo : ModelInfo) (call : BillCall) : Prop :=
  0 < modelInfo.contextWindow ∧ ∃ turn ∈ call.covered, modelInfo.contextWindow < turn.inputTokens

instance (modelInfo : ModelInfo) (call : BillCall) : Decidable (call.Trips modelInfo) := inferInstanceAs (Decidable (_ ∧ _))

/-- Counts and tool spend as the executor passes them. -/
structure BillCall.Counted (call : BillCall) : Prop where
  turns : ∀ turn ∈ call.covered, turn.Counted
  tools : 0 ≤ call.toolCost

/-! ### Sums of tokens -/

section Sums
variable {turns later : List TurnUsage} {turn : TurnUsage} {modelInfo : ModelInfo}

theorem sumTokens_cons : sumTokens (turn :: turns) = turnTokens turn + sumTokens turns := by
  unfold sumTokens
  rw [List.map_cons, List.sum_cons]

theorem sumTokens_append : sumTokens (turns ++ later) = sumTokens turns + sumTokens later := by
  unfold sumTokens
  rw [List.map_append, List.sum_append]

structure TokenSums.Nonneg (tokens : TokenSums) : Prop where
  input : 0 ≤ tokens.inputTokens
  output : 0 ≤ tokens.outputTokens
  cacheRead : 0 ≤ tokens.cacheReadTokens
  cacheWrite : 0 ≤ tokens.cacheWriteTokens

theorem sumTokens_nonneg (counted : ∀ turn ∈ turns, turn.Counted) : (sumTokens turns).Nonneg := by
  induction turns with
  | nil => exact ⟨le_refl 0, le_refl 0, le_refl 0, le_refl 0⟩
  | cons turn rest ih =>
    have first := counted turn List.mem_cons_self
    have later := ih fun turn member => counted turn (List.mem_cons_of_mem _ member)
    rw [sumTokens_cons]
    exact ⟨add_nonneg first.input later.input, add_nonneg first.output later.output,
      add_nonneg first.cacheRead later.cacheRead, add_nonneg first.cacheCreation later.cacheWrite⟩

/-- The request counted nothing. -/
def Idle (turn : TurnUsage) : Prop := turnTokens turn = 0

theorem Idle.cost (idle : Idle turn) : turnCost modelInfo turn = 0 :=
  turnCost_zero (congrArg TokenSums.inputTokens idle) (congrArg TokenSums.outputTokens idle)
    (congrArg TokenSums.cacheReadTokens idle) (congrArg TokenSums.cacheWriteTokens idle)

theorem getTurnsCost_idle (idle : ∀ turn ∈ turns, Idle turn) : getTurnsCost modelInfo turns = 0 := by
  induction turns with
  | nil => rfl
  | cons turn rest ih =>
    rw [getTurnsCost_cons, (idle turn List.mem_cons_self).cost, ih fun turn member => idle turn (List.mem_cons_of_mem _ member),
      add_zero]

theorem idle_of_sum_zero (counted : ∀ turn ∈ turns, turn.Counted) (nothing : sumTokens turns = 0) : ∀ turn ∈ turns, Idle turn := by
  induction turns with
  | nil => exact List.forall_mem_nil _
  | cons turn rest ih =>
    have first := counted turn List.mem_cons_self
    have rest_counted := fun turn member => counted turn (List.mem_cons_of_mem _ member)
    have later := sumTokens_nonneg rest_counted
    rw [sumTokens_cons] at nothing
    have input : turn.inputTokens + (sumTokens rest).inputTokens = 0 := congrArg TokenSums.inputTokens nothing
    have output : turn.outputTokens + (sumTokens rest).outputTokens = 0 := congrArg TokenSums.outputTokens nothing
    have cacheRead : turn.cacheReadInputTokens.getD 0 + (sumTokens rest).cacheReadTokens = 0 :=
      congrArg TokenSums.cacheReadTokens nothing
    have cacheWrite : turn.cacheCreationInputTokens.getD 0 + (sumTokens rest).cacheWriteTokens = 0 :=
      congrArg TokenSums.cacheWriteTokens nothing
    have := first.input
    have := first.output
    have := first.cacheRead
    have := first.cacheCreation
    have := later.input
    have := later.output
    have := later.cacheRead
    have := later.cacheWrite
    refine List.forall_mem_cons.mpr ⟨?_, ih rest_counted ?_⟩
    · apply TokenSums.ext
      · show turn.inputTokens = 0
        omega
      · show turn.outputTokens = 0
        omega
      · show turn.cacheReadInputTokens.getD 0 = 0
        omega
      · show turn.cacheCreationInputTokens.getD 0 = 0
        omega
    · apply TokenSums.ext
      · show (sumTokens rest).inputTokens = 0
        omega
      · show (sumTokens rest).outputTokens = 0
        omega
      · show (sumTokens rest).cacheReadTokens = 0
        omega
      · show (sumTokens rest).cacheWriteTokens = 0
        omega

/-- The prefix found as billed differs from the one that was billed by requests that counted nothing. -/
theorem billedCount_covers {billed rest : List TurnUsage} {counters sum : TokenSums} (reached : sum + sumTokens billed = counters) :
    ∃ n ≤ billed.length, billedCount counters sum (billed ++ rest) = some n ∧ sumTokens (billed.drop n) = 0 := by
  induction billed generalizing sum with
  | nil =>
    have here : sum = counters := by
      rw [← reached]
      exact (add_zero sum).symm
    refine ⟨0, le_refl 0, ?_, rfl⟩
    cases rest with
    | nil => exact if_pos here
    | cons turn rest => exact if_pos here
  | cons turn billed ih =>
    by_cases here : sum = counters
    · refine ⟨0, Nat.zero_le _, if_pos here, ?_⟩
      rw [← here] at reached
      exact add_eq_left.mp reached
    · rw [sumTokens_cons, ← add_assoc] at reached
      obtain ⟨n, inside, found, nothing⟩ := ih reached
      refine ⟨n + 1, Nat.succ_le_succ inside, ?_, nothing⟩
      rw [List.cons_append, billedCount, if_neg here, found]
      rfl

theorem lt_foldl_max {l : List ℤ} {bound start : ℤ} : bound < l.foldl max start ↔ bound < start ∨ ∃ x ∈ l, bound < x := by
  induction l generalizing start with
  | nil => simp
  | cons x rest ih =>
    rw [List.foldl_cons, ih, lt_max_iff, List.exists_mem_cons_iff, or_assoc]

end Sums

/-! ### One bill -/

/-- Counters and records agree with the requests made. -/
structure BillingRun.InStep (s : BillingRun) : Prop where
  counters : s.counters.toTokenSums = sumTokens s.turns
  records : recordTotals s.records = sumTokens s.turns
  counted : ∀ turn ∈ s.turns, turn.Counted

section Bill
variable {modelInfo : ModelInfo} {model : String} {s : BillingRun} {call : BillCall}

theorem checkpoint_totals {turns : List TurnUsage} : (call.checkpoint turns).totals = sumTokens turns := rfl

theorem call_deltas (inStep : s.InStep) :
    (call.checkpoint (s.turns ++ call.covered)).totals - s.counters.toTokenSums = sumTokens call.covered := by
  rw [checkpoint_totals, sumTokens_append, inStep.counters, add_sub_cancel_left]

theorem unbilledTurns_found {checkpoint : BillingCheckpoint} {counters deltas : TokenSums} {turns : List TurnUsage} {billed : ℕ}
    (usage : checkpoint.turnUsage = some turns) (made : turns ≠ []) (found : billedCount counters 0 turns = some billed)
    (agrees : sumTokens turns = checkpoint.totals) : unbilledTurns checkpoint counters deltas = (turns.drop billed, []) := by
  unfold unbilledTurns
  rw [usage, Option.getD_some]
  dsimp only
  rw [if_pos (fun empty => made (List.eq_nil_of_length_eq_zero empty)), found]
  exact if_pos agrees

/-- The requests the call prices. -/
def BillCall.unbilled (call : BillCall) (s : BillingRun) : List TurnUsage × List BillingEffect :=
  unbilledTurns (call.checkpoint (s.turns ++ call.covered)) s.counters.toTokenSums
    ((call.checkpoint (s.turns ++ call.covered)).totals - s.counters.toTokenSums)

/-- Before the first request the call prices a request of nothing, and from then on the requests it covers, after some that
counted nothing. -/
theorem unbilled_covered (inStep : s.InStep) :
    s.turns ++ call.covered = [] ∧ call.unbilled s = ([iterationTurn 0], []) ∨
      ∃ n ≤ s.turns.length, call.unbilled s = (s.turns.drop n ++ call.covered, []) ∧ sumTokens (s.turns.drop n) = 0 := by
  have deltas := @call_deltas s call inStep
  unfold BillCall.unbilled
  rw [deltas]
  by_cases none_made : s.turns ++ call.covered = []
  · left
    refine ⟨none_made, ?_⟩
    unfold unbilledTurns
    have nothing : sumTokens call.covered = 0 := by
      rw [(List.append_eq_nil_iff.mp none_made).2]
      rfl
    rw [nothing]
    exact if_neg (by simp [BillCall.checkpoint, none_made])
  · right
    obtain ⟨n, inside, found, nothing⟩ := @billedCount_covers s.turns call.covered s.counters.toTokenSums 0
      (by rw [zero_add, inStep.counters])
    refine ⟨n, inside, ?_, nothing⟩
    rw [@unbilledTurns_found (call.checkpoint (s.turns ++ call.covered)) _ _ _ _ rfl none_made found rfl, List.drop_append_of_le_length inside]

/-- What the call prices costs what it covers, and is above the context window just where that is. -/
theorem unbilled_spec (inStep : s.InStep) : ∃ idle, call.unbilled s = (idle ++ call.covered, []) ∧ ∀ turn ∈ idle, Idle turn := by
  rcases @unbilled_covered s call inStep with ⟨none_made, priced⟩ | ⟨n, _, priced, nothing⟩
  · refine ⟨[iterationTurn 0], ?_, ?_⟩
    · rw [priced, (List.append_eq_nil_iff.mp none_made).2]
      rfl
    · exact List.forall_mem_singleton.mpr rfl
  · exact ⟨s.turns.drop n, priced, idle_of_sum_zero (fun turn member => inStep.counted turn (List.mem_of_mem_drop member)) nothing⟩

theorem guard_trips {idle : List TurnUsage} (idles : ∀ turn ∈ idle, Idle turn) :
    0 < modelInfo.contextWindow ∧ modelInfo.contextWindow < ((idle ++ call.covered).map TurnUsage.inputTokens).foldl max 0 ↔
      call.Trips modelInfo := by
  refine and_congr_right fun window => ?_
  rw [lt_foldl_max]
  constructor
  · rintro (below | ⟨tokens, member, above⟩)
    · exact absurd below (not_lt.mpr (le_of_lt window))
    · obtain ⟨turn, listed, rfl⟩ := List.mem_map.mp member
      rcases List.mem_append.mp listed with idle_turn | covered
      · have nothing : turn.inputTokens = 0 := congrArg TokenSums.inputTokens (idles turn idle_turn)
        rw [nothing] at above
        exact absurd above (not_lt.mpr (le_of_lt window))
      · exact ⟨turn, covered, above⟩
  · rintro ⟨turn, covered, above⟩
    exact Or.inr ⟨turn.inputTokens, List.mem_map_of_mem (List.mem_append_right _ covered), above⟩

/-- What one bill does. -/
structure Billed (modelInfo : ModelInfo) (s : BillingRun) (call : BillCall) (counters : BillingCounters)
    (effects : List BillingEffect) : Prop where
  counters : counters.toTokenSums = sumTokens (s.turns ++ call.covered)
  records : recordTotals (effects.filterMap recordOf) = sumTokens call.covered
  cost : recordedCost effects = if call.Trips modelInfo then 0 else getTurnsCost modelInfo call.covered + call.toolCost
  fallback : ∀ turnSum totals, BillingEffect.logTurnsFallback turnSum totals ∉ effects
  negative : ∀ delta tools cost before, BillingEffect.logNegativeDelta delta tools cost before ∉ effects
  trips : (∃ tokens window, BillingEffect.logGuardTrip tokens window ∈ effects) ↔ call.Trips modelInfo

theorem zeroCostWork_false {deltas : TokenSums} {toolUsage : ToolUsageTotals} (nonneg : deltas.Nonneg)
    (nothing : zeroCostWork 0 0 deltas toolUsage = false) : deltas = 0 := by
  have idle : ¬ 0 < deltas.inputTokens ∧ ¬ 0 < deltas.outputTokens ∧ ¬ 0 < deltas.cacheReadTokens ∧ ¬ 0 < deltas.cacheWriteTokens := by
    simp only [zeroCostWork, List.all_cons, List.all_nil, List.any_append, List.any_cons, List.any_nil, decide_eq_true nonneg.input,
      decide_eq_true nonneg.output, decide_eq_true nonneg.cacheRead, decide_eq_true nonneg.cacheWrite] at nothing
    simp at nothing
    exact ⟨not_lt.mpr nothing.1.1, not_lt.mpr nothing.1.2.1, not_lt.mpr nothing.1.2.2.1, not_lt.mpr nothing.1.2.2.2⟩
  obtain ⟨input, output, cacheRead, cacheWrite⟩ := idle
  have := nonneg.input
  have := nonneg.output
  have := nonneg.cacheRead
  have := nonneg.cacheWrite
  apply TokenSums.ext
  · show deltas.inputTokens = 0
    omega
  · show deltas.outputTokens = 0
    omega
  · show deltas.cacheReadTokens = 0
    omega
  · show deltas.cacheWriteTokens = 0
    omega

/-! The three ways a bill that prices `turns` ends. -/

section Priced
variable {params : BillIterationParams} {turns : List TurnUsage} {deltas : TokenSums} {toolUsage : ToolUsageTotals}
variable (tokens : params.checkpoint.totals - params.counters.toTokenSums = deltas)
variable (priced : unbilledTurns params.checkpoint params.counters.toTokenSums deltas = (turns, []))
variable (nonneg : ¬ getTurnsCost params.modelInfo turns < 0) (tools : params.toolUsage.getD ZERO_TOOL_USAGE = toolUsage)
include tokens priced nonneg tools

theorem billIteration_skipped
    (skipped : getTurnsCost params.modelInfo turns + toolUsage.costUsd ≤ 0 ∧
      (!zeroCostWork (getTurnsCost params.modelInfo turns + toolUsage.costUsd) (getTurnsCost params.modelInfo turns) deltas
        toolUsage) = true) :
    billIteration params = (params.counters, []) := by
  unfold billIteration
  dsimp only
  rw [tokens, priced, tools]
  dsimp only
  rw [if_neg nonneg]
  exact if_pos skipped

variable (settles : ¬ (getTurnsCost params.modelInfo turns + toolUsage.costUsd ≤ 0 ∧
  (!zeroCostWork (getTurnsCost params.modelInfo turns + toolUsage.costUsd) (getTurnsCost params.modelInfo turns) deltas
    toolUsage) = true))
include settles

theorem billIteration_tripped (above : 0 < params.modelInfo.contextWindow ∧
    params.modelInfo.contextWindow < (turns.map TurnUsage.inputTokens).foldl max 0) :
    billIteration params =
      (advanceCounters params.checkpoint (params.counters.cumulativeCost + getTurnsCost params.modelInfo turns),
        tripGuard params deltas ((turns.map TurnUsage.inputTokens).foldl max 0)) := by
  unfold billIteration
  dsimp only
  rw [tokens, priced, tools]
  dsimp only
  rw [if_neg nonneg]
  exact (if_neg settles).trans (if_pos above)

theorem billIteration_settled (within : ¬ (0 < params.modelInfo.contextWindow ∧
    params.modelInfo.contextWindow < (turns.map TurnUsage.inputTokens).foldl max 0)) :
    billIteration params =
      (advanceCounters params.checkpoint (params.counters.cumulativeCost + getTurnsCost params.modelInfo turns),
        settle params deltas turns (getTurnsCost params.modelInfo turns + toolUsage.costUsd) toolUsage) := by
  unfold billIteration
  dsimp only
  rw [tokens, priced, tools]
  dsimp only
  rw [if_neg nonneg]
  exact (if_neg settles).trans (if_neg within)

end Priced

theorem settle_cost {params : BillIterationParams} {turns : List TurnUsage} {deltas : TokenSums} {costDelta : ℚ}
    {toolUsage : ToolUsageTotals} : recordedCost (settle params deltas turns costDelta toolUsage) = costDelta := by
  unfold settle
  dsimp only
  split
  · simp [recordedCost, costOf]
  · simp [recordedCost, costOf]

theorem settle_records {params : BillIterationParams} {turns : List TurnUsage} {deltas : TokenSums} {costDelta : ℚ}
    {toolUsage : ToolUsageTotals} : recordTotals ((settle params deltas turns costDelta toolUsage).filterMap recordOf) = deltas := by
  unfold settle
  dsimp only
  split
  · exact add_zero _
  · exact add_zero _

theorem settle_quiet {params : BillIterationParams} {turns : List TurnUsage} {deltas : TokenSums} {costDelta : ℚ}
    {toolUsage : ToolUsageTotals} :
    (∀ turnSum totals, BillingEffect.logTurnsFallback turnSum totals ∉ settle params deltas turns costDelta toolUsage) ∧
      (∀ delta tools cost before,
        BillingEffect.logNegativeDelta delta tools cost before ∉ settle params deltas turns costDelta toolUsage) ∧
      ∀ tokens window, BillingEffect.logGuardTrip tokens window ∉ settle params deltas turns costDelta toolUsage := by
  unfold settle
  dsimp only
  split
  · simp
  · simp

theorem billIteration_billed (prices : NonnegativePrices modelInfo) (inStep : s.InStep) (counted : call.Counted) :
    Billed modelInfo s call (billIteration (call.params modelInfo model s)).1
      (billIteration (call.params modelInfo model s)).2 := by
  obtain ⟨idle, priced, idles⟩ := @unbilled_spec s call inStep
  have deltas := @call_deltas s call inStep
  unfold BillCall.unbilled at priced
  rw [deltas] at priced
  have cost : getTurnsCost modelInfo (idle ++ call.covered) = getTurnsCost modelInfo call.covered := by
    rw [getTurnsCost_append, getTurnsCost_idle idles, zero_add]
  have agent := getTurnsCost_nonneg prices counted.turns
  have nonneg : ¬ getTurnsCost modelInfo (idle ++ call.covered) < 0 := by
    rw [cost]
    exact not_lt.mpr agent
  have tokens := sumTokens_nonneg counted.turns
  have guard := @guard_trips modelInfo call idle idles
  by_cases skipped : getTurnsCost modelInfo (idle ++ call.covered) + (call.toolUsage.getD ZERO_TOOL_USAGE).costUsd ≤ 0 ∧
      (!zeroCostWork (getTurnsCost modelInfo (idle ++ call.covered) + (call.toolUsage.getD ZERO_TOOL_USAGE).costUsd)
        (getTurnsCost modelInfo (idle ++ call.covered)) (sumTokens call.covered) (call.toolUsage.getD ZERO_TOOL_USAGE)) = true
  · rw [@billIteration_skipped (call.params modelInfo model s) _ _ _ deltas priced nonneg rfl skipped]
    obtain ⟨unpaid, idle_work⟩ := skipped
    rw [cost] at unpaid idle_work
    have tools : 0 ≤ (call.toolUsage.getD ZERO_TOOL_USAGE).costUsd := counted.tools
    have free : getTurnsCost modelInfo call.covered = 0 := by linarith
    have no_tools : (call.toolUsage.getD ZERO_TOOL_USAGE).costUsd = 0 := by linarith
    rw [free, no_tools, add_zero] at idle_work
    have nothing : sumTokens call.covered = 0 := zeroCostWork_false tokens (by simpa using idle_work)
    have untripped : ¬ call.Trips modelInfo := by
      rintro ⟨window, turn, covered, above⟩
      have none_counted : turn.inputTokens = 0 := congrArg TokenSums.inputTokens (idle_of_sum_zero counted.turns nothing turn covered)
      omega
    constructor
    · rw [sumTokens_append, nothing, add_zero]
      exact inStep.counters
    · rw [nothing]
      rfl
    · rw [if_neg untripped, free]
      show 0 = 0 + (call.toolUsage.getD ZERO_TOOL_USAGE).costUsd
      rw [no_tools, add_zero]
    · exact fun _ _ member => by cases member
    · exact fun _ _ _ _ member => by cases member
    · refine ⟨?_, fun trips => (untripped trips).elim⟩
      rintro ⟨_, _, member⟩
      cases member
  · by_cases trips : call.Trips modelInfo
    · rw [@billIteration_tripped (call.params modelInfo model s) _ _ _ deltas priced nonneg rfl skipped (guard.mpr trips)]
      constructor
      · rfl
      · exact add_zero _
      · rw [if_pos trips]
        simp [recordedCost, costOf, tripGuard]
      · intro turnSum totals
        simp [tripGuard]
      · intro delta tools cost before
        simp [tripGuard]
      · exact ⟨fun _ => trips, fun _ => ⟨_, _, List.mem_cons_self⟩⟩
    · rw [@billIteration_settled (call.params modelInfo model s) _ _ _ deltas priced nonneg rfl skipped
        fun above => trips (guard.mp above)]
      constructor
      · rfl
      · exact settle_records
      · rw [if_neg trips, settle_cost]
        exact congrArg (· + _) cost
      · exact settle_quiet.1
      · exact settle_quiet.2.1
      · exact ⟨fun ⟨tokens, window, member⟩ => (settle_quiet.2.2 tokens window member).elim, fun tripped => (trips tripped).elim⟩

end Bill

/-! ### Whole runs -/

section Whole
variable {modelInfo : ModelInfo} {model : String} {steps : List BillingStep}

theorem recordedCost_append {effects later : List BillingEffect} :
    recordedCost (effects ++ later) = recordedCost effects + recordedCost later := by
  unfold recordedCost
  rw [List.map_append, List.sum_append]

theorem recordTotals_append {records later : List IterationBilling} :
    recordTotals (records ++ later) = recordTotals records + recordTotals later := by
  unfold recordTotals
  rw [List.map_append, List.sum_append]

/-- What the bills in `billed` have charged, and what none of them has logged. -/
structure Charged (modelInfo : ModelInfo) (billed : List BillCall) (s : BillingRun) : Prop extends BillingRun.InStep s where
  turns : s.turns = billed.flatMap BillCall.covered
  cost : recordedCost s.effects = ((billed.filter fun call => ¬ call.Trips modelInfo).map fun call =>
    getTurnsCost modelInfo call.covered + call.toolCost).sum
  fallback : ∀ turnSum totals, BillingEffect.logTurnsFallback turnSum totals ∉ s.effects
  negative : ∀ delta tools cost before, BillingEffect.logNegativeDelta delta tools cost before ∉ s.effects

theorem step_bill {s : BillingRun} {call : BillCall} : s.step modelInfo model (.bill call) =
    { turns := s.turns ++ call.covered
      counters := (billIteration (call.params modelInfo model s)).1
      records := s.records ++ (billIteration (call.params modelInfo model s)).2.filterMap recordOf
      effects := s.effects ++ (billIteration (call.params modelInfo model s)).2 } := rfl

theorem bill_charged {billed : List BillCall} {s : BillingRun} {call : BillCall} (prices : NonnegativePrices modelInfo)
    (charged : Charged modelInfo billed s) (counted : call.Counted) :
    Charged modelInfo (billed ++ [call]) (s.step modelInfo model (.bill call)) := by
  have one := @billIteration_billed modelInfo model s call prices charged.toInStep counted
  rw [step_bill]
  constructor
  · constructor
    · exact one.counters
    · dsimp only
      rw [recordTotals_append, charged.records, one.records, sumTokens_append]
    · exact List.forall_mem_append.mpr ⟨charged.counted, counted.turns⟩
  · show s.turns ++ call.covered = _
    rw [List.flatMap_append, charged.turns, List.flatMap_singleton]
  · dsimp only
    rw [recordedCost_append, charged.cost, one.cost, List.filter_append, List.map_append, List.sum_append]
    congr 1
    by_cases trips : call.Trips modelInfo
    · rw [if_pos trips, List.filter_cons_of_neg (by simp [trips])]
      rfl
    · rw [if_neg trips, List.filter_cons_of_pos (by simp [trips])]
      exact (add_zero _).symm
  · exact fun turnSum totals member => (List.mem_append.mp member).elim (charged.fallback turnSum totals) (one.fallback turnSum totals)
  · exact fun delta tools cost before member =>
      (List.mem_append.mp member).elim (charged.negative delta tools cost before) (one.negative delta tools cost before)

theorem resume_charged {billed : List BillCall} {s : BillingRun} {priced : Option ModelInfo} (charged : Charged modelInfo billed s) :
    Charged modelInfo billed (s.step modelInfo model (.resume priced)) :=
  { charged with counters := charged.records }

theorem billingRun_charged (prices : NonnegativePrices modelInfo) (counted : ∀ call ∈ calls steps, call.Counted) :
    Charged modelInfo (calls steps) (billingRun modelInfo model steps) := by
  induction steps using List.reverseRecOn with
  | nil =>
    constructor
    · exact ⟨rfl, rfl, List.forall_mem_nil _⟩
    · rfl
    · rfl
    · exact fun _ _ member => by cases member
    · exact fun _ _ _ _ member => by cases member
  | append_singleton steps step ih =>
    have split : calls (steps ++ [step]) = calls steps ++ calls [step] := List.filterMap_append
    have ran : billingRun modelInfo model (steps ++ [step]) = (billingRun modelInfo model steps).step modelInfo model step := by
      unfold billingRun
      rw [List.foldl_append]
      rfl
    rw [split] at counted ⊢
    have before := ih fun call member => counted call (List.mem_append_left _ member)
    rw [ran]
    cases step with
    | bill call => exact bill_charged prices before (counted call (List.mem_append_right _ List.mem_cons_self))
    | resume priced =>
      show Charged modelInfo (calls steps ++ []) _
      rw [List.append_nil]
      exact resume_charged before

theorem cost_of_calls {billed : List BillCall} : (billed.map fun call => getTurnsCost modelInfo call.covered + call.toolCost).sum =
    ((billed.flatMap BillCall.covered).map fun turn => getTurnsCost modelInfo [turn]).sum + (billed.map BillCall.toolCost).sum := by
  induction billed with
  | nil => exact (add_zero _).symm
  | cons call rest ih =>
    rw [List.map_cons, List.sum_cons, ih, List.flatMap_cons, List.map_append, List.sum_append, getTurnsCost_each, getTurnsCost_each,
      List.map_cons, List.sum_cons]
    exact add_add_add_comm _ _ _ _

/-- However a run is cut into bills and resumes: the costs recorded are those of every request and tool outside the bills that
trip the guard, each request priced on its own; records and counters agree with the requests; no bill falls back to its delta
or reports a negative one; and each bill prices the requests it covers, after some that counted nothing. -/
theorem turns_billed_once (prices : NonnegativePrices modelInfo) (counted : ∀ call ∈ calls steps, call.Counted) :
    (billingRun modelInfo model steps).turns = (calls steps).flatMap BillCall.covered ∧
      recordedCost (billingRun modelInfo model steps).effects =
        ((((calls steps).filter fun call => ¬ call.Trips modelInfo).flatMap BillCall.covered).map fun turn =>
          getTurnsCost modelInfo [turn]).sum +
        (((calls steps).filter fun call => ¬ call.Trips modelInfo).map BillCall.toolCost).sum ∧
      ((∀ turn ∈ (billingRun modelInfo model steps).turns, turn.inputTokens ≤ modelInfo.contextWindow) →
        recordedCost (billingRun modelInfo model steps).effects =
          ((billingRun modelInfo model steps).turns.map fun turn => getTurnsCost modelInfo [turn]).sum +
          ((calls steps).map BillCall.toolCost).sum) ∧
      recordTotals (billingRun modelInfo model steps).records = sumTokens (billingRun modelInfo model steps).turns ∧
      (∀ turnSum totals, BillingEffect.logTurnsFallback turnSum totals ∉ (billingRun modelInfo model steps).effects) ∧
      (∀ delta tools cost before,
        BillingEffect.logNegativeDelta delta tools cost before ∉ (billingRun modelInfo model steps).effects) ∧
      ∀ call : BillCall, call.Counted →
        ((billingRun modelInfo model steps).turns ++ call.covered = [] ∧
            call.unbilled (billingRun modelInfo model steps) = ([iterationTurn 0], []) ∨
          ∃ n ≤ (billingRun modelInfo model steps).turns.length,
            call.unbilled (billingRun modelInfo model steps) =
              ((billingRun modelInfo model steps).turns.drop n ++ call.covered, []) ∧
            sumTokens ((billingRun modelInfo model steps).turns.drop n) = 0) ∧
        ((∃ tokens window, BillingEffect.logGuardTrip tokens window ∈
            (billIteration (call.params modelInfo model (billingRun modelInfo model steps))).2) ↔ call.Trips modelInfo) := by
  have charged := @billingRun_charged modelInfo model steps prices counted
  refine ⟨charged.turns, ?_, ?_, charged.records, charged.fallback, charged.negative, ?_⟩
  · rw [charged.cost, cost_of_calls]
  · intro within
    have untripped : ((calls steps).filter fun call => ¬ call.Trips modelInfo) = calls steps := by
      refine List.filter_eq_self.mpr fun call member => decide_eq_true ?_
      rintro ⟨_, turn, covered, above⟩
      have low := within turn (charged.turns ▸ List.mem_flatMap.mpr ⟨call, member, covered⟩)
      omega
    rw [charged.cost, untripped, cost_of_calls, ← charged.turns]
  · intro call call_counted
    exact ⟨unbilled_covered charged.toInStep, (billIteration_billed prices charged.toInStep call_counted).trips⟩

end Whole

/-- A model with a long-context tier, at whole dollars. -/
def tiered : ModelInfo :=
  { backend := .anthropic
    contextWindow := 1000
    pricing := ⟨[(200, { input := 1, output := 2 }), (1000, { input := 2, output := 4 })], by decide⟩ }

theorem tiered_prices : NonnegativePrices tiered := by
  intro entry member
  have listed : entry = (200, { input := 1, output := 2 }) ∨ entry = (1000, { input := 2, output := 4 }) := by
    simpa [tiered] using member
  rcases listed with rfl | rfl
  · refine ⟨by decide, by decide, ?_, ?_⟩
    · rintro _ ⟨⟩
    · rintro _ ⟨⟩
  · refine ⟨by decide, by decide, ?_, ?_⟩
    · rintro _ ⟨⟩
    · rintro _ ⟨⟩

def request (inputTokens outputTokens : ℤ) : TurnUsage := { inputTokens := inputTokens, outputTokens := outputTokens }

def billing (covered : List TurnUsage) (toolCost : ℚ) : BillCall :=
  { covered := covered
    iterationIndex := 0
    startTime := 0
    toolUsage := some { costUsd := toolCost }
    usdToCredits := id
    clock := (0, 0) }

theorem request_counted {inputTokens outputTokens : ℤ} (input : 0 ≤ inputTokens) (output : 0 ≤ outputTokens) :
    (request inputTokens outputTokens).Counted := ⟨input, output, le_refl 0, le_refl 0⟩

/-- Two requests on different tiers, one of nothing, a resume, a request above the window, and one more. -/
def cutRun : List BillingStep :=
  [.bill (billing [request 100 10, request 300 10] 1), .bill (billing [request 0 0] 0), .resume (some tiered),
    .bill (billing [request 5000 1] 3), .resume none, .bill (billing [request 50 5] 0)]

theorem cutRun_billed : (∀ call ∈ calls cutRun, call.Counted) ∧
    (billingRun tiered "model" cutRun).turns = (calls cutRun).flatMap BillCall.covered ∧
    recordedCost (billingRun tiered "model" cutRun).effects =
      ((((calls cutRun).filter fun call => ¬ call.Trips tiered).flatMap BillCall.covered).map fun turn =>
        getTurnsCost tiered [turn]).sum + (((calls cutRun).filter fun call => ¬ call.Trips tiered).map BillCall.toolCost).sum := by
  have counted : ∀ call ∈ calls cutRun, call.Counted := by
    intro call member
    have listed : call = billing [request 100 10, request 300 10] 1 ∨ call = billing [request 0 0] 0 ∨
        billing [request 5000 1] 3 = call ∨ billing [request 50 5] 0 = call := by
      simpa [calls, cutRun, callOf] using member
    rcases listed with rfl | rfl | rfl | rfl
    · refine ⟨List.forall_mem_cons.mpr ⟨request_counted ?_ ?_, List.forall_mem_singleton.mpr (request_counted ?_ ?_)⟩, ?_⟩ <;>
        decide
    · exact ⟨List.forall_mem_singleton.mpr (request_counted (by decide) (by decide)), by decide⟩
    · exact ⟨List.forall_mem_singleton.mpr (request_counted (by decide) (by decide)), by decide⟩
    · exact ⟨List.forall_mem_singleton.mpr (request_counted (by decide) (by decide)), by decide⟩
  have whole := @turns_billed_once tiered "model" cutRun tiered_prices counted
  exact ⟨counted, whole.1, whole.2.1⟩

/-- A bill that trips the guard leaves out its tool spend as well, and a bill before the first request falls back to its delta. -/
theorem tripped_tools_dropped :
    ¬ (∀ (modelInfo : ModelInfo) (model : String) (steps : List BillingStep), NonnegativePrices modelInfo →
      (∀ call ∈ calls steps, call.Counted) → recordedCost (billingRun modelInfo model steps).effects =
        ((((calls steps).filter fun call => ¬ call.Trips modelInfo).flatMap BillCall.covered).map fun turn =>
          getTurnsCost modelInfo [turn]).sum + ((calls steps).map BillCall.toolCost).sum) ∧
      (billing [] 1).unbilled {} = ([iterationTurn (sumTokens [])], []) := by
  refine ⟨fun only_turns => ?_, rfl⟩
  have counted : ∀ call ∈ calls [.bill (billing [request 5000 1] 3)], call.Counted := by
    intro call member
    rw [List.mem_singleton.mp member]
    exact ⟨List.forall_mem_singleton.mpr (request_counted (by decide) (by decide)), by decide⟩
  have kept := only_turns tiered "model" [.bill (billing [request 5000 1] 3)] tiered_prices counted
  revert kept
  decide +kernel

end Bike4Mind.AgentBilling
