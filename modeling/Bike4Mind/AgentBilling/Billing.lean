import Bike4Mind.AgentBilling.Pricing
import Mathlib.Algebra.Group.Basic

/-! Per-iteration billing of an agent run, with the effects of one call in the order they are made. -/

namespace Bike4Mind.AgentBilling
open Collections

/-- The token counts of a record, a delta or a total. -/
@[ext] structure TokenSums where
  inputTokens : ℤ := 0
  outputTokens : ℤ := 0
  cacheReadTokens : ℤ := 0
  cacheWriteTokens : ℤ := 0
  deriving DecidableEq

namespace TokenSums

instance : Zero TokenSums := ⟨{}⟩

instance : Add TokenSums :=
  ⟨fun a b => ⟨a.inputTokens + b.inputTokens, a.outputTokens + b.outputTokens, a.cacheReadTokens + b.cacheReadTokens,
    a.cacheWriteTokens + b.cacheWriteTokens⟩⟩

instance : Neg TokenSums := ⟨fun a => ⟨-a.inputTokens, -a.outputTokens, -a.cacheReadTokens, -a.cacheWriteTokens⟩⟩

instance : Sub TokenSums :=
  ⟨fun a b => ⟨a.inputTokens - b.inputTokens, a.outputTokens - b.outputTokens, a.cacheReadTokens - b.cacheReadTokens,
    a.cacheWriteTokens - b.cacheWriteTokens⟩⟩

section Components
variable (a b : TokenSums)

@[simp] theorem zero_inputTokens : (0 : TokenSums).inputTokens = 0 := rfl
@[simp] theorem zero_outputTokens : (0 : TokenSums).outputTokens = 0 := rfl
@[simp] theorem zero_cacheReadTokens : (0 : TokenSums).cacheReadTokens = 0 := rfl
@[simp] theorem zero_cacheWriteTokens : (0 : TokenSums).cacheWriteTokens = 0 := rfl
@[simp] theorem add_inputTokens : (a + b).inputTokens = a.inputTokens + b.inputTokens := rfl
@[simp] theorem add_outputTokens : (a + b).outputTokens = a.outputTokens + b.outputTokens := rfl
@[simp] theorem add_cacheReadTokens : (a + b).cacheReadTokens = a.cacheReadTokens + b.cacheReadTokens := rfl
@[simp] theorem add_cacheWriteTokens : (a + b).cacheWriteTokens = a.cacheWriteTokens + b.cacheWriteTokens := rfl

end Components

instance : AddCommGroup TokenSums where
  add_assoc a b c := by ext <;> exact add_assoc _ _ _
  zero_add a := by ext <;> simp
  add_zero a := by ext <;> simp
  add_comm a b := by ext <;> exact add_comm _ _
  neg_add_cancel a := by ext <;> exact neg_add_cancel _
  sub_eq_add_neg a b := by ext <;> exact sub_eq_add_neg _ _
  nsmul := nsmulRec
  zsmul := zsmulRec

end TokenSums

/-- The totals billed so far. -/
structure BillingCounters extends TokenSums where
  cumulativeCost : ℚ := 0
  deriving DecidableEq

structure BillingCheckpoint where
  totalInputTokens : ℤ
  totalOutputTokens : ℤ
  totalCacheReadTokens : ℤ
  totalCacheWriteTokens : ℤ
  finishReason : Option String := none
  turnUsage : Option (List TurnUsage) := none

def BillingCheckpoint.totals (checkpoint : BillingCheckpoint) : TokenSums :=
  { inputTokens := checkpoint.totalInputTokens
    outputTokens := checkpoint.totalOutputTokens
    cacheReadTokens := checkpoint.totalCacheReadTokens
    cacheWriteTokens := checkpoint.totalCacheWriteTokens }

structure ToolUsageTotals extends TokenSums where
  costUsd : ℚ := 0
  chargedCostUsd : Option ℚ := none

def ZERO_TOOL_USAGE : ToolUsageTotals := {}

inductive UsageEventStatus where
  | ok
  | error
  | timeout
  | refusal
  | degenerate
  deriving DecidableEq

def TRUNCATED_FINISH_REASON : String := "max_tokens"
def DEGENERATE_FINISH_REASON : String := "degenerate_repetition"

/-- The usage status of `buildEarlyStopStamp`. -/
def earlyStopStatus (finishReason : Option String) : Option UsageEventStatus :=
  if finishReason = some TRUNCATED_FINISH_REASON then some .ok
  else if finishReason = some DEGENERATE_FINISH_REASON then some .degenerate
  else none

structure UsageEvent extends TokenSums where
  costUsd : ℚ
  creditsCharged : ℚ
  stamp : Option UsagePriceStamp := none
  status : UsageEventStatus
  latencyMs : ℤ

structure IterationBilling extends TokenSums where
  iteration : ℕ
  credits : ℚ
  model : String
  timestamp : ℤ

inductive BillingEffect where
  | deductCredits (deltas : TokenSums) (credits : ℚ)
  | recordUsageEvent (event : UsageEvent)
  | addIterationBilling (billing : IterationBilling)
  | sendProgress (creditsUsed : ℚ) (iterationIndex : ℕ)
  | logGuardTrip (requestInputTokens contextWindow : ℤ)
  | logNegativeDelta (costDelta toolCostUsd cumulativeCost previousCumulativeCost : ℚ)
  | logTurnsFallback (turnSum totals : TokenSums)

/-- `clock` is what `now` returns, first and then. -/
structure BillIterationParams where
  iterationIndex : ℕ
  checkpoint : BillingCheckpoint
  counters : BillingCounters
  modelInfo : ModelInfo
  chargedModelInfo : Option ModelInfo := none
  model : String
  startTime : ℤ
  toolUsage : Option ToolUsageTotals := none
  usdToCredits : ℚ → ℚ
  clock : ℤ × ℤ

def advanceCounters (checkpoint : BillingCheckpoint) (cumulativeCost : ℚ) : BillingCounters :=
  { checkpoint.totals with cumulativeCost := cumulativeCost }

def iterationTurn (tokens : TokenSums) : TurnUsage :=
  { inputTokens := tokens.inputTokens
    outputTokens := tokens.outputTokens
    cacheReadInputTokens := some tokens.cacheReadTokens
    cacheCreationInputTokens := some tokens.cacheWriteTokens }

def turnTokens (turn : TurnUsage) : TokenSums :=
  { inputTokens := turn.inputTokens
    outputTokens := turn.outputTokens
    cacheReadTokens := turn.cacheReadInputTokens.getD 0
    cacheWriteTokens := turn.cacheCreationInputTokens.getD 0 }

def sumTokens (turns : List TurnUsage) : TokenSums := (turns.map turnTokens).sum

/-- How many turns are billed already: the first prefix that adds up to the counters. -/
def billedCount (counters : TokenSums) : TokenSums → List TurnUsage → Option ℕ
  | sum, [] => if sum = counters then some 0 else none
  | sum, turn :: rest => if sum = counters then some 0 else (billedCount counters (sum + turnTokens turn) rest).map (· + 1)

def unbilledTurns (checkpoint : BillingCheckpoint) (counters deltas : TokenSums) : List TurnUsage × List BillingEffect :=
  let turns := checkpoint.turnUsage.getD []
  if turns.length ≠ 0 then
    match billedCount counters 0 turns with
    | some billed =>
      if sumTokens turns = checkpoint.totals then (turns.drop billed, [])
      else ([iterationTurn deltas], [.logTurnsFallback (sumTokens turns) checkpoint.totals])
    | none => ([iterationTurn deltas], [.logTurnsFallback (sumTokens turns) checkpoint.totals])
  else ([iterationTurn deltas], [])

/-- Counters rebuilt from the records of earlier invocations. -/
def reseedCounters (iterationBilling : List IterationBilling) (modelInfo : Option ModelInfo) : BillingCounters :=
  let sums := (iterationBilling.map IterationBilling.toTokenSums).sum
  { sums with
    cumulativeCost := (modelInfo.map fun model =>
      getTurnsCost model (iterationBilling.map fun billing => iterationTurn billing.toTokenSums)).getD 0 }

/-- A model without prices still made provider calls. -/
def zeroCostWork (costDelta agentCostDelta : ℚ) (deltas : TokenSums) (toolUsage : ToolUsageTotals) : Bool :=
  let agentDeltas := [deltas.inputTokens, deltas.outputTokens, deltas.cacheReadTokens, deltas.cacheWriteTokens]
  costDelta = 0 && agentCostDelta = 0 && agentDeltas.all (0 ≤ ·) &&
    (agentDeltas ++ [toolUsage.inputTokens, toolUsage.outputTokens]).any (0 < ·)

section BillIteration
variable (params : BillIterationParams)

def iterationRecord (deltas : TokenSums) (credits : ℚ) (timestamp : ℤ) : IterationBilling :=
  { deltas with iteration := params.iterationIndex, credits := credits, model := params.model, timestamp := timestamp }

/-- The bill is dropped, and a record without credits keeps the records in step with the checkpoint. -/
def tripGuard (deltas : TokenSums) (requestInputTokens : ℤ) : List BillingEffect :=
  [.logGuardTrip requestInputTokens params.modelInfo.contextWindow,
    .addIterationBilling (iterationRecord params deltas 0 params.clock.1),
    .recordUsageEvent
      { costUsd := 0, creditsCharged := 0, status := .error, latencyMs := params.clock.2 - params.startTime }]

/-- Charges the customer for the agent and its tools, and records the agent's own counts. -/
def settle (deltas : TokenSums) (turns : List TurnUsage) (costDelta : ℚ) (toolUsage : ToolUsageTotals) : List BillingEffect :=
  let charged := deltas + toolUsage.toTokenSums
  let credits := params.usdToCredits ((params.chargedModelInfo.map fun chargedModelInfo =>
    getTurnsCost chargedModelInfo turns + toolUsage.chargedCostUsd.getD toolUsage.costUsd).getD costDelta)
  (if 0 < credits then [.deductCredits charged credits] else []) ++
    [.recordUsageEvent
      { charged with
        costUsd := costDelta
        creditsCharged := credits
        stamp := some (buildUsagePriceStamp params.modelInfo turns)
        status := (earlyStopStatus params.checkpoint.finishReason).getD .ok
        latencyMs := params.clock.1 - params.startTime },
      .addIterationBilling (iterationRecord params deltas credits params.clock.2),
      .sendProgress credits params.iterationIndex]

def billIteration : BillingCounters × List BillingEffect :=
  let toolUsage := params.toolUsage.getD ZERO_TOOL_USAGE
  let counters := params.counters
  let deltas := params.checkpoint.totals - counters.toTokenSums
  let (turns, fallback) := unbilledTurns params.checkpoint counters.toTokenSums deltas
  let agentCostDelta := getTurnsCost params.modelInfo turns
  let cumulativeCost := counters.cumulativeCost + agentCostDelta
  let costDelta := agentCostDelta + toolUsage.costUsd
  let negative := if agentCostDelta < 0 then
    [BillingEffect.logNegativeDelta agentCostDelta toolUsage.costUsd cumulativeCost counters.cumulativeCost] else []
  if costDelta ≤ 0 ∧ !zeroCostWork costDelta agentCostDelta deltas toolUsage then (counters, fallback ++ negative)
  else
    let requestInputTokens := (turns.map TurnUsage.inputTokens).foldl max 0
    if 0 < params.modelInfo.contextWindow ∧ params.modelInfo.contextWindow < requestInputTokens then
      (advanceCounters params.checkpoint cumulativeCost, fallback ++ negative ++ tripGuard params deltas requestInputTokens)
    else
      (advanceCounters params.checkpoint cumulativeCost, fallback ++ negative ++ settle params deltas turns costDelta toolUsage)

end BillIteration
end Bike4Mind.AgentBilling
