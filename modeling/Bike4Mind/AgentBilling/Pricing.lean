import Bike4Mind.Collections.OrderedMap
import Mathlib.Algebra.Order.BigOperators.Group.List
import Mathlib.Data.List.Sort
import Mathlib.Data.Rat.Defs
import Mathlib.Algebra.Order.Ring.Rat
import Mathlib.Tactic.Linarith
import Mathlib.Tactic.Positivity

/-! Prices of text models: each provider request at the rates of its own tier. -/

namespace Bike4Mind.AgentBilling
open Collections

inductive ModelBackend where
  | openAI
  | bedrock
  | anthropic
  | gemini
  | ollama
  | openAICompatible
  | bfl
  | xai
  | kimi
  | deepSeek
  | voyageAI
  | aws
  | localImage
  deriving DecidableEq

structure PricingInfo where
  input : ℚ
  output : ℚ
  cacheRead : Option ℚ := none
  cacheWrite : Option ℚ := none
  deriving DecidableEq

inductive UsagePriceSource where
  | catalog
  | literal
  deriving DecidableEq

structure ModelInfo where
  backend : ModelBackend
  contextWindow : ℤ
  pricing : OrderedMap ℕ PricingInfo
  priceSource : Option UsagePriceSource := none
  priceRowId : Option String := none

structure TurnUsage where
  inputTokens : ℤ
  outputTokens : ℤ
  cacheReadInputTokens : Option ℤ := none
  cacheCreationInputTokens : Option ℤ := none
  cacheWrite1hInputTokens : Option ℤ := none
  deriving DecidableEq

def CACHE_READ_MULTIPLIER : ℚ := 1 / 10
def CACHE_WRITE_MULTIPLIER : ℚ := 5 / 4
def CACHE_WRITE_1H_MULTIPLIER : ℚ := 2
def USAGE_EVENT_TURN_USAGE_CAP : ℕ := 100

def PUBLISHED_CACHE_READ_BACKENDS : List ModelBackend := [.gemini, .xai]

/-- The tier that covers `tokens`, or the largest one. -/
def pricingTierForTokens (model : ModelInfo) (tokens : ℤ) : Option ℕ :=
  let thresholds := model.pricing.keys.insertionSort (· ≤ ·)
  (thresholds.find? fun threshold : ℕ => tokens ≤ threshold).or thresholds.getLast?

structure AppliedRates where
  tierKey : ℕ
  input : ℚ
  output : ℚ
  cacheRead : ℚ
  cacheWrite : ℚ
  cacheWrite1h : Option ℚ := none
  deriving DecidableEq

def resolveAppliedRates (model : ModelInfo) (tierBasisTokens : ℤ) : Option AppliedRates := do
  let tier ← pricingTierForTokens model tierBasisTokens
  let tierPricing ← model.pricing.get? tier
  return {
    tierKey := tier
    input := tierPricing.input
    output := tierPricing.output
    cacheRead := tierPricing.cacheRead.getD
      (if model.backend ∈ PUBLISHED_CACHE_READ_BACKENDS then tierPricing.input else tierPricing.input * CACHE_READ_MULTIPLIER)
    cacheWrite := tierPricing.cacheWrite.getD (tierPricing.input * CACHE_WRITE_MULTIPLIER) }

def oneHourCacheWriteRate (rates : AppliedRates) : ℚ := rates.input * CACHE_WRITE_1H_MULTIPLIER

def costAtTier (model : ModelInfo) (tierBasisTokens inputTokens outputTokens cacheReadTokens cacheCreationTokens cacheWrite1hTokens : ℤ) : ℚ :=
  match resolveAppliedRates model tierBasisTokens with
  | none => 0
  | some rates =>
    let oneHourWrites := min (max cacheWrite1hTokens 0) cacheCreationTokens
    rates.input * inputTokens + rates.output * outputTokens + rates.cacheRead * cacheReadTokens +
      rates.cacheWrite * (cacheCreationTokens - oneHourWrites : ℤ) + oneHourCacheWriteRate rates * oneHourWrites

/-- The prompt of a request, cached or not. -/
def promptTokens (turn : TurnUsage) : ℤ :=
  turn.inputTokens + turn.cacheReadInputTokens.getD 0 + turn.cacheCreationInputTokens.getD 0

def turnCost (model : ModelInfo) (turn : TurnUsage) : ℚ :=
  costAtTier model (promptTokens turn) turn.inputTokens turn.outputTokens (turn.cacheReadInputTokens.getD 0)
    (turn.cacheCreationInputTokens.getD 0) (turn.cacheWrite1hInputTokens.getD 0)

def getTurnsCost (model : ModelInfo) (turns : List TurnUsage) : ℚ := (turns.map (turnCost model)).sum

/-! ### The price stamp of a usage event -/

structure UsageEventTurn where
  inputTokens : ℤ
  outputTokens : ℤ
  cacheReadTokens : Option ℤ
  cacheWriteTokens : Option ℤ
  cacheWrite1hTokens : Option ℤ
  tierKey : ℕ
  deriving DecidableEq

structure UsagePriceStamp where
  priceSource : UsagePriceSource
  priceRowId : Option String := none
  rates : Option AppliedRates := none
  turnUsage : Option (List UsageEventTurn) := none
  turnUsageTruncated : Bool := false
  cacheWrite1hTokens : Option ℤ := none
  deriving DecidableEq

def sumOneHourCacheWrites (turns : List TurnUsage) : ℤ := (turns.map fun turn => turn.cacheWrite1hInputTokens.getD 0).sum

/-- A count of zero is left out of the entry. -/
def turnEntry (turn : TurnUsage) (tierKey : ℕ) : UsageEventTurn :=
  { inputTokens := turn.inputTokens
    outputTokens := turn.outputTokens
    cacheReadTokens := turn.cacheReadInputTokens.filter (· ≠ 0)
    cacheWriteTokens := turn.cacheCreationInputTokens.filter (· ≠ 0)
    cacheWrite1hTokens := turn.cacheWrite1hInputTokens.filter (· ≠ 0)
    tierKey := tierKey }

def addTurns (sum turn : TurnUsage) : TurnUsage :=
  { inputTokens := sum.inputTokens + turn.inputTokens
    outputTokens := sum.outputTokens + turn.outputTokens
    cacheReadInputTokens := some (sum.cacheReadInputTokens.getD 0 + turn.cacheReadInputTokens.getD 0)
    cacheCreationInputTokens := some (sum.cacheCreationInputTokens.getD 0 + turn.cacheCreationInputTokens.getD 0)
    cacheWrite1hInputTokens := some (sum.cacheWrite1hInputTokens.getD 0 + turn.cacheWrite1hInputTokens.getD 0) }

/-- The stamp over the requests of one bill. -/
def buildUsagePriceStamp (model : ModelInfo) (turns : List TurnUsage) : UsagePriceStamp :=
  let tierBasisTokens := turns.foldl (fun largest turn => max largest (promptTokens turn)) 0
  let oneHourWrites := sumOneHourCacheWrites turns
  let source := model.priceSource.getD .literal
  let rates := (resolveAppliedRates model tierBasisTokens).map fun rates =>
    if 0 < oneHourWrites then { rates with cacheWrite1h := some (oneHourCacheWriteRate rates) } else rates
  let stamp : UsagePriceStamp :=
    { priceSource := source
      priceRowId := if source = .catalog then model.priceRowId.filter (· ≠ "") else none
      rates := rates
      cacheWrite1hTokens := if 0 < oneHourWrites then some oneHourWrites else none }
  match rates with
  | none => stamp
  | some rates =>
    if turns.length < 2 then stamp
    else
      let tierOf (turn : TurnUsage) : ℕ := (pricingTierForTokens model (promptTokens turn)).getD rates.tierKey
      if turns.length ≤ USAGE_EVENT_TURN_USAGE_CAP then
        { stamp with turnUsage := some (turns.map fun turn => turnEntry turn (tierOf turn)) }
      else
        let kept := turns.take (USAGE_EVENT_TURN_USAGE_CAP - 1)
        let tail := turns.drop (USAGE_EVENT_TURN_USAGE_CAP - 1)
        let tailSum := tail.foldl addTurns { inputTokens := 0, outputTokens := 0 }
        let tailTier := tail.foldl (fun highest turn => max highest (tierOf turn)) 0
        { stamp with
          turnUsage := some ((kept.map fun turn => turnEntry turn (tierOf turn)) ++ [turnEntry tailSum tailTier])
          turnUsageTruncated := true }

/-! ### What prices add up to -/

/-- No price of the model is negative. -/
def NonnegativePrices (model : ModelInfo) : Prop :=
  ∀ entry ∈ model.pricing.entries, 0 ≤ entry.2.input ∧ 0 ≤ entry.2.output ∧ (∀ rate ∈ entry.2.cacheRead, 0 ≤ rate) ∧
    ∀ rate ∈ entry.2.cacheWrite, 0 ≤ rate

/-- The counts a provider reports. -/
structure TurnUsage.Counted (turn : TurnUsage) : Prop where
  input : 0 ≤ turn.inputTokens
  output : 0 ≤ turn.outputTokens
  cacheRead : 0 ≤ turn.cacheReadInputTokens.getD 0
  cacheCreation : 0 ≤ turn.cacheCreationInputTokens.getD 0

section Costs
variable {model : ModelInfo} {turn : TurnUsage} {turns : List TurnUsage}

theorem rates_nonneg {tokens : ℤ} {rates : AppliedRates} (prices : NonnegativePrices model)
    (resolved : resolveAppliedRates model tokens = some rates) :
    0 ≤ rates.input ∧ 0 ≤ rates.output ∧ 0 ≤ rates.cacheRead ∧ 0 ≤ rates.cacheWrite := by
  unfold resolveAppliedRates at resolved
  obtain ⟨tier, _, resolved⟩ := Option.bind_eq_some_iff.mp resolved
  obtain ⟨tierPricing, found, resolved⟩ := Option.bind_eq_some_iff.mp resolved
  cases resolved
  obtain ⟨input, output, cacheRead, cacheWrite⟩ := prices _ (OrderedMap.mem_of_get? found)
  refine ⟨input, output, ?_, ?_⟩
  · cases published : tierPricing.cacheRead with
    | some rate => exact cacheRead rate published
    | none =>
      show 0 ≤ if _ then tierPricing.input else tierPricing.input * CACHE_READ_MULTIPLIER
      split
      · exact input
      · exact mul_nonneg input (by decide +kernel)
  · cases published : tierPricing.cacheWrite with
    | some rate => exact cacheWrite rate published
    | none => exact mul_nonneg input (by decide +kernel)

theorem turnCost_nonneg (prices : NonnegativePrices model) (counted : turn.Counted) : 0 ≤ turnCost model turn := by
  unfold turnCost costAtTier
  split
  · exact le_refl 0
  · rename_i rates resolved
    obtain ⟨input, output, cacheRead, cacheWrite⟩ := rates_nonneg prices resolved
    have hour : 0 ≤ min (max (turn.cacheWrite1hInputTokens.getD 0) 0) (turn.cacheCreationInputTokens.getD 0) :=
      le_min (le_max_right _ _) counted.cacheCreation
    have rest : 0 ≤ turn.cacheCreationInputTokens.getD 0 -
        min (max (turn.cacheWrite1hInputTokens.getD 0) 0) (turn.cacheCreationInputTokens.getD 0) :=
      Int.sub_nonneg_of_le (min_le_right _ _)
    have rate : 0 ≤ oneHourCacheWriteRate rates := mul_nonneg input (by decide)
    have h1 := mul_nonneg input (Int.cast_nonneg (R := ℚ) counted.input)
    have h2 := mul_nonneg output (Int.cast_nonneg (R := ℚ) counted.output)
    have h3 := mul_nonneg cacheRead (Int.cast_nonneg (R := ℚ) counted.cacheRead)
    have h4 := mul_nonneg cacheWrite (Int.cast_nonneg (R := ℚ) rest)
    have h5 := mul_nonneg rate (Int.cast_nonneg (R := ℚ) hour)
    dsimp only
    linarith

theorem turnCost_zero (input : turn.inputTokens = 0) (output : turn.outputTokens = 0)
    (cacheRead : turn.cacheReadInputTokens.getD 0 = 0) (cacheCreation : turn.cacheCreationInputTokens.getD 0 = 0) :
    turnCost model turn = 0 := by
  unfold turnCost costAtTier
  split
  · rfl
  · rw [input, output, cacheRead, cacheCreation, min_eq_right (le_max_right _ _)]
    simp

theorem getTurnsCost_cons : getTurnsCost model (turn :: turns) = turnCost model turn + getTurnsCost model turns := by
  unfold getTurnsCost
  rw [List.map_cons, List.sum_cons]

theorem getTurnsCost_append {later : List TurnUsage} :
    getTurnsCost model (turns ++ later) = getTurnsCost model turns + getTurnsCost model later := by
  unfold getTurnsCost
  rw [List.map_append, List.sum_append]

theorem getTurnsCost_one : getTurnsCost model [turn] = turnCost model turn := by
  rw [getTurnsCost_cons]
  exact add_zero _

theorem getTurnsCost_each : (turns.map fun turn => getTurnsCost model [turn]).sum = getTurnsCost model turns := by
  unfold getTurnsCost
  congr 1
  exact List.map_congr_left fun turn _ => getTurnsCost_one

theorem getTurnsCost_nonneg (prices : NonnegativePrices model) (counted : ∀ turn ∈ turns, turn.Counted) :
    0 ≤ getTurnsCost model turns := by
  induction turns with
  | nil => exact le_refl 0
  | cons turn rest ih =>
    rw [getTurnsCost_cons]
    exact add_nonneg (turnCost_nonneg prices (counted turn List.mem_cons_self))
      (ih fun later member => counted later (List.mem_cons_of_mem _ member))

end Costs
end Bike4Mind.AgentBilling
